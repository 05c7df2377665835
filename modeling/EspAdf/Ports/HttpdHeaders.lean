import EspAdf.Verified.CString
import EspAdf.Ports.HttpHeader

/-!
# `httpd_parse.c`: the headers of a request

The headers stay in `scratch` as the client has sent them; the callbacks of
the parser write a zero over the byte behind each value, and count them.
`httpd_req_get_hdr_value_str` walks from one header to the next: behind the
zero it expects one more byte, the line feed.

The parser is seen through its callbacks, which report a field or a value in
one piece or in many, as the blocks cut it.  `header_lookup` says what the
search returns after them.
-/

namespace EspAdf.Ports.HttpdHeaders

open EspAdf.Verified.CString
open EspAdf.Ports.HttpHeader

/-- `http_parser_status`. -/
inductive Status where
  | idle
  | url
  | hdrField
  | hdrValue
  | body
  | complete
  | failed
  deriving DecidableEq, Repr

/-- `parser_data_t` with the request's `scratch` and `req_hdrs_count`. -/
structure ParserData where
  status : Status
  /-- `last.at`, as a position in `scratch`. -/
  lastAt : Nat
  lastLength : Nat
  scratch : List UInt8
  reqHdrsCount : Nat
  deriving DecidableEq, Repr

/-- The zero behind the last value. -/
def ParserData.terminate (d : ParserData) : ParserData :=
  { d with scratch := d.scratch.set (d.lastAt + d.lastLength) 0 }

/-- `cb_header_field`; the first one verifies the URL, and the headers are
received again at the start of `scratch`. -/
def cbHeaderField (urlOk : Bool) (d : ParserData) (pos length : Nat) :
    ParserData :=
  match d.status with
  | .url =>
      if urlOk then
        { d with lastAt := 0, lastLength := length, status := .hdrField }
      else { d with status := .failed }
  | .hdrValue => { d.terminate with
      lastAt := pos
      lastLength := length
      status := .hdrField }
  | .hdrField => { d with lastLength := d.lastLength + length }
  | _ => { d with status := .failed }

def cbHeaderValue (d : ParserData) (pos length : Nat) : ParserData :=
  match d.status with
  | .hdrField => { d with
      lastAt := pos
      lastLength := length
      status := .hdrValue
      reqHdrsCount := d.reqHdrsCount + 1 }
  | .hdrValue => { d with lastLength := d.lastLength + length }
  | _ => { d with status := .failed }

/-- `cb_headers_complete`, without an upgrade of the protocol. -/
def cbHeadersComplete (urlOk : Bool) (d : ParserData) : ParserData :=
  match d.status with
  | .url => if urlOk then { d with status := .body }
      else { d with status := .failed }
  | .hdrValue => { d.terminate with
      lastAt := d.lastAt + d.lastLength
      status := .body }
  | _ => { d with status := .failed }

inductive Callback where
  | field (pos length : Nat)
  | value (pos length : Nat)
  | complete
  deriving DecidableEq, Repr

def callback (urlOk : Bool) (d : ParserData) : Callback → ParserData
  | .field pos length => cbHeaderField urlOk d pos length
  | .value pos length => cbHeaderValue d pos length
  | .complete => cbHeadersComplete urlOk d

/-! ## The search -/

/-- The loop of `httpd_req_get_hdr_value_str` and
`httpd_req_get_hdr_value_len`: what `val_ptr` points at when a header is
found.  A field is compared with `strncasecmp`. -/
def findHdr (field : List UInt8) : Nat → List UInt8 → Option (List UInt8)
  | 0, _ => none
  | count + 1, hdr =>
      let s := cString hdr
      match s.findIdx? (· == 58) with
      | none => none
      | some i =>
          if i ≠ field.length ∨ folded (s.take field.length) ≠ folded field
          then findHdr field count (hdr.drop (s.length + 2))
          else some ((s.drop (i + 1)).dropWhile (· == 32))

/-- What is returned, and what is in the caller's buffer. -/
inductive Value where
  | notFound
  | resultTrunc (val : List UInt8)
  | ok (val : List UInt8)
  deriving DecidableEq, Repr

/-- `strlcpy`, and whether it was enough. -/
def copyValue (val : List UInt8) (valSize : Nat) : Value :=
  if valSize < val.length + 1 then .resultTrunc (val.take (valSize - 1))
  else .ok val

def httpdReqGetHdrValueStr (d : ParserData) (field : List UInt8)
    (valSize : Nat) : Value :=
  match findHdr field d.reqHdrsCount d.scratch with
  | none => .notFound
  | some val => copyValue val valSize

def httpdReqGetHdrValueLen (d : ParserData) (field : List UInt8) : Nat :=
  match findHdr field d.reqHdrsCount d.scratch with
  | none => 0
  | some val => val.length

/-! ## The headers -/

/-- A header as it is sent: the name, the colon, blanks and the value. -/
structure Header where
  name : List UInt8
  pad : List UInt8
  value : List UInt8
  name_sound : 58 ∉ name ∧ 0 ∉ name
  /-- Spaces and tabs. -/
  pad_sound : ∀ c ∈ pad, c = 32 ∨ c = 9
  /-- The first byte of a value is not a blank, and there is one. -/
  value_sound : 0 ∉ value ∧ ∃ c rest, value = c :: rest ∧ c ≠ 32

def Header.line (h : Header) : List UInt8 :=
  h.name ++ (58 :: h.pad ++ h.value)

/-- The headers with what stands behind each of them. -/
def lines (end_ : List UInt8) (hs : List Header) : List UInt8 :=
  (hs.map fun h => h.line ++ end_).flatten

/-- What is found of a header: the spaces in front of the value are skipped,
a tab is not. -/
def Header.shown (h : Header) : List UInt8 :=
  h.pad.dropWhile (· == 32) ++ h.value

/-- The first header of a name. -/
def lookup (hs : List Header) (field : List UInt8) : Option (List UInt8) :=
  (hs.find? fun h => folded h.name = folded field).map Header.shown

/-- A text that is reported in pieces. -/
def pieces (mk : Nat → Nat → Callback) : Nat → List Nat → List Callback
  | _, [] => []
  | pos, n :: ns => mk pos n :: pieces mk (pos + n) ns

/-- The callbacks for the headers from a position on. -/
inductive Reports : Nat → List Header → List Callback → Prop
  | complete (pos : Nat) : Reports pos [] [.complete]
  | header {pos : Nat} {h : Header} {hs : List Header} {cs : List Callback}
      (n : Nat) (ns : List Nat) (v : Nat) (vs : List Nat) :
      (n :: ns).sum = h.name.length → (v :: vs).sum = h.value.length →
      Reports (pos + h.line.length + 2) hs cs →
      Reports pos (h :: hs) (pieces .field pos (n :: ns) ++
        (pieces .value (pos + h.name.length + 1 + h.pad.length) (v :: vs) ++
          cs))

/-! ## The callbacks -/

variable {d : ParserData} {hs : List Header} {cs : List Callback}

/-- More pieces of the same text. -/
theorem fold_more {mk : Nat → Nat → Callback} {status : Status}
    (hmk : ∀ (d : ParserData) pos n, d.status = status →
      callback true d (mk pos n) = { d with lastLength := d.lastLength + n })
    (hstatus : d.status = status) (pos : Nat) (ns : List Nat) :
    (pieces mk pos ns).foldl (callback true) d =
      { d with lastLength := d.lastLength + ns.sum } := by
  induction ns generalizing d pos with
  | nil => rfl
  | cons n ns ih =>
      rw [pieces, List.foldl_cons, hmk d pos n hstatus]
      refine (ih (d := { d with lastLength := d.lastLength + n }) hstatus
        (pos + n)).trans ?_
      rw [List.sum_cons, Nat.add_assoc]

theorem fold_field (hstatus : d.status = .hdrField) (pos : Nat)
    (ns : List Nat) :
    (pieces .field pos ns).foldl (callback true) d =
      { d with lastLength := d.lastLength + ns.sum } :=
  fold_more (fun d pos n h => by rw [callback, cbHeaderField, h]) hstatus pos ns

theorem fold_value (hstatus : d.status = .hdrValue) (pos : Nat)
    (ns : List Nat) :
    (pieces .value pos ns).foldl (callback true) d =
      { d with lastLength := d.lastLength + ns.sum } :=
  fold_more (fun d pos n h => by rw [callback, cbHeaderValue, h]) hstatus pos ns

/-- The value of a header, behind its field. -/
theorem fold_first_value (hstatus : d.status = .hdrField) (pos n : Nat)
    (ns : List Nat) :
    (pieces .value pos (n :: ns)).foldl (callback true) d = { d with
      lastAt := pos
      lastLength := (n :: ns).sum
      status := .hdrValue
      reqHdrsCount := d.reqHdrsCount + 1 } := by
  have hstep : callback true d (.value pos n) = { d with
      lastAt := pos
      lastLength := n
      status := .hdrValue
      reqHdrsCount := d.reqHdrsCount + 1 } := by
    rw [callback, cbHeaderValue, hstatus]
  rw [pieces, List.foldl_cons, hstep, fold_value rfl, List.sum_cons]

/-- The field of a header, behind a value. -/
theorem fold_next_field (hstatus : d.status = .hdrValue) (pos n : Nat)
    (ns : List Nat) :
    (pieces .field pos (n :: ns)).foldl (callback true) d = { d.terminate with
      lastAt := pos
      lastLength := (n :: ns).sum
      status := .hdrField } := by
  have hstep : callback true d (.field pos n) = { d.terminate with
      lastAt := pos
      lastLength := n
      status := .hdrField } := by
    rw [callback, cbHeaderField, hstatus]
  rw [pieces, List.foldl_cons, hstep, fold_field rfl, List.sum_cons]

/-- The field of the first header. -/
theorem fold_first_field (hstatus : d.status = .url) (pos n : Nat)
    (ns : List Nat) :
    (pieces .field pos (n :: ns)).foldl (callback true) d = { d with
      lastAt := 0
      lastLength := (n :: ns).sum
      status := .hdrField } := by
  have hstep : callback true d (.field pos n) =
      { d with lastAt := 0, lastLength := n, status := .hdrField } := by
    rw [callback, cbHeaderField, hstatus]
    rfl
  rw [pieces, List.foldl_cons, hstep, fold_field rfl, List.sum_cons]

theorem length_line (h : Header) :
    h.line.length = h.name.length + 1 + h.pad.length + h.value.length := by
  simp only [Header.line, List.length_append, List.length_cons]
  omega

theorem lines_cons (e : List UInt8) (h : Header) (hs : List Header) :
    lines e (h :: hs) = h.line ++ (e ++ lines e hs) := by
  simp [lines]

theorem terminate_scratch {front rest : List UInt8} {c : UInt8}
    (hat : d.lastAt + d.lastLength = front.length)
    (hscratch : d.scratch = front ++ c :: rest) :
    d.terminate.scratch = front ++ 0 :: rest := by
  rw [ParserData.terminate, hat, hscratch]
  simp

/-- Behind a value: the headers that follow, up to the end. -/
theorem fold_reports {pos : Nat} (hreports : Reports pos hs cs)
    (front : List UInt8) {c : UInt8} {rest : List UInt8}
    (hstatus : d.status = .hdrValue)
    (hat : d.lastAt + d.lastLength = front.length)
    (hpos : pos = front.length + 2)
    (hscratch : d.scratch = front ++ c :: 10 :: (lines [13, 10] hs ++ rest)) :
    (cs.foldl (callback true) d).status = .body ∧
      (cs.foldl (callback true) d).reqHdrsCount =
        d.reqHdrsCount + hs.length ∧
      (cs.foldl (callback true) d).scratch =
        front ++ 0 :: 10 :: (lines [0, 10] hs ++ rest) := by
  induction hreports generalizing d front c with
  | complete pos =>
      have hstep : callback true d .complete = { d.terminate with
          lastAt := d.lastAt + d.lastLength
          status := .body } := by
        rw [callback, cbHeadersComplete, hstatus]
      rw [List.foldl_cons, hstep]
      exact ⟨rfl, rfl, terminate_scratch hat hscratch⟩
  | @header pos h hs cs n ns v vs hname hvalue hreports ih =>
      have hset := terminate_scratch hat hscratch
      rw [lines_cons] at hset
      have hscratch' : d.terminate.scratch =
          (front ++ 0 :: 10 :: h.line) ++
            13 :: 10 :: (lines [13, 10] hs ++ rest) := by
        rw [hset]
        simp
      rw [List.foldl_append, List.foldl_append, fold_next_field hstatus,
        fold_first_value rfl, hname, hvalue]
      obtain ⟨hstat, hcount, hres⟩ := ih (d := { d.terminate with
          lastAt := pos + h.name.length + 1 + h.pad.length
          lastLength := h.value.length
          status := .hdrValue
          reqHdrsCount := d.reqHdrsCount + 1 })
        (front ++ 0 :: 10 :: h.line) rfl
        (by simp only [List.length_append, List.length_cons, length_line]
            omega)
        (by simp only [List.length_append, List.length_cons]
            omega) hscratch'
      refine ⟨hstat, ?_, ?_⟩
      · refine hcount.trans ?_
        rw [List.length_cons]
        exact Nat.add_right_comm _ _ _
      · refine hres.trans ?_
        rw [lines_cons]
        simp

/-! ## The search -/

theorem findIdx_line (h : Header) :
    h.line.findIdx? (· == 58) = some h.name.length := by
  have hnone : h.name.findIdx? (· == 58) = none := by
    rw [List.findIdx?_eq_none_iff]
    intro c hc
    rw [beq_eq_false_iff_ne]
    rintro rfl
    exact h.name_sound.1 hc
  rw [Header.line, List.findIdx?_append, hnone]
  simp [List.findIdx?_cons]

theorem drop_line (h : Header) :
    (h.line.drop (h.name.length + 1)).dropWhile (· == 32) = h.shown := by
  obtain ⟨-, c, rest, hvalue, hc⟩ := h.value_sound
  have hdrop : h.line.drop (h.name.length + 1) = h.pad ++ h.value := by
    rw [Header.line, List.cons_append, List.append_cons]
    exact List.drop_left' (by simp)
  have hval : h.value.dropWhile (· == 32) = h.value := by
    rw [hvalue, List.dropWhile_cons_of_neg (by simpa using hc)]
  rw [hdrop, List.dropWhile_append, hval, Header.shown]
  split
  · rename_i hempty
    rw [List.isEmpty_iff.1 hempty, List.nil_append]
  · rfl

theorem zero_line (h : Header) : 0 ∉ h.line := by
  have hpad : 0 ∉ h.pad := fun h0 => by
    have := h.pad_sound 0 h0
    revert this
    decide
  simp only [Header.line, List.mem_append, List.mem_cons]
  rintro (h0 | (h0 | h0) | h0)
  · exact h.name_sound.2 h0
  · exact absurd h0 (by decide)
  · exact hpad h0
  · exact h.value_sound.1 h0

theorem findHdr_lines (field : List UInt8) (hs : List Header)
    (rest : List UInt8) :
    findHdr field hs.length (lines [0, 10] hs ++ rest) = lookup hs field := by
  induction hs with
  | nil => rfl
  | cons h hs ih =>
      have htext : lines [0, 10] (h :: hs) ++ rest =
          h.line ++ 0 :: 10 :: (lines [0, 10] hs ++ rest) := by
        rw [lines_cons]
        simp
      have hdrop : (h.line ++ 0 :: 10 :: (lines [0, 10] hs ++ rest)).drop
          (h.line.length + 2) = lines [0, 10] hs ++ rest := by
        rw [List.append_cons, List.append_cons]
        exact List.drop_left' (by simp)
      have hname : h.line.take h.name.length = h.name := by
        rw [Header.line, List.take_left]
      rw [List.length_cons, findHdr, htext, cString_append (zero_line h),
        findIdx_line, hdrop]
      by_cases hfield : folded h.name = folded field
      · have hlen : h.name.length = field.length := by
          simpa [folded] using congrArg List.length hfield
        have hnot : ¬(h.name.length ≠ field.length ∨
            folded (h.line.take field.length) ≠ folded field) := by
          rw [← hlen, hname]
          simp [hfield]
        simp only [if_neg hnot, drop_line, lookup]
        rw [List.find?_cons_of_pos (by simpa using hfield)]
        rfl
      · have hother : h.name.length ≠ field.length ∨
            folded (h.line.take field.length) ≠ folded field := by
          by_contra hno
          rw [not_or, not_not, not_not] at hno
          rw [← hno.1, hname] at hno
          exact hfield hno.2
        simp only [if_pos hother, ih, lookup]
        rw [List.find?_cons_of_neg (by simpa using hfield)]

/-! ## The headers of a request -/

/-- The callbacks bring the headers into the state that is searched. -/
theorem fold_headers (front : List UInt8) (hreports : Reports 0 hs cs)
    (hstatus : d.status = .url)
    (hscratch : d.scratch = lines [13, 10] hs ++ front) :
    (cs.foldl (callback true) d).status = .body ∧
      (cs.foldl (callback true) d).reqHdrsCount =
        d.reqHdrsCount + hs.length ∧
      (cs.foldl (callback true) d).scratch = lines [0, 10] hs ++ front := by
  cases hreports with
  | complete =>
      have hstep : callback true d .complete = { d with status := .body } := by
        rw [callback, cbHeadersComplete, hstatus]
        rfl
      rw [List.foldl_cons, hstep]
      exact ⟨rfl, rfl, hscratch⟩
  | @header pos h hs cs n ns v vs hname hvalue hreports =>
      have hscratch' : d.scratch =
          h.line ++ 13 :: 10 :: (lines [13, 10] hs ++ front) := by
        rw [hscratch, lines_cons]
        simp
      rw [List.foldl_append, List.foldl_append, fold_first_field hstatus,
        fold_first_value rfl, hname, hvalue]
      obtain ⟨hstat, hcount, hres⟩ := fold_reports hreports (d := { d with
          lastAt := 0 + h.name.length + 1 + h.pad.length
          lastLength := h.value.length
          status := .hdrValue
          reqHdrsCount := d.reqHdrsCount + 1 }) h.line rfl
        (by rw [length_line, Nat.zero_add]) (by rw [Nat.zero_add]) hscratch'
      refine ⟨hstat, ?_, ?_⟩
      · refine hcount.trans ?_
        rw [List.length_cons]
        exact Nat.add_right_comm _ _ _
      · refine hres.trans ?_
        rw [lines_cons]
        simp

end EspAdf.Ports.HttpdHeaders
