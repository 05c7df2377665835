import EspAdf.Verified.CString
import EspAdf.Ports.HttpHeader

/-!
# `esp_http_client.c`: the head of a request

`esp_http_client_request_send` prints the request line and the headers into a
buffer and sends it; headers that do not fit are meant to go into the buffer
again when it is sent.  `http_header_generate_string` decides which: it
measures the lines of all items, and stops printing not where they begin not
to fit but in front of the last item.

The buffer is its bytes.  `snprintf` cuts what it prints to the size it is
given, but a negative size is a large one.  A byte behind the buffer is an
`overrun`.

`request_sent_whole_iff` says for which lengths the head is sent whole, or is
refused: if everything fits, or everything but the last header does and that
one fits by itself.
-/

namespace EspAdf.Ports.HttpClientHead

open EspAdf.Verified.CString
open EspAdf.Ports.HttpHeader

def text (s : String) : List UInt8 :=
  s.toList.map fun c => UInt8.ofNat c.toNat

def crlf : List UInt8 := [13, 10]

/-- `snprintf(buffer, size, ..)` at an offset of `mem`, where `s` is the whole
text; none if it writes a byte behind `mem`.  The size is converted to
`size_t`. -/
def snprintf (mem : List UInt8) (offset : Nat) (size : Int)
    (s : List UInt8) : Option (List UInt8) :=
  let out := if size = 0 then []
    else if size < 0 then s ++ [0] else s.take (size.toNat - 1) ++ [0]
  if offset + out.length ≤ mem.length then some (store mem offset out)
  else none

/-! ## `http_header_generate_string` -/

/-- `"%s: %s\r\n"`; an item without a value is left out. -/
def line (item : Item) : Option (List UInt8) :=
  item.value.map fun value => item.key ++ text ": " ++ value ++ crlf

def lineLen (item : Item) : Nat :=
  match item.value with
  | some value => item.key.length + value.length + 4
  | none => 0

/-- The first loop: `idx`, `siz` and `ret_idx`. -/
def measure (bufferLen : Int) (index : Nat) :
    List Item → Nat → Nat → Int → Nat × Nat × Int
  | [], idx, siz, retIdx => (idx, siz, retIdx)
  | item :: items, idx, siz, retIdx =>
      let siz := if index ≤ idx then siz + lineLen item else siz
      measure bufferLen index items (idx + 1) siz
        (if siz + 1 > bufferLen - 2 then idx else retIdx)

/-- The second loop: the buffer and `str_len`. -/
def printItems (offset : Nat) (size : Int) (index retIdx : Nat) :
    List Item → Nat → List UInt8 → Nat → Option (List UInt8 × Nat)
  | [], _, mem, strLen => some (mem, strLen)
  | item :: items, idx, mem, strLen =>
      match line item with
      | some l =>
          if index ≤ idx ∧ idx < retIdx then
            (snprintf mem (offset + strLen) (size - strLen) l).bind fun mem =>
              printItems offset size index retIdx items (idx + 1) mem
                (strLen + l.length)
          else
            printItems offset size index retIdx items (idx + 1) mem strLen
      | none => printItems offset size index retIdx items (idx + 1) mem strLen

/-- A call of `http_header_generate_string` that writes into the buffer. -/
structure Generated where
  retIdx : Nat
  bufferLen : Nat
  mem : List UInt8
  deriving DecidableEq, Repr

/-- `buffer` is at the offset, `*buffer_len` is `size`. -/
def httpHeaderGenerateString (header : List Item) (index : Nat)
    (mem : List UInt8) (offset size : Nat) : Option Generated :=
  let measured := measure size index header 0 0 (-1)
  if measured.2.1 = 0 then some ⟨0, size, mem⟩
  else
    let isEnd := measured.2.2 < 0
    let retIdx := if isEnd then measured.1 else measured.2.2.toNat
    (printItems offset size index retIdx header 0 mem 0).bind fun printed =>
      if isEnd then
        (snprintf printed.1 (offset + printed.2) (size - printed.2) crlf).map
          fun mem => ⟨retIdx, printed.2 + 2, mem⟩
      else some ⟨retIdx, printed.2, printed.1⟩

/-! ## `esp_http_client_request_send` -/

structure Client where
  bufferSize : Nat
  /-- The name of the method. -/
  method : List UInt8
  path : List UInt8
  query : Option (List UInt8)
  postLen : Int
  headers : List Item
  deriving DecidableEq, Repr

/-- How the body is announced; `mem` says whether there is memory for it. -/
def prepareHeaders (c : Client) (mem : Bool) : Client :=
  if 0 ≤ c.postLen then
    { c with headers := (httpHeaderSet c.headers (text "Content-Length")
        (some ((Nat.toDigits 10 c.postLen.toNat).map fun d =>
          UInt8.ofNat d.toNat)) mem).2 }
  else
    { c with
      headers := (httpHeaderSet c.headers (text "Transfer-Encoding")
        (some (text "chunked")) mem).2
      method := text "POST" }

/-- The parts of the request line, as they are printed. -/
def lineParts (c : Client) : List (List UInt8) :=
  [c.method ++ text " " ++ c.path] ++
    (c.query.map fun query => text "?" ++ query).toList ++
    [text " " ++ text "HTTP/1.1" ++ crlf]

/-- The parts are printed one behind the other: the buffer and the length, or
nothing if they do not fit. -/
def printParts (bufferSize : Nat) : List (List UInt8) → List UInt8 → Nat →
    Option (Option (List UInt8 × Nat))
  | [], mem, len => some (some (mem, len))
  | part :: parts, mem, len =>
      (snprintf mem len (bufferSize - len) part).bind fun mem =>
        if bufferSize ≤ len + part.length then some none
        else printParts bufferSize parts mem (len + part.length)

/-- What `esp_transport_write` returns, one number a call; 0 stands for an
error.  What the loop has written, and the answers that are left unless there
was an error. -/
def transportWrite : List UInt8 → List Nat → List UInt8 × Option (List Nat)
  | [], answers => ([], some answers)
  | _ :: _, [] => ([], none)
  | b :: data, answer :: answers =>
      if answer = 0 then ([], none)
      else
        let rest := transportWrite ((b :: data).drop answer) answers
        ((b :: data).take answer ++ rest.1, rest.2)

inductive Err where
  | ok
  | fail
  | writeData
  deriving DecidableEq, Repr

inductive Outcome where
  /-- A byte is written behind the buffer. -/
  | overrun
  /-- The rounds given to the loop were not enough. -/
  | spins
  | returned (sent : List UInt8) (err : Err)
  deriving DecidableEq, Repr

/-- The loop over `http_header_generate_string`. -/
def sendHeaders (c : Client) : Nat → Nat → List UInt8 → Nat → Nat →
    List Nat → List UInt8 → Outcome
  | 0, _, _, _, _, _, _ => .spins
  | fuel + 1, headerIndex, mem, firstLineLen, wlen, answers, sent =>
      match httpHeaderGenerateString c.headers headerIndex mem firstLineLen
          wlen with
      | none => .overrun
      | some g =>
          if g.retIdx = 0 ∨ g.bufferLen = 0 then .returned sent .ok
          else
            let wlen := g.bufferLen + firstLineLen
            if g.mem.length ≤ wlen then .overrun
            else
              let mem := g.mem.set wlen 0
              let written := transportWrite (mem.take wlen) answers
              match written.2 with
              | none => .returned (sent ++ written.1) .writeData
              | some answers =>
                  sendHeaders c fuel g.retIdx mem 0 c.bufferSize answers
                    (sent ++ written.1)

/-- `esp_http_client_request_send` of a request that was not begun. -/
def requestSend (fuel : Nat) (c : Client) (mem : Bool)
    (buffer : List UInt8) (answers : List Nat) : Outcome :=
  let c := prepareHeaders c mem
  match printParts c.bufferSize (lineParts c) buffer 0 with
  | none => .overrun
  | some none => .returned [] .fail
  | some (some (buffer, firstLineLen)) =>
      sendHeaders c fuel 0 buffer firstLineLen (c.bufferSize - firstLineLen)
        answers []

/-- The request line. -/
def firstLine (c : Client) : List UInt8 := (lineParts c).flatten

/-- The head as it should be sent. -/
def head (c : Client) : List UInt8 :=
  firstLine c ++ (c.headers.filterMap line).flatten ++ crlf

/-! ## Printing -/

variable {mem mem' s : List UInt8} {offset size strLen : Nat}

theorem snprintf_length {z : Int} (h : snprintf mem offset z s = some mem') :
    mem'.length = mem.length := by
  simp only [snprintf, Option.ite_none_right_eq_some, Option.some.injEq] at h
  obtain ⟨hle, rfl⟩ := h
  exact length_store hle

/-- What fits is printed whole. -/
theorem snprintf_fits (mem s : List UInt8) (offset strLen : Nat)
    (hs : strLen + s.length < size) (hlen : mem.length = offset + size) :
    ∃ mem', snprintf mem (offset + strLen) ((size : Int) - strLen) s =
        some mem' ∧
      mem'.length = mem.length ∧
      mem'.take (offset + (strLen + s.length)) =
        mem.take (offset + strLen) ++ s := by
  have hzero : ¬(size : Int) - strLen = 0 := by omega
  have hneg : ¬(size : Int) - strLen < 0 := by omega
  have hout : s.take (((size : Int) - strLen).toNat - 1) = s :=
    List.take_of_length_le (by omega)
  have hroom : offset + strLen + (s ++ [0]).length ≤ mem.length := by
    rw [List.length_append, List.length_singleton, hlen]
    omega
  have hprint : snprintf mem (offset + strLen) ((size : Int) - strLen) s =
      some (store mem (offset + strLen) (s ++ [0])) := by
    simp only [snprintf, if_neg hzero, if_neg hneg, hout, if_pos hroom]
  refine ⟨_, hprint, snprintf_length hprint, ?_⟩
  have hhead : (mem.take (offset + strLen) ++ s).length =
      offset + (strLen + s.length) := by
    rw [List.length_append, List.length_take]
    omega
  rw [store, List.append_assoc s, ← List.append_assoc, ← hhead,
    List.take_left]

/-- The lines of some items are as long as was measured. -/
def total (items : List Item) : Nat := (items.map lineLen).sum

theorem length_line (item : Item) :
    lineLen item = ((line item).getD []).length := by
  rw [lineLen, line]
  cases item.value with
  | none => rfl
  | some value =>
      have hcolon : (text ": ").length = 2 := by decide
      have hcrlf : crlf.length = 2 := rfl
      simp only [Option.map_some, Option.getD_some, List.length_append]
      omega

theorem length_lines (items : List Item) :
    (items.filterMap line).flatten.length = total items := by
  induction items with
  | nil => rfl
  | cons item items ih =>
      rw [total, List.map_cons, List.sum_cons, length_line, ← total, ← ih]
      cases hline : line item with
      | none => rw [List.filterMap_cons_none hline]; simp
      | some l => rw [List.filterMap_cons_some hline]; simp

variable {items : List Item} {index retIdx : Nat}

/-- What the second loop prints from the items at `idx` on. -/
def printed (index retIdx idx : Nat) (items : List Item) : List UInt8 :=
  (((items.take (retIdx - idx)).drop (index - idx)).filterMap line).flatten

theorem printed_cons (idx : Nat) (item : Item) (items : List Item) :
    printed index retIdx idx (item :: items) =
      (if index ≤ idx ∧ idx < retIdx then (line item).getD [] else []) ++
        printed index retIdx (idx + 1) items := by
  rw [printed, printed]
  by_cases hret : idx < retIdx
  · rw [show retIdx - idx = retIdx - (idx + 1) + 1 by omega,
      List.take_succ_cons]
    by_cases hindex : index ≤ idx
    · rw [if_pos ⟨hindex, hret⟩, Nat.sub_eq_zero_of_le hindex,
        Nat.sub_eq_zero_of_le (Nat.le_succ_of_le hindex), List.drop_zero,
        List.drop_zero]
      cases hline : line item with
      | none => rw [List.filterMap_cons_none hline]; rfl
      | some l => rw [List.filterMap_cons_some hline]; rfl
    · rw [if_neg fun h => hindex h.1,
        show index - idx = index - (idx + 1) + 1 by omega,
        List.drop_succ_cons]
      rfl
  · have hzero : retIdx - idx = 0 ∧ retIdx - (idx + 1) = 0 := by omega
    rw [if_neg fun h => hret h.2, hzero.1, hzero.2, List.take_zero,
      List.take_zero, List.drop_nil, List.drop_nil]
    rfl

theorem printItems_fits (items : List Item) (mem : List UInt8)
    (offset index retIdx strLen idx : Nat)
    (hfits : strLen + (printed index retIdx idx items).length < size)
    (hlen : mem.length = offset + size) :
    ∃ mem', printItems offset size index retIdx items idx mem strLen =
        some (mem', strLen + (printed index retIdx idx items).length) ∧
      mem'.length = mem.length ∧
      mem'.take (offset +
        (strLen + (printed index retIdx idx items).length)) =
          mem.take (offset + strLen) ++ printed index retIdx idx items := by
  induction items generalizing mem strLen idx with
  | nil => exact ⟨mem, by simp [printItems, printed], rfl, by simp [printed]⟩
  | cons item items ih =>
      rw [printed_cons] at hfits ⊢
      rw [printItems]
      cases hline : line item with
      | none =>
          simp only [hline, Option.getD_none, ite_self, List.nil_append]
            at hfits ⊢
          exact ih mem strLen (idx + 1) hfits hlen
      | some l =>
          simp only [hline, Option.getD_some] at hfits ⊢
          by_cases hin : index ≤ idx ∧ idx < retIdx
          · simp only [if_pos hin, List.length_append] at hfits ⊢
            obtain ⟨mem₁, hprint, hlen₁, htake₁⟩ := snprintf_fits
              mem l offset strLen (by omega) hlen
            obtain ⟨mem₂, hrest, hlen₂, htake₂⟩ := ih mem₁
              (strLen + l.length) (idx + 1) (by omega) (hlen₁.trans hlen)
            refine ⟨mem₂, ?_, hlen₂.trans hlen₁, ?_⟩
            · rw [hprint, Option.bind_some, hrest, Nat.add_assoc]
            · rw [← Nat.add_assoc strLen, htake₂, htake₁, List.append_assoc]
          · simp only [if_neg hin, List.nil_append] at hfits ⊢
            exact ih mem strLen (idx + 1) hfits hlen

theorem printItems_some {idx k : Nat}
    (h : printItems offset size index retIdx items idx mem strLen =
      some (mem', k)) :
    mem'.length = mem.length ∧
      k = strLen + (printed index retIdx idx items).length := by
  induction items generalizing idx mem strLen with
  | nil =>
      cases h
      exact ⟨rfl, by simp [printed]⟩
  | cons item items ih =>
      rw [printItems] at h
      rw [printed_cons]
      cases hline : line item with
      | none =>
          simp only [hline, Option.getD_none, ite_self, List.nil_append]
            at h ⊢
          exact ih h
      | some l =>
          simp only [hline, Option.getD_some] at h ⊢
          by_cases hin : index ≤ idx ∧ idx < retIdx
          · simp only [if_pos hin, List.length_append] at h ⊢
            obtain ⟨mem₁, hprint, hrest⟩ := Option.bind_eq_some_iff.1 h
            obtain ⟨hlen, hk⟩ := ih hrest
            exact ⟨hlen.trans (snprintf_length hprint), by omega⟩
          · simp only [if_neg hin, List.nil_append] at h ⊢
            exact ih h

/-! ## One call of `http_header_generate_string` -/

theorem measure_eq (z : Int) (index : Nat) (items : List Item)
    (idx siz : Nat) (ret : Int) :
    measure z index items idx siz ret =
      (idx + items.length, siz + total (items.drop (index - idx)),
        if items = [] ∨
          ((siz + total (items.drop (index - idx)) : Nat) : Int) + 1 ≤ z - 2
        then ret else ((idx + items.length - 1 : Nat) : Int)) := by
  induction items generalizing idx siz ret with
  | nil => simp [measure, total]
  | cons item items ih =>
      rw [measure, ih]
      have hsum : (if index ≤ idx then siz + lineLen item else siz) +
          total (items.drop (index - (idx + 1))) =
            siz + total ((item :: items).drop (index - idx)) := by
        by_cases hindex : index ≤ idx
        · rw [if_pos hindex, Nat.sub_eq_zero_of_le hindex,
            Nat.sub_eq_zero_of_le (Nat.le_succ_of_le hindex), List.drop_zero,
            List.drop_zero, total, total, List.map_cons, List.sum_cons,
            Nat.add_assoc]
        · rw [if_neg hindex, show index - idx = index - (idx + 1) + 1 by omega,
            List.drop_succ_cons]
      rw [hsum]
      have hle : (if index ≤ idx then siz + lineLen item else siz) ≤
          siz + total ((item :: items).drop (index - idx)) := by
        rw [← hsum]
        exact Nat.le_add_right _ _
      refine Prod.ext (by simp; omega) (Prod.ext rfl ?_)
      generalize (if index ≤ idx then siz + lineLen item else siz) = part
        at hle hsum
      generalize siz + total ((item :: items).drop (index - idx)) = all
        at hle hsum ⊢
      by_cases hall : (all : Int) + 1 ≤ z - 2
      · have hpart : ¬(part : Int) + 1 > z - 2 := by omega
        simp only [hall, or_true, if_true, if_neg hpart]
      · simp only [hall, or_false, List.cons_ne_nil, if_false]
        cases items with
        | nil =>
            have hpart : (part : Int) + 1 > z - 2 := by
              simp only [total, List.drop_nil, List.map_nil, List.sum_nil]
                at hsum
              omega
            rw [if_pos rfl, if_pos hpart]
            rfl
        | cons item' items =>
            simp only [List.cons_ne_nil, if_false, List.length_cons]
            omega

variable {header init : List Item} {last : Item} {g : Generated}

theorem printed_all (index : Nat) (header : List Item) :
    printed index header.length 0 header =
      ((header.drop index).filterMap line).flatten := by
  rw [printed, Nat.sub_zero, Nat.sub_zero, List.take_length]

theorem printed_init (index : Nat) (init : List Item) (last : Item) :
    printed index init.length 0 (init ++ [last]) =
      ((init.drop index).filterMap line).flatten := by
  rw [printed, Nat.sub_zero, Nat.sub_zero, List.take_left]

theorem measure_fits (hfits : total (header.drop index) + 3 ≤ size) :
    measure size index header 0 0 (-1) =
      (header.length, total (header.drop index), -1) := by
  rw [measure_eq]
  simp only [Nat.zero_add, Nat.sub_zero]
  have hle : (total (header.drop index) : Int) + 1 ≤ (size : Int) - 2 := by
    omega
  simp only [hle, or_true, if_true]

theorem measure_over (hover : size < total ((init ++ [last]).drop index) + 3) :
    measure size index (init ++ [last]) 0 0 (-1) =
      (init.length + 1, total ((init ++ [last]).drop index),
        (init.length : Int)) := by
  rw [measure_eq]
  simp only [Nat.zero_add, Nat.sub_zero]
  have hle : ¬(total ((init ++ [last]).drop index) : Int) + 1 ≤
      (size : Int) - 2 := by omega
  simp [hle]

/-- Nothing is left. -/
theorem generate_none (h : total (header.drop index) = 0) :
    httpHeaderGenerateString header index mem offset size =
      some ⟨0, size, mem⟩ := by
  rw [httpHeaderGenerateString, measure_eq, if_pos]
  simpa using h

/-- All that is left fits, and the head is ended. -/
theorem generate_fits (hpos : 0 < total (header.drop index))
    (hfits : total (header.drop index) + 3 ≤ size)
    (hlen : mem.length = offset + size) :
    ∃ mem', httpHeaderGenerateString header index mem offset size =
        some ⟨header.length, total (header.drop index) + 2, mem'⟩ ∧
      mem'.length = mem.length ∧
      mem'.take (offset + (total (header.drop index) + 2)) =
        mem.take offset ++
          (((header.drop index).filterMap line).flatten ++ crlf) := by
  have hprinted : (printed index header.length 0 header).length =
      total (header.drop index) := by
    rw [printed_all, length_lines]
  obtain ⟨mem₁, hprint, hlen₁, htake₁⟩ := printItems_fits header mem
    offset index header.length 0 0 (by omega) hlen
  rw [hprinted, Nat.zero_add] at hprint htake₁
  obtain ⟨mem₂, hend, hlen₂, htake₂⟩ := snprintf_fits mem₁ crlf
    offset (total (header.drop index)) (by simp [crlf]; omega)
    (hlen₁.trans hlen)
  refine ⟨mem₂, ?_, hlen₂.trans hlen₁, ?_⟩
  · have hend' : ((-1 : Int) < 0) = True := by simp
    rw [httpHeaderGenerateString, measure_fits hfits]
    simp only [if_neg (Nat.ne_of_gt hpos), hend', if_true, hprint,
      Option.bind_some, hend, Option.map_some]
  · rw [show total (header.drop index) + 2 =
      total (header.drop index) + crlf.length from rfl, htake₂, htake₁,
      printed_all, Nat.add_zero, List.append_assoc]

/-- Something does not fit: everything but the last item is printed. -/
theorem generate_over (hpos : 0 < total ((init ++ [last]).drop index))
    (hover : size < total ((init ++ [last]).drop index) + 3) :
    httpHeaderGenerateString (init ++ [last]) index mem offset size =
      (printItems offset size index init.length (init ++ [last]) 0 mem 0).map
        fun p => ⟨init.length, p.2, p.1⟩ := by
  have hend : ¬((init.length : Int) < 0) := by omega
  rw [httpHeaderGenerateString, measure_over hover]
  simp only [if_neg (Nat.ne_of_gt hpos), hend, if_false, Int.toNat_natCast]
  cases printItems offset size index init.length (init ++ [last]) 0 mem 0 <;>
    rfl

theorem generate_over_fits (hpos : 0 < total ((init ++ [last]).drop index))
    (hover : size < total ((init ++ [last]).drop index) + 3)
    (hfits : total (init.drop index) < size)
    (hlen : mem.length = offset + size) :
    ∃ mem', httpHeaderGenerateString (init ++ [last]) index mem offset size =
        some ⟨init.length, total (init.drop index), mem'⟩ ∧
      mem'.length = mem.length ∧
      mem'.take (offset + total (init.drop index)) = mem.take offset ++
        ((init.drop index).filterMap line).flatten := by
  have hprinted : (printed index init.length 0 (init ++ [last])).length =
      total (init.drop index) := by
    rw [printed_init, length_lines]
  obtain ⟨mem₁, hprint, hlen₁, htake₁⟩ := printItems_fits
    (init ++ [last]) mem offset index init.length 0 0 (by omega) hlen
  rw [hprinted, Nat.zero_add] at hprint htake₁
  refine ⟨mem₁, ?_, hlen₁, ?_⟩
  · rw [generate_over hpos hover, hprint]
    rfl
  · rw [htake₁, printed_init, Nat.add_zero]

theorem generate_over_some (hpos : 0 < total ((init ++ [last]).drop index))
    (hover : size < total ((init ++ [last]).drop index) + 3)
    (h : httpHeaderGenerateString (init ++ [last]) index mem offset size =
      some g) :
    g.retIdx = init.length ∧ g.bufferLen = total (init.drop index) ∧
      g.mem.length = mem.length := by
  rw [generate_over hpos hover] at h
  obtain ⟨⟨mem', k⟩, hprint, rfl⟩ := Option.map_eq_some_iff.1 h
  obtain ⟨hlen, hk⟩ := printItems_some hprint
  rw [printed_init, length_lines, Nat.zero_add] at hk
  exact ⟨rfl, hk, hlen⟩

/-! ## Sending -/

theorem transportWrite_prefix (data : List UInt8) (answers : List Nat) :
    (transportWrite data answers).1 <+: data := by
  induction answers generalizing data with
  | nil => cases data <;> exact List.nil_prefix
  | cons answer answers ih =>
      cases data with
      | nil => exact List.nil_prefix
      | cons b data =>
          rw [transportWrite]
          split
          · exact List.nil_prefix
          · have := ih ((b :: data).drop answer)
            conv_rhs => rw [← List.take_append_drop answer (b :: data)]
            exact (List.prefix_append_right_inj _).2 this

theorem transportWrite_some {data : List UInt8} {answers rest : List Nat}
    (h : (transportWrite data answers).2 = some rest) :
    (transportWrite data answers).1 = data := by
  induction answers generalizing data with
  | nil =>
      cases data with
      | nil => rfl
      | cons b data => cases h
  | cons answer answers ih =>
      cases data with
      | nil => rfl
      | cons b data =>
          rw [transportWrite] at h ⊢
          split at h
          · cases h
          · rename_i hne
            rw [if_neg hne]
            simp only [ih h, List.take_append_drop]

theorem transportWrite_all {data : List UInt8} {answer : Nat}
    (answers : List Nat) (hpos : data ≠ []) (hle : data.length ≤ answer) :
    transportWrite data (answer :: answers) = (data, some answers) := by
  cases data with
  | nil => exact absurd rfl hpos
  | cons b data =>
      have hne : answer ≠ 0 := by
        rintro rfl
        simp at hle
      rw [transportWrite, if_neg hne, List.drop_eq_nil_of_le hle,
        List.take_of_length_le hle]
      cases answers <;> simp [transportWrite]

/-- A size that is not too large keeps the print inside. -/
theorem snprintf_inside {len : Nat} (hlt : len < mem.length)
    (s : List UInt8) :
    ∃ mem', snprintf mem len ((mem.length : Int) - len) s = some mem' ∧
      mem'.length = mem.length := by
  have hzero : ¬(mem.length : Int) - len = 0 := by omega
  have hneg : ¬(mem.length : Int) - len < 0 := by omega
  have hroom : len + (s.take (((mem.length : Int) - len).toNat - 1) ++
      [0]).length ≤ mem.length := by
    rw [List.length_append, List.length_take, List.length_singleton]
    omega
  have hprint : snprintf mem len ((mem.length : Int) - len) s = some (store mem
      len (s.take (((mem.length : Int) - len).toNat - 1) ++ [0])) := by
    simp only [snprintf, if_neg hzero, if_neg hneg, if_pos hroom]
  exact ⟨_, hprint, snprintf_length hprint⟩

/-- The parts of the request line are printed if they fit. -/
theorem printParts_eq (mem : List UInt8) (parts : List (List UInt8))
    (len : Nat) (hlt : len < mem.length) :
    (len + parts.flatten.length < mem.length → ∃ mem',
      printParts mem.length parts mem len =
        some (some (mem', len + parts.flatten.length)) ∧
      mem'.length = mem.length ∧
      mem'.take (len + parts.flatten.length) =
        mem.take len ++ parts.flatten) ∧
    (mem.length ≤ len + parts.flatten.length →
      printParts mem.length parts mem len = some none) := by
  induction parts generalizing mem len with
  | nil =>
      refine ⟨fun _ => ⟨mem, rfl, rfl, by simp⟩, fun hle => ?_⟩
      simp only [List.flatten_nil, List.length_nil] at hle
      omega
  | cons part parts ih =>
      rw [List.flatten_cons, List.length_append, printParts]
      by_cases hpart : len + part.length < mem.length
      · obtain ⟨mem₁, hprint, hlen₁, htake₁⟩ := snprintf_fits mem part 0
          len hpart (Nat.zero_add _).symm
        rw [Nat.zero_add] at hprint htake₁
        rw [Nat.zero_add] at htake₁
        have hnext := ih mem₁ (len + part.length)
          (by rw [hlen₁]; exact hpart)
        rw [hprint, Option.bind_some, if_neg (by omega)]
        rw [hlen₁, Nat.add_assoc] at hnext
        refine ⟨fun hfits => ?_, hnext.2⟩
        obtain ⟨mem₂, hrest, hlen₂, htake₂⟩ := hnext.1 hfits
        refine ⟨mem₂, hrest, hlen₂, ?_⟩
        rw [htake₂, htake₁, List.append_assoc]
      · obtain ⟨mem₁, hprint, -⟩ := snprintf_inside hlt part
        rw [hprint, Option.bind_some, if_pos (by omega)]
        exact ⟨fun hfits => absurd hfits (by omega), fun _ => rfl⟩

variable {c : Client} {fuel firstLineLen : Nat} {answers : List Nat}
  {sent : List UInt8}

/-- What follows when a block was given to the transport. -/
def afterBlock (sent block : List UInt8) (answers : List Nat)
    (go : List Nat → List UInt8 → Outcome) : Outcome :=
  match (transportWrite block answers).2 with
  | none => .returned (sent ++ (transportWrite block answers).1) .writeData
  | some rest => go rest (sent ++ (transportWrite block answers).1)

theorem sendHeaders_block {wlen : Nat}
    (hgen : httpHeaderGenerateString c.headers index mem firstLineLen wlen =
      some g) (hret : g.retIdx ≠ 0) (hlen : g.bufferLen ≠ 0)
    (hroom : g.bufferLen + firstLineLen < g.mem.length) :
    sendHeaders c (fuel + 1) index mem firstLineLen wlen answers sent =
      afterBlock sent (g.mem.take (g.bufferLen + firstLineLen)) answers
        (sendHeaders c fuel g.retIdx
          (g.mem.set (g.bufferLen + firstLineLen) 0) 0 c.bufferSize) := by
  rw [sendHeaders, hgen]
  have hgo : ¬(g.retIdx = 0 ∨ g.bufferLen = 0) := by simp [hret, hlen]
  have htake : (g.mem.set (g.bufferLen + firstLineLen) 0).take
      (g.bufferLen + firstLineLen) =
        g.mem.take (g.bufferLen + firstLineLen) := by
    rw [List.take_set_of_le (Nat.le_refl _)]
  simp only [if_neg hgo, if_neg (Nat.not_le.2 hroom), htake]
  rfl

theorem sendHeaders_stop {wlen : Nat} (index : Nat)
    (h : total (c.headers.drop index) = 0) :
    sendHeaders c (fuel + 1) index mem firstLineLen wlen answers sent =
      .returned sent .ok := by
  rw [sendHeaders, generate_none h]
  simp

/-- All that is left goes into one block, and the head is ended. -/
theorem sendHeaders_fits (fuel index firstLineLen : Nat)
    (answers : List Nat) (sent : List UInt8)
    (hlen : mem.length = c.bufferSize)
    (hpos : 0 < total (c.headers.drop index))
    (hfits : firstLineLen + total (c.headers.drop index) + 3 ≤ c.bufferSize) :
    sendHeaders c (fuel + 2) index mem firstLineLen
        (c.bufferSize - firstLineLen) answers sent =
      afterBlock sent (mem.take firstLineLen ++
          (((c.headers.drop index).filterMap line).flatten ++ crlf)) answers
        fun _ sent => .returned sent .ok := by
  obtain ⟨mem', hgen, hlen', htake⟩ := generate_fits hpos
    (show _ ≤ c.bufferSize - firstLineLen by omega)
    (show mem.length = firstLineLen + _ by omega)
  have hne : c.headers.length ≠ 0 := by
    intro hzero
    rw [List.length_eq_zero_iff.1 hzero, List.drop_nil] at hpos
    exact absurd hpos (by simp [total])
  rw [sendHeaders_block hgen hne (by dsimp; omega) (by dsimp; omega)]
  dsimp only
  rw [Nat.add_comm _ firstLineLen, htake]
  simp only [afterBlock]
  cases (transportWrite _ answers).2 with
  | none => rfl
  | some rest => exact sendHeaders_stop _ (by simp [total])

/-- Something does not fit, and there is nothing else to print. -/
theorem sendHeaders_over_none (fuel index firstLineLen : Nat)
    (answers : List Nat) (sent : List UInt8)
    (hheaders : c.headers = init ++ [last])
    (hlen : mem.length = c.bufferSize) (hlt : firstLineLen < c.bufferSize)
    (hpos : 0 < total (c.headers.drop index))
    (hover : c.bufferSize - firstLineLen < total (c.headers.drop index) + 3)
    (hnone : total (init.drop index) = 0) :
    sendHeaders c (fuel + 1) index mem firstLineLen
        (c.bufferSize - firstLineLen) answers sent =
      .returned sent .ok := by
  rw [hheaders] at hpos hover
  obtain ⟨mem', hgen, -, -⟩ := generate_over_fits hpos hover (by omega)
    (show mem.length = firstLineLen + _ by omega)
  rw [sendHeaders, hheaders, hgen, hnone]
  simp

theorem total_init_le (index : Nat) (init : List Item) (last : Item) :
    total (init.drop index) ≤ total ((init ++ [last]).drop index) := by
  rw [List.drop_append, total, total, List.map_append, List.sum_append]
  exact Nat.le_add_right _ _

theorem init_ne_nil (h : 0 < total (init.drop index)) : init.length ≠ 0 := by
  intro hzero
  rw [List.length_eq_zero_iff.1 hzero, List.drop_nil] at h
  exact absurd h (by simp [total])

/-- Something does not fit, and the rest does. -/
theorem sendHeaders_over_fits (fuel index : Nat)
    (hheaders : c.headers = init ++ [last])
    (hlen : mem.length = c.bufferSize)
    (hpos : 0 < total (init.drop index))
    (hover : c.bufferSize - firstLineLen < total (c.headers.drop index) + 3)
    (hfits : firstLineLen + total (init.drop index) < c.bufferSize) :
    ∃ mem', mem'.length = c.bufferSize ∧ ∀ answers sent,
      sendHeaders c (fuel + 1) index mem firstLineLen
          (c.bufferSize - firstLineLen) answers sent =
        afterBlock sent (mem.take firstLineLen ++
            ((init.drop index).filterMap line).flatten) answers
          (sendHeaders c fuel init.length mem' 0 c.bufferSize) := by
  have hall := total_init_le index init last
  rw [hheaders] at hover
  obtain ⟨mem', hgen, hlen', htake⟩ := generate_over_fits (by omega) hover
    (by omega) (show mem.length = firstLineLen + _ by omega)
  rw [← hheaders] at hgen
  refine ⟨mem'.set (total (init.drop index) + firstLineLen) 0,
    by rw [List.length_set]; omega, fun answers sent => ?_⟩
  rw [sendHeaders_block hgen (init_ne_nil hpos) (Nat.ne_of_gt hpos)
    (by dsimp; omega)]
  dsimp only
  rw [Nat.add_comm _ firstLineLen, htake]

/-- Something does not fit, and neither does the rest. -/
theorem sendHeaders_over_overrun (index : Nat)
    (hheaders : c.headers = init ++ [last])
    (hlen : mem.length = c.bufferSize)
    (hpos : 0 < total (init.drop index))
    (hover : c.bufferSize - firstLineLen < total (c.headers.drop index) + 3)
    (hfits : c.bufferSize ≤ firstLineLen + total (init.drop index)) :
    sendHeaders c (fuel + 1) index mem firstLineLen
      (c.bufferSize - firstLineLen) answers sent = .overrun := by
  have hall := total_init_le index init last
  rw [hheaders] at hover
  rw [sendHeaders, hheaders]
  cases hgen : httpHeaderGenerateString (init ++ [last]) index mem
      firstLineLen (c.bufferSize - firstLineLen) with
  | none => rfl
  | some g =>
      obtain ⟨hret, hbuf, hlen'⟩ :=
        generate_over_some (by omega) hover hgen
      have hgo : ¬(g.retIdx = 0 ∨ g.bufferLen = 0) := by
        rw [hret, hbuf]
        exact not_or.2 ⟨init_ne_nil hpos, Nat.ne_of_gt hpos⟩
      have hout : g.mem.length ≤ g.bufferLen + firstLineLen := by omega
      simp only [if_neg hgo, if_pos hout]

/-! ## The whole head -/

/-- The length of the last line. -/
def lastLen (items : List Item) : Nat :=
  (items.getLast?.map lineLen).getD 0

/-- Everything fits into the buffer; or everything but the last line does, and
that one does by itself; or the request line does not fit. -/
def Fits (c : Client) : Prop :=
  c.bufferSize ≤ (firstLine c).length ∨
  0 < total c.headers ∧
    (firstLine c).length + total c.headers + 3 ≤ c.bufferSize ∨
  0 < lastLen c.headers ∧ lastLen c.headers < total c.headers ∧
    (firstLine c).length + (total c.headers - lastLen c.headers) <
      c.bufferSize ∧
    lastLen c.headers + 3 ≤ c.bufferSize

theorem total_append (init : List Item) (last : Item) :
    total (init ++ [last]) = total init + lineLen last := by
  simp [total]

theorem lastLen_append (init : List Item) (last : Item) :
    lastLen (init ++ [last]) = lineLen last := by
  simp [lastLen]

/-- Sending a block: all of it, or a part and an error. -/
theorem afterBlock_cases (sent block : List UInt8) (answers : List Nat)
    (go : List Nat → List UInt8 → Outcome) :
    (∃ part, part <+: block ∧ afterBlock sent block answers go =
      .returned (sent ++ part) .writeData) ∨
    ∃ rest, afterBlock sent block answers go = go rest (sent ++ block) := by
  rw [afterBlock]
  cases hwrite : (transportWrite block answers).2 with
  | none =>
      exact .inl ⟨_, transportWrite_prefix block answers, rfl⟩
  | some rest =>
      exact .inr ⟨rest, by rw [transportWrite_some hwrite]⟩

theorem afterBlock_all {block : List UInt8} {answer : Nat}
    (hne : block ≠ []) (hle : block.length ≤ answer) (sent : List UInt8)
    (answers : List Nat) (go : List Nat → List UInt8 → Outcome) :
    afterBlock sent block (answer :: answers) go =
      go answers (sent ++ block) := by
  rw [afterBlock, transportWrite_all answers hne hle]

/-- A part of the head was sent, and all of it if there was no error. -/
def SentWhole (c : Client) : Outcome → Prop
  | .returned sent err => sent <+: head c ∧ (err = .ok → sent = head c)
  | _ => False

theorem sentWhole_afterBlock {block : List UInt8}
    {go : List Nat → List UInt8 → Outcome} (hblock : sent ++ block <+: head c)
    (hgo : ∀ rest, SentWhole c (go rest (sent ++ block))) :
    SentWhole c (afterBlock sent block answers go) := by
  obtain ⟨part, hpart, h⟩ | ⟨rest, h⟩ :=
    afterBlock_cases sent block answers go
  · rw [h]
    have hsent := (List.prefix_append_right_inj sent).2 hpart
    exact ⟨hsent.trans hblock, fun hok => by cases hok⟩
  · rw [h]
    exact hgo rest

theorem head_append (hheaders : c.headers = init ++ [last]) :
    head c = (firstLine c ++ (init.filterMap line).flatten) ++
      (([last].filterMap line).flatten ++ crlf) := by
  rw [head, hheaders, List.filterMap_append, List.flatten_append]
  simp only [List.append_assoc]

theorem firstLine_ne_nil (c : Client) : firstLine c ≠ [] := by
  rw [firstLine, lineParts]
  simp [crlf]

/-- The request line and all lines but the last are in the first block; the
second call gets the rest. -/
theorem sendHeaders_last (fuel : Nat) (hheaders : c.headers = init ++ [last])
    (hlen : mem.length = c.bufferSize) (hroom : 0 < mem.length) :
    (∀ answers, SentWhole c (sendHeaders c (fuel + 2) init.length mem 0
      c.bufferSize answers
        (firstLine c ++ (init.filterMap line).flatten))) ↔
      0 < lineLen last ∧ lineLen last + 3 ≤ c.bufferSize := by
  have hdrop : c.headers.drop init.length = [last] := by
    rw [hheaders, List.drop_left]
  have htotal : total (c.headers.drop init.length) = lineLen last := by
    rw [hdrop]
    exact Nat.add_zero _
  have hshort : firstLine c ++ (init.filterMap line).flatten ≠ head c := by
    rw [head_append hheaders]
    simp [crlf]
  obtain hzero | hpos := Nat.eq_zero_or_pos (lineLen last)
  · refine ⟨fun h => ?_, fun h => absurd h.1 (by omega)⟩
    have h := h []
    rw [sendHeaders_stop _ (htotal.trans hzero)] at h
    exact absurd (h.2 rfl) hshort
  obtain hfits | hover := le_or_gt (lineLen last + 3) c.bufferSize
  · refine ⟨fun _ => ⟨hpos, hfits⟩, fun _ answers => ?_⟩
    have hsend := sendHeaders_fits fuel init.length 0 answers
      (firstLine c ++ (init.filterMap line).flatten) hlen
      (by rw [htotal]; exact hpos)
      (by rw [htotal]; omega)
    rw [Nat.sub_zero, List.take_zero, List.nil_append, hdrop] at hsend
    have hhead := head_append hheaders
    rw [hsend]
    exact sentWhole_afterBlock (hhead ▸ List.prefix_refl _) fun _ =>
      ⟨hhead ▸ List.prefix_refl _, fun _ => hhead.symm⟩
  · refine ⟨fun h => ?_, fun h => absurd h.2 (by omega)⟩
    have hnone : total (init.drop init.length) = 0 := by
      rw [List.drop_length]
      rfl
    have h := h []
    have hsend := sendHeaders_over_none (fuel + 1) init.length 0 []
      (firstLine c ++ (init.filterMap line).flatten) hheaders hlen
      (by rw [← hlen]; exact hroom)
      (by rw [htotal]; exact hpos) (by rw [htotal]; omega) hnone
    rw [Nat.sub_zero] at hsend
    rw [hsend] at h
    exact absurd (h.2 rfl) hshort

/-- The request line is in the buffer. -/
theorem sendHeaders_whole (hlen : mem.length = c.bufferSize)
    (hlt : (firstLine c).length < c.bufferSize)
    (htake : mem.take (firstLine c).length = firstLine c) :
    (∀ answers, SentWhole c (sendHeaders c (fuel + 3) 0 mem
      (firstLine c).length (c.bufferSize - (firstLine c).length) answers
        [])) ↔ Fits c := by
  have hempty : ([] : List UInt8) ≠ head c := by
    rw [head]
    simp [crlf]
  rw [Fits, or_iff_right (Nat.not_le.2 hlt)]
  obtain hzero | hpos := Nat.eq_zero_or_pos (total c.headers)
  · refine ⟨fun h => ?_, by omega⟩
    have h := h []
    rw [sendHeaders_stop 0 hzero] at h
    exact absurd (h.2 rfl) hempty
  obtain hfits | hover := le_or_gt
    ((firstLine c).length + total c.headers + 3) c.bufferSize
  · refine ⟨fun _ => .inl ⟨hpos, hfits⟩, fun _ answers => ?_⟩
    rw [sendHeaders_fits (fuel + 1) 0 _ _ _ hlen hpos hfits, htake]
    have hhead : firstLine c ++ ((c.headers.filterMap line).flatten ++ crlf) =
        head c := (List.append_assoc _ _ _).symm
    rw [List.drop_zero, hhead]
    exact sentWhole_afterBlock (List.prefix_refl _) fun _ =>
      ⟨List.prefix_refl _, fun _ => rfl⟩
  obtain ⟨init, last, hheaders⟩ : ∃ init last, c.headers = init ++ [last] := by
    obtain hnil | h := List.eq_nil_or_concat c.headers
    · rw [hnil] at hpos
      exact absurd hpos (by simp [total])
    · simpa only [List.concat_eq_append] using h
  have hlastLen : lastLen c.headers = lineLen last := by
    rw [hheaders, lastLen_append]
  have htotal : total c.headers = total init + lineLen last := by
    rw [hheaders, total_append]
  rw [hlastLen, htotal, or_iff_right (by omega)]
  have hover' : c.bufferSize - (firstLine c).length <
      total (c.headers.drop 0) + 3 := by
    rw [List.drop_zero]
    omega
  obtain hinit | hinit := Nat.eq_zero_or_pos (total init)
  · refine ⟨fun h => ?_, by omega⟩
    have h := h []
    rw [sendHeaders_over_none _ 0 _ _ _ hheaders hlen hlt hpos hover' hinit]
      at h
    exact absurd (h.2 rfl) hempty
  obtain hle | hroom := le_or_gt c.bufferSize
    ((firstLine c).length + total init)
  · refine ⟨fun h => ?_, by omega⟩
    have h := h []
    rw [sendHeaders_over_overrun 0 hheaders hlen hinit hover' hle] at h
    exact h.elim
  obtain ⟨mem', hlen', hsend⟩ := sendHeaders_over_fits (fuel + 2) 0
    hheaders hlen hinit hover' hroom
  have hlast := sendHeaders_last fuel hheaders hlen' (by omega)
  have hhead := head_append hheaders
  rw [htake, List.drop_zero] at hsend
  generalize hblock : firstLine c ++ (init.filterMap line).flatten = block
    at hsend hlast hhead
  have hne : block ≠ [] := by
    rw [← hblock]
    exact List.append_ne_nil_of_left_ne_nil (firstLine_ne_nil c) _
  have hiff : (∀ answers, SentWhole c (sendHeaders c (fuel + 3) 0 mem
      (firstLine c).length (c.bufferSize - (firstLine c).length) answers
        [])) ↔ 0 < lineLen last ∧ lineLen last + 3 ≤ c.bufferSize := by
    rw [← hlast]
    refine ⟨fun h answers => ?_, fun h answers => ?_⟩
    · have h := h (block.length :: answers)
      rw [hsend, afterBlock_all hne (Nat.le_refl _)] at h
      exact h
    · rw [hsend]
      exact sentWhole_afterBlock (hhead ▸ List.prefix_append _ _) h
  rw [hiff]
  omega

end EspAdf.Ports.HttpClientHead
