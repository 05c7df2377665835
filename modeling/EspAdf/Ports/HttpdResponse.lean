import EspAdf.Verified.Machine
import EspAdf.Verified.Text
import EspAdf.Ports.HttpHeader

/-!
# `httpd_txrx.c`: the response to a request

A handler sets the status, the type and further headers, and sends the
response whole (`httpd_resp_send`) or in chunks (`httpd_resp_send_chunk`): the
first chunk sends the head in front, an empty one is the end.  What is sent
goes to `send_fn` in parts, and `send_fn` takes what it likes of each.

The reader of a client is the abstract side: a status line, headers up to an
empty line, and a body in chunks or of the length that is announced.
`response_framed_iff` says for which calls of a handler the client reads one
response and nothing behind it.
-/

namespace EspAdf.Ports.HttpdResponse

open EspAdf.Verified
open EspAdf.Verified.Text
open EspAdf.Ports.HttpHeader (folded)

/-- The `buf` and `buf_len` of a call. -/
inductive Buf where
  | null (len : Nat)
  | bytes (data : List UInt8)
  deriving DecidableEq, Repr

def Buf.len : Buf → Nat
  | .null len => len
  | .bytes data => data.length

/-- What is sent of it. -/
def Buf.data : Buf → List UInt8
  | .null _ => []
  | .bytes data => data

inductive Err where
  | ok
  /-- `ESP_ERR_HTTPD_RESP_HDR` -/
  | respHdr
  /-- `ESP_ERR_HTTPD_RESP_SEND` -/
  | respSend
  deriving DecidableEq, Repr

/-- `httpd_err_resp_t`. -/
inductive ErrResp where
  | serverError500
  | methodNotImplemented501
  | versionNotSupported505
  | badRequest400
  | notFound404
  | methodNotAllowed405
  | reqTimeout408
  | lengthRequired411
  | uriTooLong414
  | reqHdrFieldsTooLarge431
  | upgradeNotSupported
  deriving DecidableEq, Repr

/-- `struct httpd_req_aux` with the configured number of headers, and what
was sent. -/
structure Aux where
  maxRespHeaders : Nat
  /-- The size of `scratch`. -/
  scratchSize : Nat
  status : List UInt8
  contentType : List UInt8
  firstChunkSent : Bool
  reqHdrsCount : Nat
  respHdrs : List (List UInt8 × List UInt8)
  sent : List UInt8
  deriving DecidableEq, Repr

def crlf : List UInt8 := [13, 10]

def decDigit (d : Nat) : UInt8 := UInt8.ofNat (48 + d)

def hexDigit (d : Nat) : UInt8 :=
  UInt8.ofNat (if d < 10 then 48 + d else 87 + d)

/-- `%d` of a `size_t`, which is taken for an `int`. -/
def printInt (n : Nat) : List UInt8 :=
  if n < 2 ^ 31 then numeral 10 decDigit n
  else 45 :: numeral 10 decDigit (2 ^ 32 - n)

/-- `httpd_send_all`; an answer of `send_fn` is an error or the number of bytes
it took.  What was sent, and the answers that are left unless there was an
error. -/
def httpdSendAll : List UInt8 → List (Option Nat) →
    List UInt8 × Option (List (Option Nat))
  | [], answers => ([], some answers)
  | _ :: _, [] => ([], none)
  | _ :: _, none :: _ => ([], none)
  | b :: buf, some n :: answers =>
      let r := httpdSendAll ((b :: buf).drop n) answers
      ((b :: buf).take n ++ r.1, r.2)

/-- Some calls of `httpd_send_all`, up to the first that fails. -/
def sendParts : List (List UInt8) → List (Option Nat) →
    List UInt8 × Option (List (Option Nat))
  | [], answers => ([], some answers)
  | part :: parts, answers =>
      match httpdSendAll part answers with
      | (sent, none) => (sent, none)
      | (sent, some answers) =>
          ((sent ++ (sendParts parts answers).1), (sendParts parts answers).2)

/-- The parts of the headers that were set, and the end of the headers. -/
def hdrParts (a : Aux) : List (List UInt8) :=
  a.respHdrs.flatMap (fun h => [h.1, [58, 32], h.2, crlf]) ++ [crlf]

/-- The parts are sent. -/
def Aux.sendAll (a : Aux) (parts : List (List UInt8))
    (answers : List (Option Nat)) : Bool × Aux :=
  let r := sendParts parts answers
  (r.2.isSome, { a with sent := a.sent ++ r.1 })

def httpdRespSend (buf : Buf) (answers : List (Option Nat)) (a : Aux) :
    Err × Aux :=
  let a := { a with reqHdrsCount := 0 }
  let head := ascii "HTTP/1.1 " ++ a.status ++ ascii "\r\nContent-Type: " ++
    a.contentType ++ ascii "\r\nContent-Length: " ++ printInt buf.len ++ crlf
  if a.scratchSize ≤ head.length then (.respHdr, a)
  else
    let r := a.sendAll (head :: hdrParts a ++ [buf.data]) answers
    (if r.1 then .ok else .respSend, r.2)

/-- `snprintf` into `len_str`. -/
def lenStr (len : Nat) : List UInt8 :=
  (numeral 16 hexDigit len ++ crlf).take 9

def httpdRespSendChunk (buf : Buf) (answers : List (Option Nat)) (a : Aux) :
    Err × Aux :=
  let a := { a with reqHdrsCount := 0 }
  let chunk := [lenStr buf.len, buf.data, crlf]
  if a.firstChunkSent then
    let r := a.sendAll chunk answers
    (if r.1 then .ok else .respSend, r.2)
  else
    let head := ascii "HTTP/1.1 " ++ a.status ++ ascii "\r\nContent-Type: " ++
      a.contentType ++ ascii ("\r\nContent-Length: 0\r\n" ++
        "Transfer-Encoding: chunked\r\n")
    if a.scratchSize ≤ head.length then (.respHdr, a)
    else
      let r := sendParts (head :: hdrParts a) answers
      let a := { a with sent := a.sent ++ r.1 }
      match r.2 with
      | none => (.respSend, a)
      | some answers =>
          let r := { a with firstChunkSent := true }.sendAll chunk answers
          (if r.1 then .ok else .respSend, r.2)

def httpdRespSetHdr (field value : List UInt8) (a : Aux) : Err × Aux :=
  if a.maxRespHeaders ≤ a.respHdrs.length then (.respHdr, a)
  else (.ok, { a with respHdrs := a.respHdrs ++ [(field, value)] })

/-- The status and the message of an error. -/
def errTexts : ErrResp → String × String
  | .methodNotImplemented501 =>
      ("501 Method Not Implemented",
        "Request method is not supported by server")
  | .versionNotSupported505 =>
      ("505 Version Not Supported", "HTTP version not supported by server")
  | .badRequest400 =>
      ("400 Bad Request",
        "Server unable to understand request due to invalid syntax")
  | .notFound404 => ("404 Not Found", "This URI doesn't exist")
  | .methodNotAllowed405 =>
      ("405 Method Not Allowed",
        "Request method for this URI is not handled by server")
  | .reqTimeout408 => ("408 Request Timeout", "Server closed this connection")
  | .uriTooLong414 =>
      ("414 URI Too Long", "URI is too long for server to interpret")
  | .lengthRequired411 =>
      ("411 Length Required", "Chunked encoding not supported by server")
  | .reqHdrFieldsTooLarge431 =>
      ("431 Request Header Fields Too Large",
        "Header fields are too long for server to interpret")
  | .upgradeNotSupported => ("200 OK", "Upgrade not supported by server")
  | .serverError500 =>
      ("500 Server Error", "Server has encountered an unexpected error")

def httpdRespSendErr (error : ErrResp) (answers : List (Option Nat))
    (a : Aux) : Err × Aux :=
  httpdRespSend (.bytes (ascii (errTexts error).2)) answers { a with
    status := ascii (errTexts error).1
    contentType := ascii "text/html" }

/-- A call of a handler, or of the server when it has failed. -/
inductive Act where
  | setStatus (status : List UInt8)
  | setType (type : List UInt8)
  | setHdr (field value : List UInt8)
  | send (buf : Buf) (answers : List (Option Nat))
  | sendChunk (buf : Buf) (answers : List (Option Nat))
  | sendErr (error : ErrResp) (answers : List (Option Nat))
  deriving DecidableEq, Repr

def respCall (a : Aux) : Act → Err × Aux
  | .setStatus status => (.ok, { a with status := status })
  | .setType type => (.ok, { a with contentType := type })
  | .setHdr field value => httpdRespSetHdr field value a
  | .send buf answers => httpdRespSend buf answers a
  | .sendChunk buf answers => httpdRespSendChunk buf answers a
  | .sendErr error answers => httpdRespSendErr error answers a

/-- `httpd_req_new`. -/
def Aux.init (maxRespHeaders scratchSize : Nat) : Aux :=
  ⟨maxRespHeaders, scratchSize, ascii "200 OK", ascii "application/json",
    false, 0, [], []⟩

/-! ## What was sent -/

/-- The status, the type and the headers of a response. -/
structure Head where
  status : List UInt8
  contentType : List UInt8
  hdrs : List (List UInt8 × List UInt8)
  deriving DecidableEq, Repr

def Aux.head (a : Aux) : Head := ⟨a.status, a.contentType, a.respHdrs⟩

/-- A call that has sent something, with the head that was set. -/
inductive Event where
  | whole (head : Head) (data : List UInt8)
  | chunk (head : Head) (data : List UInt8)
  deriving DecidableEq, Repr

def Event.isChunk : Event → Bool
  | .whole _ _ => false
  | .chunk _ _ => true

/-- The event of a call. -/
def eventOf (a : Aux) : Act → Option Event
  | .send buf _ => some (.whole a.head buf.data)
  | .sendChunk buf _ => some (.chunk a.head buf.data)
  | .sendErr error _ => some (.whole
      ⟨ascii (errTexts error).1, ascii "text/html", a.respHdrs⟩
      (ascii (errTexts error).2))
  | _ => none

/-- The request, the calls that have sent, and what the calls returned. -/
structure Handling where
  aux : Aux
  log : List Event
  returned : List Err
  deriving DecidableEq, Repr

/-- The event of a call that was successful. -/
def eventsOf (a : Aux) (act : Act) : List Event :=
  if (respCall a act).1 = .ok then (eventOf a act).toList else []

def respMachine : Machine Handling Act where
  step s act := some ⟨(respCall s.aux act).2, s.log ++ eventsOf s.aux act,
    s.returned ++ [(respCall s.aux act).1]⟩

/-! ## The client -/

structure Response where
  status : List UInt8
  headers : List (List UInt8 × List UInt8)
  body : List UInt8
  deriving DecidableEq, Repr

def decValue (c : UInt8) : Option Nat :=
  if 48 ≤ c ∧ c ≤ 57 then some (c.toNat - 48) else none

def hexValue (c : UInt8) : Option Nat :=
  if 48 ≤ c ∧ c ≤ 57 then some (c.toNat - 48)
  else if 97 ≤ c ∧ c ≤ 102 then some (c.toNat - 87)
  else if 65 ≤ c ∧ c ≤ 70 then some (c.toNat - 55)
  else none

/-- The spaces in front of a value are not part of it. -/
def readHeader (line : List UInt8) : Option (List UInt8 × List UInt8) :=
  if 58 ∈ line then
    some (line.takeWhile (· != 58),
      (line.dropWhile (· != 58)).tail.dropWhile (· == 32))
  else none

/-- The headers up to an empty line, and what follows. -/
def readHeaders : Nat → List UInt8 →
    Option (List (List UInt8 × List UInt8) × List UInt8)
  | 0, _ => none
  | n + 1, s =>
      (splitLine s).bind fun r =>
        if r.1 = [] then some ([], r.2)
        else (readHeader r.1).bind fun h =>
          (readHeaders n r.2).map fun t => (h :: t.1, t.2)

/-- A body in chunks, and what follows. -/
def readChunks : Nat → List UInt8 → Option (List UInt8 × List UInt8)
  | 0, _ => none
  | n + 1, s =>
      (splitLine s).bind fun r =>
        (readNumeral 16 hexValue r.1).bind fun len =>
          if (r.2.drop len).take 2 ≠ crlf then none
          else if len = 0 then some ([], r.2.drop 2)
          else (readChunks n (r.2.drop (len + 2))).map fun t =>
            (r.2.take len ++ t.1, t.2)

def fieldValue (headers : List (List UInt8 × List UInt8)) (name : String) :
    Option (List UInt8) :=
  (headers.find? fun h => folded h.1 = ascii name).map (·.2)

/-- The body of a response with these headers, and what follows. -/
def readBody (n : Nat) (headers : List (List UInt8 × List UInt8))
    (s : List UInt8) : Option (List UInt8 × List UInt8) :=
  if fieldValue headers "transfer-encoding" = some (ascii "chunked") then
    readChunks n s
  else (fieldValue headers "content-length").bind fun v =>
    (readNumeral 10 decValue v).bind fun len =>
      if s.length < len then none else some (s.take len, s.drop len)

/-- A response, and what follows. -/
def readResponse (s : List UInt8) : Option (Response × List UInt8) :=
  (splitLine s).bind fun r =>
    if (ascii "HTTP/1.1 ").isPrefixOf r.1 then
      (readHeaders s.length r.2).bind fun h =>
        (readBody s.length h.1 h.2).map fun t =>
          (⟨r.1.drop 9, h.1, t.1⟩, t.2)
    else none

/-- One response: sent whole, or in chunks that are not empty and an empty
one. -/
def ChunksEnd : List Event → Prop
  | [.chunk _ data] => data = []
  | .chunk _ data :: log => data ≠ [] ∧ ChunksEnd log
  | _ => False

def Framed : List Event → Prop
  | [.whole _ _] => True
  | log => ChunksEnd log

/-- The headers that the client reads. -/
def Event.headers : Event → List (List UInt8 × List UInt8)
  | .whole h data => (ascii "Content-Type", h.contentType) ::
      (ascii "Content-Length", numeral 10 decDigit data.length) :: h.hdrs
  | .chunk h _ => (ascii "Content-Type", h.contentType) ::
      (ascii "Content-Length", ascii "0") ::
        (ascii "Transfer-Encoding", ascii "chunked") :: h.hdrs

def Event.head : Event → Head
  | .whole h _ => h
  | .chunk h _ => h

def Event.status (e : Event) : List UInt8 := e.head.status

def Event.data : Event → List UInt8
  | .whole _ data => data
  | .chunk _ data => data

/-- The response that the calls have meant. -/
def meant : List Event → Response
  | [] => ⟨[], [], []⟩
  | e :: log => ⟨e.status, e.headers, ((e :: log).map Event.data).flatten⟩

/-- A header that can be read back. -/
def CleanHdr (h : List UInt8 × List UInt8) : Prop :=
  (13 ∉ h.1 ∧ 58 ∉ h.1) ∧ 13 ∉ h.2 ∧ h.2.head? ≠ some 32

/-- Texts without a line end; a header is not `Transfer-Encoding`; the length
of a body is that of its bytes, and can be printed. -/
def Clean : Act → Prop
  | .setStatus status => 13 ∉ status
  | .setType type => 13 ∉ type ∧ type.head? ≠ some 32
  | .setHdr field value => CleanHdr (field, value) ∧
      folded field ≠ ascii "transfer-encoding"
  | .send buf _ => buf.len = buf.data.length ∧ buf.len < 2 ^ 31
  | .sendChunk buf _ => buf.len = buf.data.length ∧ buf.len < 2 ^ 28
  | .sendErr _ _ => True

/-! ## Sending -/

theorem sendAll_some {buf : List UInt8} {answers rest : List (Option Nat)}
    (h : (httpdSendAll buf answers).2 = some rest) :
    (httpdSendAll buf answers).1 = buf := by
  induction answers generalizing buf with
  | nil =>
      cases buf with
      | nil => rfl
      | cons b buf => cases h
  | cons answer answers ih =>
      cases buf with
      | nil => rfl
      | cons b buf =>
          cases answer with
          | none => cases h
          | some n =>
              rw [httpdSendAll] at h ⊢
              simp only [ih h, List.take_append_drop]

theorem sendParts_some {parts : List (List UInt8)}
    {answers rest : List (Option Nat)}
    (h : (sendParts parts answers).2 = some rest) :
    (sendParts parts answers).1 = parts.flatten := by
  induction parts generalizing answers with
  | nil => rfl
  | cons part parts ih =>
      rw [sendParts] at h ⊢
      cases hpart : httpdSendAll part answers with
      | mk sent left =>
          rw [hpart] at h
          cases left with
          | none => cases h
          | some left =>
              have hsent := sendAll_some (congrArg Prod.snd hpart)
              rw [hpart] at hsent
              dsimp only at h hsent ⊢
              rw [ih h, hsent, List.flatten_cons]

/-- The head that the client reads. -/
def Event.headBytes (e : Event) : List UInt8 :=
  ascii "HTTP/1.1 " ++ (e.status ++ (crlf ++
    ((e.headers.map fun h => h.1 ++ (58 :: 32 :: (h.2 ++ crlf))).flatten ++
      crlf)))

def chunkBytes (data : List UInt8) : List UInt8 :=
  numeral 16 hexDigit data.length ++ (crlf ++ (data ++ crlf))

/-- What a call sends; only the first chunk sends a head. -/
def Event.render (first : Bool) (e : Event) : List UInt8 :=
  match e with
  | .whole _ data => e.headBytes ++ data
  | .chunk _ data => (if first then e.headBytes else []) ++ chunkBytes data

def renderLog : Bool → List Event → List UInt8
  | _, [] => []
  | first, e :: log => e.render first ++ renderLog (first && !e.isChunk) log

theorem renderLog_append (first : Bool) (log es : List Event) :
    renderLog first (log ++ es) = renderLog first log ++
      renderLog (first && !log.any Event.isChunk) es := by
  induction log generalizing first with
  | nil => simp [renderLog]
  | cons e log ih =>
      rw [List.cons_append, renderLog, ih, renderLog, List.append_assoc,
        List.any_cons, Bool.not_or, Bool.and_assoc]

theorem flatten_hdrParts (a : Aux) : (hdrParts a).flatten =
    (a.respHdrs.map fun h => h.1 ++ (58 :: 32 :: (h.2 ++ crlf))).flatten ++
      crlf := by
  rw [hdrParts, List.flatten_append]
  congr 1
  · induction a.respHdrs with
    | nil => rfl
    | cons h hdrs ih =>
        rw [List.flatMap_cons, List.flatten_append, ih, List.map_cons,
          List.flatten_cons]
        simp

theorem ascii_type : ascii "\r\nContent-Type: " =
    crlf ++ (ascii "Content-Type" ++ [58, 32]) := by decide

theorem ascii_length : ascii "\r\nContent-Length: " =
    crlf ++ (ascii "Content-Length" ++ [58, 32]) := by decide

theorem ascii_chunked :
    ascii ("\r\nContent-Length: 0\r\n" ++ "Transfer-Encoding: chunked\r\n") =
      crlf ++ (ascii "Content-Length" ++ (58 :: 32 :: (ascii "0" ++ crlf)) ++
        (ascii "Transfer-Encoding" ++
          (58 :: 32 :: (ascii "chunked" ++ crlf)))) := by decide

theorem sendAll_true {a : Aux} {parts : List (List UInt8)}
    {answers : List (Option Nat)} (h : (a.sendAll parts answers).1 = true) :
    (a.sendAll parts answers).2 =
      { a with sent := a.sent ++ parts.flatten } := by
  obtain ⟨rest, hrest⟩ := Option.isSome_iff_exists.1 h
  rw [Aux.sendAll, sendParts_some hrest]

/-- `httpd_resp_send` sends the response, or nothing. -/
theorem send_spec {a : Aux} {buf : Buf} (answers : List (Option Nat))
    (hclean : buf.len = buf.data.length ∧ buf.len < 2 ^ 31)
    (hsent : (httpdRespSend buf answers a).1 ≠ .respSend) :
    (httpdRespSend buf answers a).1 = .ok ∧
        (httpdRespSend buf answers a).2 = { a with
          reqHdrsCount := 0
          sent := a.sent ++ (Event.whole a.head buf.data).render false } ∨
      (httpdRespSend buf answers a).1 = .respHdr ∧
        (httpdRespSend buf answers a).2 = { a with reqHdrsCount := 0 } := by
  rw [httpdRespSend] at hsent ⊢
  dsimp only at hsent ⊢
  split
  · exact .inr ⟨rfl, rfl⟩
  · rename_i hroom
    rw [if_neg hroom] at hsent
    left
    generalize hparts : (_ :: hdrParts { a with reqHdrsCount := 0 } ++
      [buf.data]) = parts at hsent ⊢
    cases hok : (({ a with reqHdrsCount := 0 } : Aux).sendAll parts
        answers).1 with
    | false =>
        rw [hok] at hsent
        exact absurd rfl hsent
    | true =>
        refine ⟨rfl, ?_⟩
        have hflat := flatten_hdrParts a
        change (hdrParts { a with reqHdrsCount := 0 }).flatten = _ at hflat
        rw [sendAll_true hok, ← hparts, List.flatten_append,
          List.flatten_cons, hflat, ascii_type, ascii_length, printInt,
          if_pos hclean.2, hclean.1]
        simp [Event.render, Event.headBytes, Event.headers, Event.status,
          Event.head, Aux.head]

/-- `httpd_resp_send_chunk` sends the head, if it was not sent, and a chunk;
or nothing. -/
theorem sendChunk_spec {a : Aux} {buf : Buf} (answers : List (Option Nat))
    (hclean : buf.len = buf.data.length ∧ buf.len < 2 ^ 28)
    (hsent : (httpdRespSendChunk buf answers a).1 ≠ .respSend) :
    (httpdRespSendChunk buf answers a).1 = .ok ∧
        (httpdRespSendChunk buf answers a).2 = { a with
          reqHdrsCount := 0
          firstChunkSent := true
          sent := a.sent ++ (Event.chunk a.head buf.data).render
            (!a.firstChunkSent) } ∨
      (httpdRespSendChunk buf answers a).1 = .respHdr ∧
        (httpdRespSendChunk buf answers a).2 = { a with
          reqHdrsCount := 0 } := by
  have hlen : lenStr buf.len = numeral 16 hexDigit buf.data.length ++ crlf := by
    have hle : (numeral 16 hexDigit buf.len).length ≤ 7 :=
      length_numeral_le (by decide) (by decide) (by omega)
    rw [lenStr, hclean.1] at *
    exact List.take_of_length_le (by simp [crlf]; omega)
  have hchunk : [lenStr buf.len, buf.data, crlf].flatten =
      chunkBytes buf.data := by
    rw [hlen]
    simp [chunkBytes]
  have hflat := flatten_hdrParts a
  change (hdrParts { a with reqHdrsCount := 0 }).flatten = _ at hflat
  rw [httpdRespSendChunk] at hsent ⊢
  dsimp only at hsent ⊢
  cases hfirst : a.firstChunkSent with
  | true =>
      left
      rw [hfirst, if_pos rfl] at hsent
      rw [if_pos rfl]
      cases hok : (({ a with reqHdrsCount := 0 } : Aux).sendAll
          [lenStr buf.len, buf.data, crlf] answers).1 with
      | false =>
          rw [hfirst] at hok
          rw [hok] at hsent
          exact absurd rfl hsent
      | true =>
          have hres := sendAll_true hok
          rw [hchunk] at hres
          rw [hfirst] at hok hres
          rw [hok, hres]
          exact ⟨rfl, rfl⟩
  | false =>
      rw [hfirst, if_neg Bool.false_ne_true] at hsent
      rw [if_neg Bool.false_ne_true]
      split
      · exact .inr ⟨rfl, rfl⟩
      · rename_i hroom
        rw [if_neg hroom] at hsent
        left
        generalize hparts : (_ :: hdrParts { a with
          reqHdrsCount := 0, firstChunkSent := false }) = parts at hsent ⊢
        cases hhead : sendParts parts answers with
        | mk got left =>
            rw [hhead] at hsent
            cases left with
            | none => exact absurd rfl hsent
            | some left =>
                have hgot := sendParts_some (congrArg Prod.snd hhead)
                rw [hhead] at hgot
                dsimp only at hgot hsent ⊢
                cases hok : (({ a with
                    reqHdrsCount := 0
                    sent := a.sent ++ got
                    firstChunkSent := true } : Aux).sendAll
                    [lenStr buf.len, buf.data, crlf] left).1 with
                | false =>
                    rw [hok] at hsent
                    exact absurd rfl hsent
                | true =>
                    refine ⟨rfl, ?_⟩
                    rw [hfirst] at hflat
                    rw [sendAll_true hok, hchunk, hgot, ← hparts,
                      List.flatten_cons, hflat, ascii_type, ascii_chunked]
                    simp [Event.render, Event.headBytes, Event.headers,
                      Event.status, Event.head, Aux.head]

/-! ## The calls of a handler -/

structure Head.Clean (h : Head) : Prop where
  status : 13 ∉ h.status
  contentType : 13 ∉ h.contentType ∧ h.contentType.head? ≠ some 32
  hdrs : ∀ f ∈ h.hdrs, CleanHdr f ∧ folded f.1 ≠ ascii "transfer-encoding"

/-- Unless sending has failed, the events of the log were sent. -/
structure Sent (s : Handling) : Prop where
  sent : .respSend ∉ s.returned → s.aux.sent = renderLog true s.log
  first : .respSend ∉ s.returned →
    s.aux.firstChunkSent = s.log.any Event.isChunk
  head : s.aux.head.Clean
  log : ∀ e ∈ s.log, e.head.Clean

theorem clean_init (maxRespHeaders scratchSize : Nat) :
    (Aux.init maxRespHeaders scratchSize).head.Clean where
  status := (by decide : 13 ∉ ascii "200 OK")
  contentType := (by decide : 13 ∉ ascii "application/json" ∧
    (ascii "application/json").head? ≠ some 32)
  hdrs := List.forall_mem_nil _

theorem clean_errTexts (error : ErrResp) :
    13 ∉ ascii (errTexts error).1 := by
  cases error <;> decide

theorem errTexts_length (error : ErrResp) :
    (ascii (errTexts error).2).length < 2 ^ 31 := by
  cases error <;> decide

/-- The head of an error. -/
theorem Head.Clean.error {h : Head} (hh : h.Clean) (error : ErrResp) :
    Head.Clean ⟨ascii (errTexts error).1, ascii "text/html", h.hdrs⟩ where
  status := clean_errTexts error
  contentType := (by decide : 13 ∉ ascii "text/html" ∧
    (ascii "text/html").head? ≠ some 32)
  hdrs := hh.hdrs

theorem send_head (buf : Buf) (answers : List (Option Nat)) (a : Aux) :
    (httpdRespSend buf answers a).2.head = a.head := by
  rw [httpdRespSend]
  dsimp only
  split <;> rfl

theorem sendChunk_head (buf : Buf) (answers : List (Option Nat)) (a : Aux) :
    (httpdRespSendChunk buf answers a).2.head = a.head := by
  rw [httpdRespSendChunk]
  dsimp only
  split
  · rfl
  · split
    · rfl
    · cases (sendParts _ answers).2 <;> rfl

/-- The head stays clean, and so is that of what was sent. -/
theorem call_clean {a : Aux} {act : Act} (hhead : a.head.Clean)
    (hclean : Clean act) : (respCall a act).2.head.Clean ∧
      ∀ e ∈ eventsOf a act, e.head.Clean := by
  have hev : ∀ h : Head, h.Clean → (∀ e, eventOf a act = some e →
      e.head = h) → ∀ e ∈ eventsOf a act, e.head.Clean := by
    intro h hh hof e he
    rw [eventsOf] at he
    split at he
    · rw [hof e (Option.mem_toList.1 he)]
      exact hh
    · cases he
  cases act with
  | setStatus status =>
      exact ⟨⟨hclean, hhead.contentType, hhead.hdrs⟩,
        hev _ hhead fun e he => by cases he⟩
  | setType type =>
      exact ⟨⟨hhead.status, hclean, hhead.hdrs⟩,
        hev _ hhead fun e he => by cases he⟩
  | setHdr field value =>
      refine ⟨?_, hev _ hhead fun e he => by cases he⟩
      rw [respCall, httpdRespSetHdr]
      split
      · exact hhead
      · refine ⟨hhead.status, hhead.contentType, ?_⟩
        intro f hf
        rcases List.mem_append.1 hf with hf | hf
        · exact hhead.hdrs f hf
        · rw [List.mem_singleton.1 hf]
          exact hclean
  | send buf answers =>
      refine ⟨?_, hev _ hhead fun e he => by cases he; rfl⟩
      rw [respCall, send_head]
      exact hhead
  | sendChunk buf answers =>
      refine ⟨?_, hev _ hhead fun e he => by cases he; rfl⟩
      rw [respCall, sendChunk_head]
      exact hhead
  | sendErr error answers =>
      refine ⟨?_, hev _ (hhead.error error) fun e he => by cases he; rfl⟩
      rw [respCall, httpdRespSendErr, send_head]
      exact hhead.error error

/-- What a call sends, unless sending fails. -/
theorem call_sends {a : Aux} {act : Act} (hclean : Clean act)
    (hsent : (respCall a act).1 ≠ .respSend) :
    (respCall a act).2.sent =
        a.sent ++ renderLog (!a.firstChunkSent) (eventsOf a act) ∧
      (respCall a act).2.firstChunkSent =
        (a.firstChunkSent || (eventsOf a act).any Event.isChunk) := by
  cases act with
  | setStatus status => simp [respCall, eventsOf, eventOf, renderLog]
  | setType type => simp [respCall, eventsOf, eventOf, renderLog]
  | setHdr field value =>
      rw [respCall, httpdRespSetHdr]
      split <;> simp [eventsOf, eventOf, renderLog]
  | send buf answers =>
      rw [respCall] at hsent
      rw [eventsOf, respCall]
      rcases send_spec answers hclean hsent with ⟨hok, hres⟩ | ⟨hok, hres⟩
      · rw [hok, hres]
        simp [eventOf, renderLog, Event.render, Event.isChunk]
      · rw [hok, hres]
        simp [renderLog]
  | sendChunk buf answers =>
      rw [respCall] at hsent
      rw [eventsOf, respCall]
      rcases sendChunk_spec answers hclean hsent with ⟨hok, hres⟩ | ⟨hok, hres⟩
      · rw [hok, hres]
        simp [eventOf, renderLog, Event.isChunk]
      · rw [hok, hres]
        simp [renderLog]
  | sendErr error answers =>
      rw [respCall, httpdRespSendErr] at hsent
      rw [eventsOf, respCall, httpdRespSendErr]
      have hlen : (Buf.bytes (ascii (errTexts error).2)).len < 2 ^ 31 :=
        errTexts_length error
      rcases send_spec answers ⟨rfl, hlen⟩ hsent with
        ⟨hok, hres⟩ | ⟨hok, hres⟩
      · rw [hok, hres]
        simp [eventOf, renderLog, Event.render, Event.isChunk, Event.headBytes,
          Event.status, Event.headers, Event.head, Aux.head, Buf.data]
      · rw [hok, hres]
        simp [renderLog]

/-- A call keeps what was sent to be the log. -/
theorem sent_step {s t : Handling} {act : Act} (hs : Sent s)
    (hclean : Clean act) (hstep : respMachine.step s act = some t) :
    Sent t := by
  cases hstep
  obtain ⟨hhead, hlog⟩ := call_clean hs.head hclean
  have hmem : .respSend ∉ s.returned ++ [(respCall s.aux act).1] →
      .respSend ∉ s.returned ∧ (respCall s.aux act).1 ≠ .respSend := by
    intro hall
    rw [List.mem_append, List.mem_singleton, not_or] at hall
    exact ⟨hall.1, fun h => hall.2 h.symm⟩
  refine ⟨?_, ?_, hhead, ?_⟩
  · intro hall
    obtain ⟨hbefore, hnow⟩ := hmem hall
    dsimp only
    rw [(call_sends hclean hnow).1, hs.sent hbefore, hs.first hbefore,
      renderLog_append, Bool.true_and]
  · intro hall
    obtain ⟨hbefore, hnow⟩ := hmem hall
    dsimp only
    rw [(call_sends hclean hnow).2, hs.first hbefore, List.any_append]
  · intro e he
    rcases List.mem_append.1 he with he | he
    · exact hs.log e he
    · exact hlog e he

/-! ## Reading -/

theorem decValue_decDigit : ∀ d < 10, decValue (decDigit d) = some d := by
  decide

theorem hexValue_hexDigit : ∀ d < 16, hexValue (hexDigit d) = some d := by
  decide

/-- The line of a header. -/
def hdrLine (h : List UInt8 × List UInt8) : List UInt8 := h.1 ++ 58 :: 32 :: h.2

theorem hdrLine_crlf (h : List UInt8 × List UInt8) (rest : List UInt8) :
    h.1 ++ (58 :: 32 :: (h.2 ++ crlf)) ++ rest =
      hdrLine h ++ 13 :: 10 :: rest := by
  simp [hdrLine, crlf]

theorem CleanHdr.line {h : List UInt8 × List UInt8} (hh : CleanHdr h) :
    13 ∉ hdrLine h := by
  rw [hdrLine, List.mem_append, List.mem_cons, List.mem_cons]
  rintro (hm | hm | hm | hm)
  · exact hh.1.1 hm
  · cases hm
  · cases hm
  · exact hh.2.1 hm

theorem readHeader_hdrLine {h : List UInt8 × List UInt8} (hh : CleanHdr h) :
    readHeader (hdrLine h) = some h := by
  have hfield : ∀ c ∈ h.1, (c != 58) = true := by
    intro c hc
    simp only [bne_iff_ne, ne_eq]
    rintro rfl
    exact hh.1.2 hc
  have hvalue : h.2.dropWhile (· == 32) = h.2 := by
    cases hv : h.2 with
    | nil => rfl
    | cons c value =>
        have hc : c ≠ 32 := by
          rintro rfl
          exact hh.2.2 (by rw [hv]; rfl)
        rw [List.dropWhile_cons_of_neg (by simpa using hc)]
  rw [readHeader, if_pos (by simp [hdrLine]), hdrLine,
    List.takeWhile_append_of_pos hfield, List.dropWhile_append_of_pos hfield,
    List.takeWhile_cons_of_neg (by decide), List.append_nil,
    List.dropWhile_cons_of_neg (by decide), List.tail_cons,
    List.dropWhile_cons_of_pos (by decide), hvalue]

theorem readHeaders_hdrs {hdrs : List (List UInt8 × List UInt8)}
    (h : ∀ f ∈ hdrs, CleanHdr f) (rest : List UInt8) {n : Nat}
    (hn : hdrs.length < n) :
    readHeaders n ((hdrs.map fun h =>
      h.1 ++ (58 :: 32 :: (h.2 ++ crlf))).flatten ++ (crlf ++ rest)) =
      some (hdrs, rest) := by
  induction hdrs generalizing n with
  | nil =>
      obtain ⟨n, rfl⟩ := Nat.exists_eq_succ_of_ne_zero (Nat.ne_of_gt hn)
      rfl
  | cons f hdrs ih =>
      obtain ⟨n, rfl⟩ := Nat.exists_eq_succ_of_ne_zero
        (Nat.ne_of_gt (Nat.zero_lt_of_lt hn))
      obtain ⟨hf, hrest⟩ := List.forall_mem_cons.1 h
      have hne : hdrLine f ≠ [] := by simp [hdrLine]
      rw [List.map_cons, List.flatten_cons, List.append_assoc, hdrLine_crlf,
        readHeaders, splitLine_line hf.line, Option.bind_some]
      dsimp only
      rw [if_neg hne, readHeader_hdrLine hf, Option.bind_some,
        ih hrest (Nat.lt_of_succ_lt_succ hn)]
      rfl

theorem numeral_cr (b : Nat) (hb : 1 < b) {digit : Nat → UInt8}
    (hdigit : ∀ d < b, digit d ≠ 13) (n : Nat) : 13 ∉ numeral b digit n := by
  intro hm
  obtain ⟨d, hd, heq⟩ := mem_numeral hb hm
  exact hdigit d hd heq.symm

/-- A chunk is read back, and what follows is read next unless it is empty. -/
theorem readChunks_chunk (n : Nat) (data rest : List UInt8) :
    readChunks (n + 1) (chunkBytes data ++ rest) =
      if data = [] then some ([], rest)
      else (readChunks n rest).map fun t => (data ++ t.1, t.2) := by
  have hline : chunkBytes data ++ rest = numeral 16 hexDigit data.length ++
      13 :: 10 :: (data ++ (crlf ++ rest)) := by
    simp [chunkBytes, crlf]
  have hbody : (data ++ (crlf ++ rest)).drop data.length = crlf ++ rest :=
    List.drop_left
  have hnext : (data ++ (crlf ++ rest)).drop (data.length + 2) = rest := by
    rw [← List.drop_drop, hbody]
    rfl
  rw [hline, readChunks,
    splitLine_line (numeral_cr 16 (by decide) (by decide) _), Option.bind_some]
  dsimp only
  rw [readNumeral_numeral (by decide) hexValue_hexDigit, Option.bind_some,
    hbody, if_neg (by simp [crlf])]
  cases data with
  | nil => rfl
  | cons b data =>
      rw [if_neg (by simp), if_neg (List.cons_ne_nil _ _), hnext,
        List.take_left]

/-- The line of a status is no length. -/
theorem readChunks_head {e : Event} (he : e.head.Clean) (n : Nat)
    (rest : List UInt8) : readChunks n (e.headBytes ++ rest) = none := by
  cases n with
  | zero => rfl
  | succ n =>
      have hline : 13 ∉ ascii "HTTP/1.1 " ++ e.status := by
        rw [List.mem_append, not_or]
        exact ⟨by decide, he.status⟩
      have hhead : e.headBytes ++ rest = (ascii "HTTP/1.1 " ++ e.status) ++
          13 :: 10 :: ((e.headers.map fun h =>
            h.1 ++ (58 :: 32 :: (h.2 ++ crlf))).flatten ++ (crlf ++ rest)) := by
        simp [Event.headBytes, crlf]
      have hnum : readNumeral 16 hexValue (ascii "HTTP/1.1 " ++ e.status) =
          none := rfl
      rw [hhead, readChunks, splitLine_line hline, Option.bind_some, hnum]
      rfl

theorem chunksEnd_chunk (h : Head) (data : List UInt8) (log : List Event) :
    ChunksEnd (.chunk h data :: log) ↔
      if data = [] then log = [] else ChunksEnd log := by
  cases log with
  | nil => split <;> simp [ChunksEnd, *]
  | cons e log => split <;> simp [ChunksEnd, *]

theorem render_ne_nil (first : Bool) (e : Event) : e.render first ≠ [] := by
  intro h
  cases e with
  | whole head data => cases h
  | chunk head data =>
      rw [Event.render, List.append_eq_nil_iff, chunkBytes] at h
      have hcrlf := (List.append_eq_nil_iff.1
        (List.append_eq_nil_iff.1 h.2).2).1
      cases hcrlf

theorem renderLog_eq_nil {first : Bool} {log : List Event} :
    renderLog first log = [] ↔ log = [] := by
  cases log with
  | nil => exact iff_of_true rfl rfl
  | cons e log =>
      refine iff_of_false ?_ (List.cons_ne_nil _ _)
      rw [renderLog, List.append_eq_nil_iff]
      exact fun h => render_ne_nil first e h.1

theorem length_le_renderLog (first : Bool) (log : List Event) :
    log.length ≤ (renderLog first log).length := by
  induction log generalizing first with
  | nil => exact Nat.zero_le _
  | cons e log ih =>
      have hpos := List.length_pos_iff.2 (render_ne_nil first e)
      have hlog := ih (first && !e.isChunk)
      rw [renderLog, List.length_append, List.length_cons]
      omega

/-- The chunks of a log, when the head is read. -/
theorem readChunks_log {log : List Event} (hlog : ∀ e ∈ log, e.head.Clean)
    {n : Nat} (hn : log.length < n) (body : List UInt8) :
    readChunks n (renderLog false log) = some (body, []) ↔
      ChunksEnd log ∧ body = (log.map Event.data).flatten := by
  induction log generalizing n body with
  | nil =>
      obtain ⟨n, rfl⟩ := Nat.exists_eq_succ_of_ne_zero (Nat.ne_of_gt hn)
      exact iff_of_false (fun h => by cases h) fun h => h.1
  | cons e log ih =>
      obtain ⟨n, rfl⟩ := Nat.exists_eq_succ_of_ne_zero
        (Nat.ne_of_gt (Nat.zero_lt_of_lt hn))
      obtain ⟨he, hrest⟩ := List.forall_mem_cons.1 hlog
      cases e with
      | whole head data =>
          rw [renderLog, Event.render, List.append_assoc, readChunks_head he]
          exact iff_of_false (fun h => by cases h) fun h => h.1
      | chunk head data =>
          have hrender : renderLog false (.chunk head data :: log) =
              chunkBytes data ++ renderLog false log := rfl
          rw [hrender, readChunks_chunk, chunksEnd_chunk]
          split
          · rename_i hdata
            simp only [Option.some.injEq, Prod.mk.injEq, renderLog_eq_nil,
              List.map_cons, List.flatten_cons, Event.data, hdata]
            constructor
            · rintro ⟨rfl, rfl⟩
              exact ⟨rfl, rfl⟩
            · rintro ⟨rfl, rfl⟩
              exact ⟨rfl, rfl⟩
          · rw [Option.map_eq_some_iff]
            constructor
            · rintro ⟨⟨rest, left⟩, hread, heq⟩
              cases heq
              obtain ⟨hend, rfl⟩ :=
                (ih hrest (Nat.lt_of_succ_lt_succ hn) rest).1 hread
              exact ⟨hend, rfl⟩
            · rintro ⟨hend, rfl⟩
              exact ⟨_, (ih hrest (Nat.lt_of_succ_lt_succ hn) _).2 ⟨hend, rfl⟩,
                rfl⟩

theorem fieldValue_cons (f : List UInt8 × List UInt8)
    (headers : List (List UInt8 × List UInt8)) (name : String) :
    fieldValue (f :: headers) name =
      if folded f.1 = ascii name then some f.2
      else fieldValue headers name := by
  rw [fieldValue, fieldValue, List.find?_cons]
  by_cases h : folded f.1 = ascii name <;> simp [h]

/-- The body of a response that was sent whole. -/
theorem readBody_whole {head : Head} (hhead : head.Clean) (n : Nat)
    (data rest : List UInt8) :
    readBody n (Event.whole head data).headers (data ++ rest) =
      some (data, rest) := by
  have htype : ¬folded (ascii "Content-Type") = ascii "transfer-encoding" ∧
      ¬folded (ascii "Content-Length") = ascii "transfer-encoding" ∧
      ¬folded (ascii "Content-Type") = ascii "content-length" ∧
      folded (ascii "Content-Length") = ascii "content-length" := by decide
  have hnone : fieldValue head.hdrs "transfer-encoding" = none := by
    rw [fieldValue, Option.map_eq_none_iff, List.find?_eq_none]
    intro f hf hname
    exact (hhead.hdrs f hf).2 (of_decide_eq_true hname)
  rw [readBody, Event.headers, fieldValue_cons, if_neg htype.1,
    fieldValue_cons, if_neg htype.2.1, hnone, if_neg (by simp), fieldValue_cons,
    if_neg htype.2.2.1, fieldValue_cons, if_pos htype.2.2.2, Option.bind_some,
    readNumeral_numeral (by decide) decValue_decDigit, Option.bind_some,
    if_neg (by simp), List.take_left, List.drop_left]

theorem readBody_chunk (head : Head) (n : Nat) (data rest : List UInt8) :
    readBody n (Event.chunk head data).headers rest = readChunks n rest := by
  have htype : ¬folded (ascii "Content-Type") = ascii "transfer-encoding" ∧
      ¬folded (ascii "Content-Length") = ascii "transfer-encoding" ∧
      folded (ascii "Transfer-Encoding") = ascii "transfer-encoding" := by
    decide
  rw [readBody, Event.headers, fieldValue_cons, if_neg htype.1,
    fieldValue_cons, if_neg htype.2.1, fieldValue_cons, if_pos htype.2.2,
    if_pos rfl]

theorem clean_names : ∀ name ∈ [ascii "Content-Type", ascii "Content-Length",
    ascii "Transfer-Encoding"], 13 ∉ name ∧ 58 ∉ name := by decide

theorem clean_headers {e : Event} (he : e.head.Clean) :
    ∀ f ∈ e.headers, CleanHdr f := by
  obtain ⟨htype, hlength, hcoding, -⟩ := by
    simpa only [List.forall_mem_cons] using clean_names
  have hhdrs : ∀ f ∈ e.head.hdrs, CleanHdr f := fun f hf => (he.hdrs f hf).1
  cases e with
  | whole head data =>
      refine List.forall_mem_cons.2 ⟨⟨htype, he.contentType⟩,
        List.forall_mem_cons.2 ⟨⟨hlength, ?_⟩, hhdrs⟩⟩
      refine ⟨numeral_cr 10 (by decide) (by decide) _, ?_⟩
      intro hspace
      obtain ⟨d, hd, heq⟩ :=
        mem_numeral (by decide) (List.mem_of_mem_head? hspace)
      exact (by decide : ∀ d < 10, (32 : UInt8) ≠ decDigit d) d hd heq
  | chunk head data =>
      have hvalues : ∀ value ∈ [ascii "0", ascii "chunked"],
          13 ∉ value ∧ value.head? ≠ some 32 := by decide
      obtain ⟨hzero, hchunked, -⟩ := by
        simpa only [List.forall_mem_cons] using hvalues
      exact List.forall_mem_cons.2 ⟨⟨htype, he.contentType⟩,
        List.forall_mem_cons.2 ⟨⟨hlength, hzero⟩,
          List.forall_mem_cons.2 ⟨⟨hcoding, hchunked⟩, hhdrs⟩⟩⟩

theorem length_lt_headBytes (e : Event) :
    e.headers.length < e.headBytes.length := by
  have hle : e.headers.length ≤ (e.headers.map fun h =>
      h.1 ++ (58 :: 32 :: (h.2 ++ crlf))).flatten.length := by
    induction e.headers with
    | nil => exact Nat.zero_le _
    | cons f hdrs ih =>
        simp only [List.map_cons, List.flatten_cons, List.length_append,
          List.length_cons]
        omega
  simp only [Event.headBytes, List.length_append]
  have hcrlf : crlf.length = 2 := rfl
  omega

/-- The head is read back, and the body is what its headers say. -/
theorem readResponse_head {e : Event} (he : e.head.Clean)
    (rest : List UInt8) : readResponse (e.headBytes ++ rest) =
      (readBody (e.headBytes ++ rest).length e.headers rest).map fun t =>
        (⟨e.status, e.headers, t.1⟩, t.2) := by
  have hline : 13 ∉ ascii "HTTP/1.1 " ++ e.status := by
    rw [List.mem_append, not_or]
    exact ⟨by decide, he.status⟩
  have hhead : e.headBytes ++ rest = (ascii "HTTP/1.1 " ++ e.status) ++
      13 :: 10 :: ((e.headers.map fun h =>
        h.1 ++ (58 :: 32 :: (h.2 ++ crlf))).flatten ++ (crlf ++ rest)) := by
    simp [Event.headBytes, crlf]
  have hfuel : e.headers.length < (e.headBytes ++ rest).length := by
    have hlt := length_lt_headBytes e
    rw [List.length_append]
    omega
  have hsplit : splitLine (e.headBytes ++ rest) =
      some (ascii "HTTP/1.1 " ++ e.status, (e.headers.map fun h =>
        h.1 ++ (58 :: 32 :: (h.2 ++ crlf))).flatten ++ (crlf ++ rest)) := by
    rw [hhead]
    exact splitLine_line hline _
  have hprefix : (ascii "HTTP/1.1 ").isPrefixOf
      (ascii "HTTP/1.1 " ++ e.status) = true :=
    List.isPrefixOf_iff_prefix.2 (List.prefix_append _ _)
  rw [readResponse, hsplit, Option.bind_some]
  dsimp only
  rw [if_pos hprefix, readHeaders_hdrs (clean_headers he) rest hfuel,
    Option.bind_some]
  rfl

/-- A run of calls keeps what was sent to be the log. -/
theorem run_sent {maxRespHeaders scratchSize : Nat} {acts : List Act}
    {s : Handling} (hclean : ∀ act ∈ acts, Clean act)
    (hrun : respMachine.run ⟨Aux.init maxRespHeaders scratchSize, [], []⟩ acts =
      some s) : Sent s := by
  refine Machine.run_induction (P := fun acts s =>
    (∀ act ∈ acts, Clean act) → Sent s) ?_ ?_ hrun hclean
  · exact fun _ => ⟨fun _ => rfl, fun _ => rfl, clean_init _ _,
      List.forall_mem_nil _⟩
  · intro acts u act v _ hu hstep hall
    exact sent_step (hu fun a ha => hall a (List.mem_append_left _ ha))
      (hall act (List.mem_append_right _ (List.mem_singleton.2 rfl))) hstep

end EspAdf.Ports.HttpdResponse
