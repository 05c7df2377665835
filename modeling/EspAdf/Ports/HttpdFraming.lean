import EspAdf.Verified.Machine
import EspAdf.Verified.Framing

/-!
# `httpd_txrx.c`, `httpd_parse.c`: the requests of one session

`httpd_parse_req` reads blocks into `scratch` until the parser has found the
end of the head, and puts back what it has read behind it (`httpd_unrecv`);
the handler reads what it likes of the body (`httpd_req_recv`), and
`httpd_req_delete` reads the rest away, so that the next request starts
behind it.

The parser is a parameter: an automaton that is fed byte by byte and says
where the head ends, or that it is malformed.  It decides at the first byte
of the body, if there is one.  What the client sends, how `recv` cuts it into
pieces, when `recv` fails and what the handler reads are inputs.

`requests_cut_stream` says that the requests that were served are those of
the stream, whatever the pieces, as long as no request was answered as
malformed, none has a length that does not fit, and no handler went on after
a read that failed.  `purge_ends_iff` says when `httpd_req_delete` returns.
-/

namespace EspAdf.Ports.HttpdFraming

open EspAdf.Verified
open EspAdf.Verified.Framing

/-! ## The format of a request -/

/-- What the parser knows behind the head: `content_length`, or that the head
is malformed. -/
inductive HeadEnd where
  | request (contentLength : Nat)
  | malformed
  deriving DecidableEq, Repr

/-- `content_length` of a request that has none. -/
def ULLONG_MAX : Nat := 2 ^ 64 - 1

/-- The length of the body that follows. -/
def bodyLength (contentLength : Nat) : Nat :=
  if contentLength = ULLONG_MAX then 0 else contentLength

/-- `content_len` as `cb_headers_complete` sets it: compared as an `int`, kept
as a `size_t` of 32 bits. -/
def contentLen (contentLength : Nat) : Nat :=
  if contentLength % 2 ^ 32 = 2 ^ 32 - 1 then 0 else contentLength % 2 ^ 32

/-- With a body the parser stops at its first byte, in `cb_on_body`. -/
def lookAhead : HeadEnd → Nat
  | .request c => if bodyLength c = 0 then 0 else 1
  | .malformed => 0

variable {σ : Type*}

/-- Requests whose heads `parser` finds in `scratchSize` bytes. -/
def requestFormat (parser : Scanner σ UInt8 HeadEnd) (scratchSize : Nat) :
    Format σ UInt8 HeadEnd where
  toScanner := parser
  limit := scratchSize
  look := lookAhead
  bodyLength
    | .request c => some (bodyLength c)
    | .malformed => none
  look_le v k h := by
    cases v with
    | malformed => cases h
    | request c =>
        cases h
        rw [lookAhead]
        split <;> omega

/-! ## The session -/

/-- What was read for one request. -/
structure Frame where
  head : List UInt8
  verdict : HeadEnd
  /-- What `httpd_req_recv` returned to the handler. -/
  read : List UInt8
  /-- What a call of the handler had taken when it failed. -/
  lost : List UInt8
  /-- What `httpd_req_delete` read away. -/
  purged : List UInt8
  /-- A read of the handler failed. -/
  failed : Bool
  deriving DecidableEq, Repr

def Frame.empty : Frame := ⟨[], .malformed, [], [], [], false⟩

def Frame.body (f : Frame) : List UInt8 := f.read ++ f.lost ++ f.purged

def Frame.message (f : Frame) : Message UInt8 HeadEnd :=
  ⟨f.head, f.verdict, f.body⟩

inductive Pc where
  /-- `httpd_server` waits for data. -/
  | idle
  /-- The loop of `httpd_parse_req`. -/
  | parse
  /-- The handler of the request. -/
  | handler
  /-- The loop of `httpd_req_delete`. -/
  | purge
  /-- The session was closed. -/
  | closed
  /-- `memcpy` wrote in front of `pending_data`. -/
  | fault
  deriving DecidableEq, Repr

def PARSER_BLOCK_SIZE : Nat := 128

structure Sess (σ : Type*) where
  pendingData : List UInt8
  pendingLen : Nat
  parser : σ
  /-- What `httpd_parse_req` has read of the head. -/
  scratch : List UInt8
  remainingLen : Nat
  pc : Pc
  /-- What has arrived at the socket and was not received. -/
  wire : List UInt8
  /-- The client has closed its side. -/
  eof : Bool
  /-- History: all that has arrived. -/
  sent : List UInt8
  /-- History: the requests that are done. -/
  frames : List Frame
  /-- The request that is served. -/
  cur : Frame

/-- A session that was opened. -/
def Sess.start (parser : Scanner σ UInt8 HeadEnd) : Sess σ where
  pendingData := List.replicate PARSER_BLOCK_SIZE 0
  pendingLen := 0
  parser := parser.start
  scratch := []
  remainingLen := 0
  pc := .idle
  wire := []
  eof := false
  sent := []
  frames := []
  cur := .empty

/-- What is put back, at the end of `pending_data`. -/
def Sess.pending (s : Sess σ) : List UInt8 :=
  s.pendingData.drop (s.pendingData.length - s.pendingLen)

/-- What was read for the request that is served. -/
def Sess.current (s : Sess σ) : List UInt8 :=
  s.scratch ++ s.cur.message.symbols

/-- What `recv` does: fail, or return so many bytes. -/
inductive Recv where
  | error
  | data (n : Nat)
  deriving DecidableEq, Repr

/-- `recv_fn`: what it returns, unless it waits.  It returns nothing when the
client has closed and all is received. -/
def recvFn (s : Sess σ) (bufLen : Nat) :
    Recv → Option (Option (List UInt8) × Sess σ)
  | .error => some (none, s)
  | .data n =>
      if n ≤ bufLen ∧ n ≤ s.wire.length ∧
          (n = 0 → s.wire = [] ∧ s.eof = true) then
        some (some (s.wire.take n), { s with wire := s.wire.drop n })
      else none

def httpdRecvPending (s : Sess σ) (bufLen : Nat) : List UInt8 × Sess σ :=
  let offset := s.pendingData.length - s.pendingLen
  let n := min s.pendingLen bufLen
  ((s.pendingData.drop offset).take n,
    { s with pendingLen := s.pendingLen - n })

/-- A call that receives: what it has stored in the buffer, and what it
returns. -/
structure Received (σ : Type*) where
  buf : List UInt8
  ret : Int
  sess : Sess σ

/-- The pending data come first. -/
def fetchPending (s : Sess σ) (bufLen : Nat) : List UInt8 × Sess σ :=
  if 0 < s.pendingLen then httpdRecvPending s bufLen else ([], s)

def httpdRecvWithOpt (s : Sess σ) (bufLen : Nat) (haltAfterPending : Bool)
    (r : Recv) : Option (Received σ) :=
  let p := fetchPending s bufLen
  let left := bufLen - p.1.length
  if 0 < s.pendingLen ∧ (left = 0 ∨ haltAfterPending) then
    some ⟨p.1, p.1.length, p.2⟩
  else
    (recvFn p.2 left r).map fun q =>
      match q.1 with
      | none => ⟨p.1, -1, q.2⟩
      | some bytes => ⟨p.1 ++ bytes, bytes.length + p.1.length, q.2⟩

/-- `memcpy` is given `buf_len`, not the length that was cut. -/
def httpdUnrecv (s : Sess σ) (buf : List UInt8) : Option (Sess σ) :=
  if buf.length ≤ s.pendingData.length then
    some { s with
      pendingLen := min s.pendingData.length buf.length
      pendingData :=
        s.pendingData.take (s.pendingData.length - buf.length) ++ buf }
  else none

def httpdReqRecv (s : Sess σ) (bufLen : Nat) (r : Recv) :
    Option (Received σ) :=
  let bufLen := min bufLen s.remainingLen
  if bufLen = 0 then some ⟨[], 0, s⟩
  else
    (httpdRecvWithOpt s bufLen false r).map fun q =>
      if q.ret < 0 then ⟨q.buf, -1, { q.sess with remainingLen := 0 }⟩
      else ⟨q.buf, q.ret, { q.sess with
        remainingLen := q.sess.remainingLen - q.ret.toNat }⟩

/-- The request is done, and the session waits for the next. -/
def Sess.done (s : Sess σ) (f : Frame) : Sess σ :=
  { s with pc := .idle, scratch := [], cur := .empty,
           frames := s.frames ++ [f] }

/-- The head is malformed, or longer than `scratch`.  If the response is
sent, the session goes on. -/
def Sess.badRequest (s : Sess σ) (sent : Bool) : Sess σ :=
  if sent then s.done { Frame.empty with head := s.scratch }
  else { s with pc := .closed }

/-- What the parser makes of a block. -/
def parsed (s : Sess σ) (buf : List UInt8) (fed : Fed σ HeadEnd)
    (sent : Bool) : Sess σ :=
  match fed with
  | .more p => { s with parser := p, scratch := s.scratch ++ buf }
  | .stop _ .malformed =>
      { s with scratch := s.scratch ++ buf }.badRequest sent
  | .stop n (.request c) =>
      let behind := n - lookAhead (.request c)
      match httpdUnrecv s (buf.drop behind) with
      | none => { s with pc := .fault }
      | some s =>
          { s with
            pc := .handler
            scratch := []
            remainingLen := contentLen c
            cur := { Frame.empty with
              head := s.scratch ++ buf.take behind
              verdict := .request c } }

/-- One round of `httpd_parse_req`. -/
def parseBlock (parser : Scanner σ UInt8 HeadEnd) (scratchSize : Nat)
    (s : Sess σ) (r : Recv) (sent : Bool) : Option (Sess σ) :=
  let bufLen := min PARSER_BLOCK_SIZE (scratchSize - s.scratch.length)
  if bufLen = 0 then some (s.badRequest sent)
  else
    (httpdRecvWithOpt s bufLen true r).map fun q =>
      if q.ret ≤ 0 then { q.sess with pc := .closed }
      else parsed q.sess q.buf (parser.feed s.parser q.buf) sent

inductive Act where
  | arrive (bytes : List UInt8)
  | shut
  /-- `httpd_sess_process`. -/
  | process
  /-- One round of `httpd_parse_req`; `sent` says whether an error response
  could be sent. -/
  | block (r : Recv) (sent : Bool)
  /-- The handler calls `httpd_req_recv`. -/
  | read (bufLen : Nat) (r : Recv)
  /-- The handler returns, with `ESP_OK` or not. -/
  | handled (ok : Bool)
  /-- One round of the loop of `httpd_req_delete`. -/
  | purge (r : Recv)
  deriving DecidableEq, Repr

/-- The loop of `httpd_req_delete` looks whether there is more. -/
def Sess.purge (s : Sess σ) : Sess σ :=
  if s.remainingLen = 0 then s.done s.cur else { s with pc := .purge }

def sessStep (parser : Scanner σ UInt8 HeadEnd) (scratchSize : Nat)
    (s : Sess σ) : Act → Option (Sess σ)
  | .arrive bytes =>
      if s.eof then none
      else some { s with wire := s.wire ++ bytes, sent := s.sent ++ bytes }
  | .shut => some { s with eof := true }
  | .process =>
      if s.pc = .idle then
        some { s with pc := .parse, parser := parser.start, scratch := [],
                      remainingLen := 0, cur := .empty }
      else none
  | .block r sent =>
      if s.pc = .parse then parseBlock parser scratchSize s r sent else none
  | .read bufLen r =>
      if s.pc = .handler then
        (httpdReqRecv s bufLen r).map fun q =>
          if q.ret < 0 then
            { q.sess with cur := { s.cur with
                failed := true, lost := s.cur.lost ++ q.buf } }
          else { q.sess with cur := { s.cur with
            read := s.cur.read ++ q.buf } }
      else none
  | .handled ok =>
      if s.pc = .handler then
        some (if ok then s.purge else { s with pc := .closed })
      else none
  | .purge r =>
      if s.pc = .purge then
        (httpdReqRecv s (min 31 s.remainingLen) r).map fun q =>
          if q.ret < 0 then
            { q.sess with
              pc := .closed
              cur := { s.cur with purged := s.cur.purged ++ q.buf } }
          else
            { q.sess with cur := { s.cur with
                purged := s.cur.purged ++ q.buf } }.purge
      else none

def sessMachine (parser : Scanner σ UInt8 HeadEnd) (scratchSize : Nat) :
    Machine (Sess σ) Act :=
  ⟨sessStep parser scratchSize⟩

/-! ## Receiving -/

variable {s s' : Sess σ} {q : Received σ}

/-- The bytes `buf` were taken from what is put back and from the socket. -/
structure Took (s s' : Sess σ) (buf : List UInt8) : Prop where
  same : ∃ n w, s' = { s with pendingLen := n, wire := w } ∧
    n ≤ s.pendingLen
  data : s.pending ++ s.wire = buf ++ (s'.pending ++ s'.wire)

theorem pending_eq (s : Sess σ) (n : Nat) (w : List UInt8) :
    Sess.pending { s with pendingLen := n, wire := w } =
      s.pendingData.drop (s.pendingData.length - n) := rfl

theorem Took.refl (s : Sess σ) : Took s s [] :=
  ⟨⟨s.pendingLen, s.wire, rfl, Nat.le_refl _⟩, rfl⟩

theorem fetchPending_spec (hlen : s.pendingLen ≤ s.pendingData.length)
    (bufLen : Nat) :
    Took s (fetchPending s bufLen).2 (fetchPending s bufLen).1 ∧
      (fetchPending s bufLen).1.length = min s.pendingLen bufLen ∧
      (fetchPending s bufLen).2 =
        { s with pendingLen := s.pendingLen - min s.pendingLen bufLen } := by
  rw [fetchPending]
  split
  · have hn : min s.pendingLen bufLen ≤ s.pendingLen := Nat.min_le_left _ _
    refine ⟨⟨⟨_, s.wire, rfl, Nat.sub_le _ _⟩, ?_⟩, ?_, rfl⟩
    · rw [httpdRecvPending, pending_eq, Sess.pending, ← List.append_assoc]
      congr 1
      rw [show s.pendingData.length -
          (s.pendingLen - min s.pendingLen bufLen) =
            s.pendingData.length - s.pendingLen + min s.pendingLen bufLen
          by omega, ← List.drop_drop, List.take_append_drop]
    · rw [httpdRecvPending, List.length_take, List.length_drop]
      omega
  · rename_i hzero
    have hnone : s.pendingLen - min s.pendingLen bufLen = s.pendingLen := by
      omega
    refine ⟨.refl s, by simp only [List.length_nil]; omega, ?_⟩
    rw [hnone]

theorem recvFn_spec {bufLen : Nat} {r : Recv} {o : Option (List UInt8)}
    (h : recvFn s bufLen r = some (o, s')) :
    o = none ∧ s' = s ∨ ∃ bytes, o = some bytes ∧ bytes.length ≤ bufLen ∧
      (∃ w, s' = { s with wire := w }) ∧ s.wire = bytes ++ s'.wire := by
  cases r with
  | error =>
      cases h
      exact .inl ⟨rfl, rfl⟩
  | data n =>
      simp only [recvFn, Option.ite_none_right_eq_some] at h
      obtain ⟨⟨hn, -, -⟩, h⟩ := h
      cases h
      refine .inr ⟨_, rfl, ?_, ⟨_, rfl⟩, ?_⟩
      · rw [List.length_take]
        omega
      · exact (List.take_append_drop n s.wire).symm

theorem pending_nil (h : s.pendingLen = 0) : s.pending = [] := by
  rw [Sess.pending, h, Nat.sub_zero, List.drop_length]

/-- `httpd_recv_with_opt` takes bytes in their order, and no more than it is
asked for.  What it has taken is lost if it fails. -/
theorem recvWithOpt_spec {bufLen : Nat} {halt : Bool} {r : Recv}
    (hlen : s.pendingLen ≤ s.pendingData.length) (hpos : 0 < bufLen)
    (h : httpdRecvWithOpt s bufLen halt r = some q) :
    Took s q.sess q.buf ∧ q.buf.length ≤ bufLen ∧
      (s.pendingLen ≤ bufLen → q.sess.pendingLen = 0) ∧
      (q.ret = q.buf.length ∨ q.ret = -1 ∧ q.buf.length < bufLen ∧
        (halt = true → q.buf = [])) := by
  obtain ⟨htook, hbuf, hfetched⟩ := fetchPending_spec hlen bufLen
  have hleft := congrArg Sess.pendingLen hfetched
  dsimp only at hleft
  rw [httpdRecvWithOpt] at h
  by_cases hret : 0 < s.pendingLen ∧
      (bufLen - (fetchPending s bufLen).1.length = 0 ∨ halt = true)
  · rw [if_pos hret] at h
    cases h
    exact ⟨htook, by dsimp; omega, fun hle => by dsimp; omega, .inl rfl⟩
  · rw [if_neg hret] at h
    obtain ⟨⟨o, s₂⟩, hrecv, rfl⟩ := Option.map_eq_some_iff.1 h
    -- what was put back is used up, so the socket comes next
    have hzero : (fetchPending s bufLen).2.pendingLen = 0 := by
      rw [hleft]
      by_contra hne
      exact hret ⟨by omega, .inl (by omega)⟩
    rcases recvFn_spec hrecv with
      ⟨rfl, rfl⟩ | ⟨bytes, rfl, hle, ⟨w, rfl⟩, hwire⟩
    · refine ⟨htook, by dsimp; omega, fun _ => hzero,
        .inr ⟨rfl, ?_, fun hhalt => ?_⟩⟩
      · by_contra hge
        dsimp at hge
        exact hret ⟨by omega, .inl (by omega)⟩
      · refine List.eq_nil_of_length_eq_zero ?_
        have : ¬0 < s.pendingLen := fun hp => hret ⟨hp, .inr hhalt⟩
        dsimp
        omega
    · obtain ⟨n, w', heq, hn⟩ := htook.same
      refine ⟨⟨⟨n, w, by rw [heq], hn⟩, ?_⟩, ?_, fun _ => hzero, .inl ?_⟩
      · rw [htook.data, pending_nil hzero, hwire, List.nil_append,
          pending_nil (s := { (fetchPending s bufLen).2 with wire := w })
            hzero, List.nil_append, List.append_assoc]
      · simp only [List.length_append]
        omega
      · simp only [List.length_append]
        omega

/-- `httpd_req_recv` takes no more than what remains of the body.  If it
fails, nothing remains. -/
theorem reqRecv_spec {bufLen : Nat} {r : Recv}
    (hlen : s.pendingLen ≤ s.pendingData.length)
    (h : httpdReqRecv s bufLen r = some q) :
    ∃ s₁, Took s s₁ q.buf ∧
      q.sess = { s₁ with remainingLen := q.sess.remainingLen } ∧
      (0 ≤ q.ret ∧ q.buf.length + q.sess.remainingLen = s.remainingLen ∨
        q.ret < 0 ∧ q.sess.remainingLen = 0 ∧
          q.buf.length < s.remainingLen) := by
  rw [httpdReqRecv] at h
  by_cases hzero : min bufLen s.remainingLen = 0
  · rw [if_pos hzero] at h
    cases h
    exact ⟨s, .refl s, rfl, .inl ⟨Int.le_refl _, Nat.zero_add _⟩⟩
  · rw [if_neg hzero] at h
    obtain ⟨q', hq', rfl⟩ := Option.map_eq_some_iff.1 h
    obtain ⟨htook, hle, -, hret⟩ := recvWithOpt_spec hlen (by omega) hq'
    obtain ⟨n, w, hsame, -⟩ := htook.same
    rcases hret with hret | ⟨hret, hlt, -⟩
    · rw [if_neg (by omega)]
      refine ⟨q'.sess, htook, rfl, .inl ⟨by dsimp; omega, ?_⟩⟩
      rw [hsame, hret]
      dsimp
      omega
    · rw [if_pos (by omega)]
      exact ⟨q'.sess, htook, rfl, .inr ⟨by dsimp; omega, rfl, by dsimp; omega⟩⟩

/-- What fits is put back whole. -/
theorem unrecv_spec (s : Sess σ) {buf : List UInt8}
    (hle : buf.length ≤ s.pendingData.length) :
    ∃ data, httpdUnrecv s buf =
        some { s with pendingData := data, pendingLen := buf.length } ∧
      data.length = s.pendingData.length ∧
      data.drop (data.length - buf.length) = buf := by
  have hlen : (s.pendingData.take (s.pendingData.length - buf.length) ++
      buf).length = s.pendingData.length := by
    rw [List.length_append, List.length_take]
    omega
  refine ⟨_, ?_, hlen, ?_⟩
  · rw [httpdUnrecv, if_pos hle, Nat.min_eq_right hle]
  · rw [hlen, List.drop_append, List.drop_eq_nil_of_le (by simp),
      List.nil_append, List.length_take, Nat.min_eq_left (Nat.sub_le _ _),
      Nat.sub_self, List.drop_zero]

/-! ## What a session keeps -/

/-- The request was framed as its head says, and no read of it failed. -/
def Frame.Sound (f : Frame) : Prop :=
  f.failed = false ∧ ∃ c, f.verdict = .request c ∧ contentLen c = bodyLength c

variable {parser : Scanner σ UInt8 HeadEnd} {scratchSize : Nat}

/-- The loop of `httpd_parse_req`: the parser has not found the end of the
head in what was read. -/
structure Parsing (parser : Scanner σ UInt8 HeadEnd) (scratchSize : Nat)
    (s : Sess σ) : Prop where
  fed : parser.feed parser.start s.scratch = .more s.parser
  room : s.scratch.length ≤ scratchSize
  remaining : s.remainingLen = 0
  cur : s.cur = .empty
  /-- What was put back is used up by the first block. -/
  used : s.scratch ≠ [] → s.pendingLen = 0

/-- The head was found; what was read of the body and what follows it. -/
structure InBody (parser : Scanner σ UInt8 HeadEnd) (scratchSize : Nat)
    (s : Sess σ) (c : Nat) : Prop where
  verdict : s.cur.verdict = .request c
  scratch : s.scratch = []
  fed : parser.feed parser.start
      (s.cur.head ++ (s.cur.body ++ (s.pending ++ s.wire))) =
    .stop (s.cur.head.length + lookAhead (.request c)) (.request c)
  room : s.cur.head.length + lookAhead (.request c) ≤ scratchSize
  reads : s.cur.failed = false →
    s.cur.body.length + s.remainingLen = contentLen c
  fails : s.cur.failed = true →
    s.remainingLen = 0 ∧ s.cur.body.length < contentLen c

/-- What holds in every state: nothing of the stream is lost, and the
requests that are done were cut off it. -/
structure Kept (parser : Scanner σ UInt8 HeadEnd) (scratchSize : Nat)
    (s : Sess σ) : Prop where
  data : s.pendingData.length = PARSER_BLOCK_SIZE
  len : s.pendingLen ≤ PARSER_BLOCK_SIZE
  sent : s.sent = s.frames.flatMap (·.message.symbols) ++
    (s.current ++ (s.pending ++ s.wire))
  frames : ∀ f ∈ s.frames,
    f.Sound ↔ (requestFormat parser scratchSize).Ok f.message

structure Inv (parser : Scanner σ UInt8 HeadEnd) (scratchSize : Nat)
    (s : Sess σ) : Prop extends Kept parser scratchSize s where
  nofault : s.pc ≠ .fault
  idle : s.pc = .idle → s.current = []
  parse : s.pc = .parse → Parsing parser scratchSize s
  body : s.pc = .handler ∨ s.pc = .purge →
    ∃ c, InBody parser scratchSize s c
  /-- The handler is served in order, and nothing more after a failure. -/
  handler : s.pc = .handler → s.cur.purged = [] ∧
    (s.cur.failed = false → s.cur.lost = [])

theorem contentLen_le (c : Nat) : contentLen c ≤ bodyLength c := by
  rw [contentLen, bodyLength, ULLONG_MAX]
  split
  · exact Nat.zero_le _
  · split <;> omega

theorem InBody.mono {c : Nat} (h : InBody parser scratchSize s c)
    (bytes : List UInt8) :
    InBody parser scratchSize { s with wire := s.wire ++ bytes } c := by
  refine ⟨h.verdict, h.scratch, ?_, h.room, h.reads, h.fails⟩
  show parser.feed parser.start (s.cur.head ++ (s.cur.body ++
    (s.pending ++ (s.wire ++ bytes)))) = _
  have := Scanner.feed_append_stop bytes h.fed
  simpa only [List.append_assoc] using this

/-- A request whose body was read is one of the format exactly if it is
sound. -/
theorem InBody.sound_iff {c : Nat} (h : InBody parser scratchSize s c)
    (hzero : s.remainingLen = 0) :
    s.cur.Sound ↔ (requestFormat parser scratchSize).Ok s.cur.message := by
  constructor
  · rintro ⟨hok, c', hc', hlen⟩
    obtain rfl : c = c' := by
      have := h.verdict.symm.trans hc'
      simpa using this
    have hbody : s.cur.body.length = bodyLength c := by
      have := h.reads hok
      omega
    have hlook := (requestFormat parser scratchSize).look_le (.request c) _ rfl
    refine ⟨?_, ?_, ?_⟩
    · show parser.feed parser.start (s.cur.head ++ s.cur.body) =
        .stop (s.cur.head.length + lookAhead s.cur.verdict) s.cur.verdict
      rw [h.verdict]
      have hfed := h.fed
      rw [← List.append_assoc] at hfed
      refine Scanner.feed_of_append hfed ?_
      rw [List.length_append, hbody]
      exact Nat.add_le_add_left hlook _
    · show s.cur.head.length + lookAhead s.cur.verdict ≤ scratchSize
      rw [h.verdict]
      exact h.room
    · show (requestFormat parser scratchSize).bodyLength s.cur.verdict =
        some s.cur.body.length
      rw [h.verdict, hbody]
      rfl
  · intro hok
    have hbody : bodyLength c = s.cur.body.length := by
      have := hok.body
      rw [show s.cur.message.verdict = .request c from h.verdict] at this
      exact Option.some.inj this
    have hle := contentLen_le c
    cases hfailed : s.cur.failed with
    | true =>
        have := (h.fails hfailed).2
        omega
    | false =>
        have := h.reads hfailed
        exact ⟨hfailed, c, h.verdict, by omega⟩

/-! ## Every step keeps it -/

theorem Inv.start : Inv parser scratchSize (.start parser) := by
  refine ⟨⟨List.length_replicate, Nat.zero_le _, ?_, by simp [Sess.start]⟩,
    by simp [Sess.start], fun _ => rfl, by simp [Sess.start],
    by simp [Sess.start], by simp [Sess.start]⟩
  rw [pending_nil rfl]
  rfl

theorem Inv.arrive (h : Inv parser scratchSize s) (bytes : List UInt8) :
    Inv parser scratchSize
      { s with wire := s.wire ++ bytes, sent := s.sent ++ bytes } := by
  refine ⟨⟨h.data, h.len, ?_, h.frames⟩, h.nofault, h.idle, fun hpc => ?_,
    fun hpc => ?_, h.handler⟩
  · show s.sent ++ bytes = _ ++ (s.current ++ (s.pending ++ (s.wire ++ bytes)))
    rw [h.sent]
    simp only [List.append_assoc]
  · obtain ⟨hfed, hroom, hrem, hcur, hused⟩ := h.parse hpc
    exact ⟨hfed, hroom, hrem, hcur, hused⟩
  · obtain ⟨c, hbody⟩ := h.body hpc
    obtain ⟨hv, hs, hfed, hroom, hreads, hfails⟩ := hbody.mono bytes
    exact ⟨c, hv, hs, hfed, hroom, hreads, hfails⟩

theorem Inv.process (h : Inv parser scratchSize s) (hpc : s.pc = .idle) :
    Inv parser scratchSize
      { s with pc := .parse, parser := parser.start, scratch := [],
               remainingLen := 0, cur := .empty } := by
  refine ⟨⟨h.data, h.len, ?_, h.frames⟩, by simp, by simp, fun _ => ?_,
    by simp, by simp⟩
  · show s.sent = _ ++ ([] ++ (s.pending ++ s.wire))
    rw [h.sent, h.idle hpc]
  · exact ⟨rfl, Nat.zero_le _, rfl, rfl, fun hne => absurd rfl hne⟩

/-- What is taken counts as read for the request that is served. -/
theorem Kept.took (h : Kept parser scratchSize s) {s₁ s' : Sess σ}
    {buf : List UInt8} (htook : Took s s₁ buf)
    (hpending : s'.pendingLen = s₁.pendingLen ∧ s'.wire = s₁.wire ∧
      s'.pendingData = s₁.pendingData)
    (hkept : s'.sent = s.sent ∧ s'.frames = s.frames)
    (hcur : s'.current = s.current ++ buf) : Kept parser scratchSize s' := by
  obtain ⟨hlen, hwire, hdata⟩ := hpending
  obtain ⟨n, w, hs₁, hn⟩ := htook.same
  have hpend : s'.pending = s₁.pending := by
    rw [Sess.pending, Sess.pending, hlen, hdata]
  refine ⟨?_, ?_, ?_, ?_⟩
  · rw [hdata, hs₁]
    exact h.data
  · rw [hlen, hs₁]
    exact hn.trans h.len
  · rw [hkept.1, hkept.2, h.sent, htook.data, hcur, hpend, hwire]
    simp only [List.append_assoc]
  · rw [hkept.2]
    exact h.frames

/-- The request is done: its frame is added, and the stream goes on behind
it. -/
theorem Kept.done (h : Kept parser scratchSize s) {f : Frame}
    (hcur : s.current = f.message.symbols)
    (hf : f.Sound ↔ (requestFormat parser scratchSize).Ok f.message) :
    Inv parser scratchSize (s.done f) := by
  refine ⟨⟨h.data, h.len, ?_, ?_⟩, by simp [Sess.done], fun _ => rfl,
    by simp [Sess.done], by simp [Sess.done], by simp [Sess.done]⟩
  · show s.sent = (s.frames ++ [f]).flatMap (·.message.symbols) ++
      ([] ++ (s.pending ++ s.wire))
    rw [h.sent, hcur, List.flatMap_append, List.flatMap_singleton,
      List.nil_append, List.append_assoc]
  · intro f' hf'
    rcases List.mem_append.1 hf' with hf' | hf'
    · exact h.frames f' hf'
    · obtain rfl := List.mem_singleton.1 hf'
      exact hf

theorem Kept.closed (h : Kept parser scratchSize s) (hpc : s.pc = .closed) :
    Inv parser scratchSize s :=
  ⟨h, by simp [hpc], by simp [hpc], by simp [hpc], by simp [hpc],
    by simp [hpc]⟩

theorem Kept.badRequest (h : Kept parser scratchSize s)
    (hcur : s.cur = .empty) (sent : Bool) :
    Inv parser scratchSize (s.badRequest sent) := by
  rw [Sess.badRequest]
  split
  · refine h.done ?_ (iff_of_false ?_ ?_)
    · rw [Sess.current, hcur]
      simp [Frame.message, Frame.empty, Frame.body, Message.symbols]
    · rintro ⟨-, c, hc, -⟩
      cases hc
    · intro hok
      cases hok.body
  · exact Kept.closed ⟨h.data, h.len, h.sent, h.frames⟩ rfl

/-- What is put back fits, since the head does not end before the block. -/
theorem Inv.parsed (h : Inv parser scratchSize s) {s₁ : Sess σ}
    {buf : List UInt8} (hparse : Parsing parser scratchSize s)
    (htook : Took s s₁ buf) (hzero : s₁.pendingLen = 0)
    (hbuf : buf.length ≤ PARSER_BLOCK_SIZE)
    (hroom : s.scratch.length + buf.length ≤ scratchSize) (sent : Bool)
    (hpc : s.pc = .parse) :
    Inv parser scratchSize
      (parsed s₁ buf (parser.feed s.parser buf) sent) := by
  have hfed := Scanner.feed_append buf hparse.fed
  have hempty := hparse.cur
  have hkept := h.toKept
  obtain ⟨n, w, rfl, hn⟩ := htook.same
  have htaken : ∀ p, Kept parser scratchSize
      { s with pendingLen := n, wire := w, parser := p,
               scratch := s.scratch ++ buf } := by
    refine fun p => hkept.took htook ⟨rfl, rfl, rfl⟩ ⟨rfl, rfl⟩ ?_
    simp [Sess.current, hempty, Frame.message, Frame.empty, Frame.body,
      Message.symbols]
  cases hstop : parser.feed s.parser buf with
  | more p =>
      rw [hstop] at hfed
      refine ⟨htaken p, by simp [hpc, HttpdFraming.parsed],
        by simp [hpc, HttpdFraming.parsed], fun _ => ?_,
        by simp [hpc, HttpdFraming.parsed],
        by simp [hpc, HttpdFraming.parsed]⟩
      exact ⟨hfed, by simpa [HttpdFraming.parsed] using hroom,
        hparse.remaining, hempty, fun _ => hzero⟩
  | stop k v =>
      obtain ⟨hk, hkle⟩ := Scanner.feed_stop_bounds hstop
      rw [hstop, Fed.shift_stop] at hfed
      cases v with
      | malformed => exact Kept.badRequest (htaken s.parser) hempty sent
      | request c =>
          have hlook : lookAhead (.request c) ≤ k := by
            rw [lookAhead]
            split <;> omega
          have hfits : (buf.drop (k - lookAhead (.request c))).length ≤
              s.pendingData.length := by
            rw [List.length_drop, h.data]
            omega
          obtain ⟨data, hun, hdata, hback⟩ :=
            unrecv_spec { s with pendingLen := n, wire := w } hfits
          simp only [HttpdFraming.parsed, hun]
          refine ⟨⟨?_, ?_, ?_, ?_⟩, by simp, by simp, by simp, fun _ => ?_,
            fun _ => ⟨rfl, fun _ => rfl⟩⟩
          · exact hdata.trans h.data
          · show (buf.drop _).length ≤ _
            rw [List.length_drop]
            omega
          · show s.sent = s.frames.flatMap _ ++ ([] ++ (s.scratch ++
              buf.take _ ++ []) ++ (data.drop (data.length - _) ++ w))
            rw [hback, h.sent, htook.data, pending_nil hzero, Sess.current,
              hempty]
            simp only [Frame.message, Frame.empty, Frame.body,
              Message.symbols, List.append_nil, List.nil_append]
            rw [List.append_assoc s.scratch, ← List.append_assoc (buf.take _),
              List.take_append_drop]
          · exact h.frames
          · have hhead : (s.scratch ++ buf.take (k -
                lookAhead (.request c))).length + lookAhead (.request c) =
                  s.scratch.length + k := by
              rw [List.length_append, List.length_take]
              omega
            refine ⟨c, rfl, rfl, ?_, ?_, fun _ => ?_, by simp [Frame.empty]⟩
            · show parser.feed parser.start (s.scratch ++ buf.take _ ++
                ([] ++ (data.drop (data.length - _) ++ w))) =
                  .stop ((s.scratch ++ buf.take _).length + _) _
              rw [hback, hhead, List.nil_append, List.append_assoc,
                ← List.append_assoc (buf.take _), List.take_append_drop,
                ← List.append_assoc]
              exact Scanner.feed_append_stop w hfed
            · show (s.scratch ++ buf.take _).length + _ ≤ _
              rw [hhead]
              omega
            · exact Nat.zero_add _

theorem Inv.block (h : Inv parser scratchSize s)
    (hsize : PARSER_BLOCK_SIZE ≤ scratchSize) (hpc : s.pc = .parse)
    {r : Recv} {sent : Bool}
    (hs : parseBlock parser scratchSize s r sent = some s') :
    Inv parser scratchSize s' := by
  have hparse := h.parse hpc
  have hlen := h.len
  rw [parseBlock] at hs
  by_cases hfull :
      min PARSER_BLOCK_SIZE (scratchSize - s.scratch.length) = 0
  · rw [if_pos hfull] at hs
    cases hs
    exact h.toKept.badRequest hparse.cur sent
  · rw [if_neg hfull] at hs
    obtain ⟨q, hq, rfl⟩ := Option.map_eq_some_iff.1 hs
    obtain ⟨htook, hle, hused, hret⟩ :=
      recvWithOpt_spec (h.data ▸ hlen) (by omega) hq
    by_cases hnone : q.ret ≤ 0
    · have hbuf : q.buf = [] := by
        rcases hret with hret | ⟨-, -, hbuf⟩
        · exact List.eq_nil_of_length_eq_zero (by omega)
        · exact hbuf rfl
      rw [if_pos hnone]
      refine Kept.closed (h.toKept.took htook ⟨rfl, rfl, rfl⟩ ?_ ?_) rfl
      · obtain ⟨n, w, heq, -⟩ := htook.same
        rw [heq]
        exact ⟨rfl, rfl⟩
      · obtain ⟨n, w, heq, -⟩ := htook.same
        rw [heq, hbuf, List.append_nil]
        rfl
    · rw [if_neg hnone]
      refine h.parsed hparse htook (hused ?_) (by omega) ?_ sent hpc
      · by_cases hscratch : s.scratch = []
        · rw [hscratch, List.length_nil]
          omega
        · rw [hparse.used hscratch]
          exact Nat.zero_le _
      · have := hparse.room
        omega

/-- What the handler and `httpd_req_delete` read belongs to the body. -/
theorem InBody.took {c : Nat} (h : InBody parser scratchSize s c)
    {s₁ s' : Sess σ} {buf : List UInt8} (htook : Took s s₁ buf)
    (hpending : s'.pendingLen = s₁.pendingLen ∧ s'.wire = s₁.wire ∧
      s'.pendingData = s₁.pendingData)
    (hscratch : s'.scratch = [])
    (hcur : s'.cur.head = s.cur.head ∧ s'.cur.verdict = s.cur.verdict ∧
      s'.cur.body = s.cur.body ++ buf)
    (hreads : s'.cur.failed = false →
      s'.cur.body.length + s'.remainingLen = contentLen c)
    (hfails : s'.cur.failed = true →
      s'.remainingLen = 0 ∧ s'.cur.body.length < contentLen c) :
    InBody parser scratchSize s' c := by
  obtain ⟨hlen, hwire, hdata⟩ := hpending
  obtain ⟨hhead, hverdict, hbody⟩ := hcur
  have hpend : s'.pending = s₁.pending := by
    rw [Sess.pending, Sess.pending, hlen, hdata]
  refine ⟨hverdict.trans h.verdict, hscratch, ?_, ?_, hreads, hfails⟩
  · rw [hhead, hbody, hpend, hwire, List.append_assoc, ← htook.data]
    exact h.fed
  · rw [hhead]
    exact h.room

theorem Inv.read (h : Inv parser scratchSize s) (hpc : s.pc = .handler)
    {bufLen : Nat} {r : Recv} (hq : httpdReqRecv s bufLen r = some q) :
    Inv parser scratchSize (if q.ret < 0 then
      { q.sess with cur := { s.cur with
          failed := true, lost := s.cur.lost ++ q.buf } }
      else { q.sess with cur := { s.cur with
        read := s.cur.read ++ q.buf } }) := by
  obtain ⟨c, hbody⟩ := h.body (.inl hpc)
  obtain ⟨hpurged, hlost⟩ := h.handler hpc
  obtain ⟨s₁, htook, hsess, hret⟩ := reqRecv_spec (h.data ▸ h.len) hq
  obtain ⟨n, w, hs₁, -⟩ := htook.same
  have hframe : q.sess.pendingLen = s₁.pendingLen ∧ q.sess.wire = s₁.wire ∧
      q.sess.pendingData = s₁.pendingData := by
    rw [hsess]
    exact ⟨rfl, rfl, rfl⟩
  have hsame : q.sess.sent = s.sent ∧ q.sess.frames = s.frames := by
    rw [hsess, hs₁]
    exact ⟨rfl, rfl⟩
  have hstays : q.sess.pc = .handler ∧ q.sess.scratch = [] := by
    rw [hsess, hs₁]
    exact ⟨hpc, hbody.scratch⟩
  -- both branches add the bytes behind the body
  have hgrows : ∀ f : Frame, f.head = s.cur.head →
      f.verdict = s.cur.verdict → f.body = s.cur.body ++ q.buf →
      (f.failed = false → f.body.length + q.sess.remainingLen =
        contentLen c) →
      (f.failed = true →
        q.sess.remainingLen = 0 ∧ f.body.length < contentLen c) →
      (f.purged = [] ∧ (f.failed = false → f.lost = [])) →
      Inv parser scratchSize { q.sess with cur := f } := by
    intro f hhead hverdict hfbody hreads hfails hfhandler
    refine ⟨h.toKept.took htook hframe hsame ?_, by simp [hstays],
      by simp [hstays], by simp [hstays], fun _ => ⟨c, ?_⟩, fun _ => hfhandler⟩
    · show q.sess.scratch ++ (f.head ++ f.body) = _
      rw [hstays.2, hhead, hfbody, Sess.current, hbody.scratch]
      simp [Frame.message, Message.symbols]
    · exact hbody.took htook hframe hstays.2 ⟨hhead, hverdict, hfbody⟩
        hreads hfails
  rcases hret with ⟨hret, hrem⟩ | ⟨hret, hrem, hlt⟩
  · rw [if_neg (by omega)]
    cases hfailed : s.cur.failed with
    | true =>
        obtain ⟨hzero, hshort⟩ := hbody.fails hfailed
        have hbuf : q.buf = [] :=
          List.eq_nil_of_length_eq_zero (by omega)
        refine hgrows _ rfl rfl (by simp [Frame.body, hbuf])
          (fun hno => ?_) (fun _ => ⟨by omega, ?_⟩)
          ⟨hpurged, fun hno => ?_⟩
        · simp [hfailed] at hno
        · simpa [Frame.body, hbuf] using hshort
        · simp [hfailed] at hno
    | false =>
        have hfbody : (s.cur.read ++ q.buf) ++ s.cur.lost ++ s.cur.purged =
            s.cur.body ++ q.buf := by
          simp [Frame.body, hlost hfailed, hpurged]
        refine hgrows _ rfl rfl hfbody (fun _ => ?_) (fun hno => ?_)
          ⟨hpurged, fun _ => hlost hfailed⟩
        · rw [Frame.body, hfbody, List.length_append]
          have := hbody.reads hfailed
          omega
        · simp [hfailed] at hno
  · rw [if_pos hret]
    have hfailed : s.cur.failed = false := by
      cases hfailed : s.cur.failed with
      | false => rfl
      | true =>
          have := (hbody.fails hfailed).1
          omega
    have hfbody : s.cur.read ++ (s.cur.lost ++ q.buf) ++ s.cur.purged =
        s.cur.body ++ q.buf := by
      simp [Frame.body, hlost hfailed, hpurged]
    refine hgrows _ rfl rfl hfbody (fun hno => ?_) (fun _ => ⟨hrem, ?_⟩)
      ⟨hpurged, fun hno => ?_⟩
    · cases hno
    · rw [Frame.body, hfbody, List.length_append]
      have := hbody.reads hfailed
      omega
    · cases hno

/-- The loop of `httpd_req_delete` goes on, or the request is done. -/
theorem Kept.purge (h : Kept parser scratchSize s) {c : Nat}
    (hbody : InBody parser scratchSize s c) :
    Inv parser scratchSize s.purge := by
  rw [Sess.purge]
  split
  · rename_i hzero
    refine h.done ?_ (hbody.sound_iff hzero)
    rw [Sess.current, hbody.scratch, List.nil_append]
  · refine ⟨⟨h.data, h.len, h.sent, h.frames⟩, by simp, by simp, by simp,
      fun _ => ⟨c, ?_⟩, by simp⟩
    exact ⟨hbody.verdict, hbody.scratch, hbody.fed, hbody.room, hbody.reads,
      hbody.fails⟩

theorem Inv.purgeRound (h : Inv parser scratchSize s) (hpc : s.pc = .purge)
    {bufLen : Nat} {r : Recv} (hq : httpdReqRecv s bufLen r = some q) :
    Inv parser scratchSize (if q.ret < 0 then
      { q.sess with
        pc := .closed
        cur := { s.cur with purged := s.cur.purged ++ q.buf } }
      else Sess.purge { q.sess with cur := { s.cur with
        purged := s.cur.purged ++ q.buf } }) := by
  obtain ⟨c, hbody⟩ := h.body (.inr hpc)
  obtain ⟨s₁, htook, hsess, hret⟩ := reqRecv_spec (h.data ▸ h.len) hq
  obtain ⟨n, w, hs₁, -⟩ := htook.same
  have hframe : q.sess.pendingLen = s₁.pendingLen ∧ q.sess.wire = s₁.wire ∧
      q.sess.pendingData = s₁.pendingData := by
    rw [hsess]
    exact ⟨rfl, rfl, rfl⟩
  have hsame : q.sess.sent = s.sent ∧ q.sess.frames = s.frames := by
    rw [hsess, hs₁]
    exact ⟨rfl, rfl⟩
  have hscratch : q.sess.scratch = [] := by
    rw [hsess, hs₁]
    exact hbody.scratch
  have hfbody : s.cur.read ++ s.cur.lost ++ (s.cur.purged ++ q.buf) =
      s.cur.body ++ q.buf := by
    simp [Frame.body]
  have hcurrent : [] ++ (s.cur.head ++ (s.cur.read ++ s.cur.lost ++
      (s.cur.purged ++ q.buf))) = s.current ++ q.buf := by
    rw [hfbody, Sess.current, hbody.scratch]
    simp [Frame.message, Message.symbols]
  rcases hret with ⟨hret, hrem⟩ | ⟨hret, hrem, hlt⟩
  · rw [if_neg (by omega)]
    refine Kept.purge (h.toKept.took htook hframe hsame ?_) (c := c)
      (hbody.took htook hframe hscratch ⟨rfl, rfl, hfbody⟩ (fun hok => ?_)
        fun hno => ?_)
    · rw [← hcurrent, Sess.current, hscratch]
      rfl
    · show (s.cur.read ++ s.cur.lost ++ (s.cur.purged ++ q.buf)).length +
        q.sess.remainingLen = _
      have := hbody.reads hok
      rw [hfbody, List.length_append]
      omega
    · obtain ⟨hzero, hshort⟩ := hbody.fails hno
      refine ⟨by dsimp; omega, ?_⟩
      show (s.cur.read ++ s.cur.lost ++ (s.cur.purged ++ q.buf)).length < _
      rw [hfbody, List.length_append]
      omega
  · rw [if_pos hret]
    refine Kept.closed (h.toKept.took htook hframe hsame ?_) rfl
    rw [← hcurrent, Sess.current, hscratch]
    rfl

theorem Inv.step (hsize : PARSER_BLOCK_SIZE ≤ scratchSize)
    (h : Inv parser scratchSize s) {a : Act}
    (hs : sessStep parser scratchSize s a = some s') :
    Inv parser scratchSize s' := by
  cases a with
  | arrive bytes =>
      simp only [sessStep, Option.ite_none_left_eq_some] at hs
      obtain ⟨-, hs⟩ := hs
      cases hs
      exact h.arrive bytes
  | shut =>
      cases hs
      refine ⟨⟨h.data, h.len, h.sent, h.frames⟩, h.nofault, h.idle,
        fun hpc => ?_, fun hpc => ?_, h.handler⟩
      · obtain ⟨hfed, hroom, hrem, hcur, hused⟩ := h.parse hpc
        exact ⟨hfed, hroom, hrem, hcur, hused⟩
      · obtain ⟨c, hv, hscr, hfed, hroom, hreads, hfails⟩ := h.body hpc
        exact ⟨c, hv, hscr, hfed, hroom, hreads, hfails⟩
  | process =>
      simp only [sessStep, Option.ite_none_right_eq_some] at hs
      obtain ⟨hpc, hs⟩ := hs
      cases hs
      exact h.process hpc
  | block r sent =>
      simp only [sessStep, Option.ite_none_right_eq_some] at hs
      exact h.block hsize hs.1 hs.2
  | read bufLen r =>
      simp only [sessStep, Option.ite_none_right_eq_some,
        Option.map_eq_some_iff] at hs
      obtain ⟨hpc, q, hq, rfl⟩ := hs
      exact h.read hpc hq
  | handled ok =>
      simp only [sessStep, Option.ite_none_right_eq_some] at hs
      obtain ⟨hpc, hs⟩ := hs
      cases hs
      cases ok with
      | true =>
          obtain ⟨c, hbody⟩ := h.body (.inl hpc)
          exact h.toKept.purge hbody
      | false => exact Kept.closed ⟨h.data, h.len, h.sent, h.frames⟩ rfl
  | purge r =>
      simp only [sessStep, Option.ite_none_right_eq_some,
        Option.map_eq_some_iff] at hs
      obtain ⟨hpc, q, hq, rfl⟩ := hs
      exact h.purgeRound hpc hq

theorem inv_reachable (hsize : PARSER_BLOCK_SIZE ≤ scratchSize)
    (h : (sessMachine parser scratchSize).Reachable (.start parser) s) :
    Inv parser scratchSize s :=
  h.invariant .start fun _ _ _ hu hs => hu.step hsize hs

def text (s : String) : List UInt8 :=
  s.toList.map fun c => UInt8.ofNat c.toNat

/-- The number behind `Content-Length:`, in a head that is read backwards. -/
def lengthField (read : List UInt8) : Nat :=
  let digits := (read.drop 4).takeWhile fun b => 48 ≤ b && b ≤ 57
  if (text "Content-Length: ").isSuffixOf
      ((read.drop (4 + digits.length)).reverse) then
    digits.reverse.foldl (fun n b => 10 * n + (b.toNat - 48)) 0
  else ULLONG_MAX

/-- A parser of heads that end in `Content-Length`, if they have it. -/
def plainParser : Scanner (List UInt8) UInt8 HeadEnd where
  start := []
  step read b :=
    let ended (l : List UInt8) := l.take 4 == [10, 13, 10, 13]
    if ended read then .inr (.request (lengthField read))
    else if ended (b :: read) ∧ bodyLength (lengthField (b :: read)) = 0 then
      .inr (.request (lengthField (b :: read)))
    else .inl (b :: read)

def putHead : List UInt8 :=
  text "PUT / HTTP/1.0\r\nContent-Length: 2\r\n\r\n"

def getHead : List UInt8 := text "GET / HTTP/1.0\r\n\r\n"

/-- Two requests in one piece; the handler of the first reads half of the
body. -/
def twoRequests : List Act :=
  [.arrive (putHead ++ text "ok" ++ getHead), .process, .block (.data 57) true,
   .read 1 .error, .handled true, .purge .error, .process,
   .block .error true, .handled true]

/-- What can still be received. -/
def Sess.left (s : Sess σ) : Nat := s.pendingLen + s.wire.length

/-- Rounds in which `recv` does not fail. -/
def rounds (sizes : List Nat) : List Act := sizes.map fun n => .purge (.data n)

/-- `recv` returns something as long as there is something. -/
theorem recvWithOpt_data {bufLen n : Nat}
    (hlen : s.pendingLen ≤ s.pendingData.length) (hpos : 0 < bufLen)
    (h : httpdRecvWithOpt s bufLen false (.data n) = some q) :
    q.ret = q.buf.length ∧ (q.buf = [] → s.left = 0) := by
  obtain ⟨-, hbuf, hfetched⟩ := fetchPending_spec hlen bufLen
  rw [httpdRecvWithOpt] at h
  by_cases hret : 0 < s.pendingLen ∧
      (bufLen - (fetchPending s bufLen).1.length = 0 ∨ false = true)
  · rw [if_pos hret] at h
    cases h
    refine ⟨rfl, fun hnil => ?_⟩
    have := congrArg List.length hnil
    rw [hbuf, List.length_nil] at this
    omega
  · rw [if_neg hret] at h
    obtain ⟨⟨o, s₂⟩, hrecv, rfl⟩ := Option.map_eq_some_iff.1 h
    simp only [recvFn, hfetched, Option.ite_none_right_eq_some] at hrecv
    obtain ⟨⟨-, hn, hzero⟩, hrecv⟩ := hrecv
    cases hrecv
    refine ⟨by simp only [List.length_append]; omega, fun hnil => ?_⟩
    have hlens := congrArg List.length hnil
    rw [List.length_append, hbuf, List.length_take, List.length_nil] at hlens
    have hempty := (hzero (by omega)).1
    rw [Sess.left, hempty, List.length_nil]
    omega

/-- Some answer of `recv` is possible once the client has closed. -/
theorem recvWithOpt_possible {bufLen : Nat}
    (hlen : s.pendingLen ≤ s.pendingData.length) (hpos : 0 < bufLen)
    (heof : s.eof = true) :
    ∃ n q, httpdRecvWithOpt s bufLen false (.data n) = some q := by
  obtain ⟨-, hbuf, hfetched⟩ := fetchPending_spec hlen bufLen
  refine ⟨min (bufLen - min s.pendingLen bufLen) s.wire.length, ?_⟩
  rw [httpdRecvWithOpt]
  by_cases hret : 0 < s.pendingLen ∧
      (bufLen - (fetchPending s bufLen).1.length = 0 ∨ false = true)
  · rw [if_pos hret]
    exact ⟨_, rfl⟩
  · rw [if_neg hret, hbuf, recvFn, hfetched, if_pos]
    · exact ⟨_, rfl⟩
    · refine ⟨Nat.min_le_left _ _, Nat.min_le_right _ _, fun hzero => ?_⟩
      rw [hbuf] at hret
      refine ⟨List.eq_nil_of_length_eq_zero ?_, heof⟩
      by_contra hne
      have hwire : s.wire.length ≠ 0 := hne
      exact hret ⟨by omega, .inl (by omega)⟩

/-- One round takes something as long as there is something, and the loop
goes on while something remains of the body. -/
theorem purge_round {n : Nat} (hinv : Inv parser scratchSize s)
    (hs : sessStep parser scratchSize s (.purge (.data n)) = some s') :
    ∃ t, s'.left + t = s.left ∧ s'.remainingLen + t = s.remainingLen ∧
      (t = 0 → s.left = 0 ∨ s.remainingLen = 0) ∧
      s'.eof = s.eof ∧ (s'.pc = .purge ↔ s'.remainingLen ≠ 0) := by
  have hlen : s.pendingLen ≤ s.pendingData.length := hinv.data ▸ hinv.len
  simp only [sessStep, Option.ite_none_right_eq_some,
    Option.map_eq_some_iff] at hs
  obtain ⟨hpc, q, hq, rfl⟩ := hs
  obtain ⟨s₁, htook, hsess, hret⟩ := reqRecv_spec hlen hq
  obtain ⟨k, w, rfl, hk⟩ := htook.same
  have hdata := congrArg List.length htook.data
  rw [Sess.pending, pending_eq] at hdata
  simp only [List.length_append, List.length_drop] at hdata
  have hok : 0 ≤ q.ret ∧ (q.buf = [] → s.left = 0 ∨ s.remainingLen = 0) := by
    rw [httpdReqRecv] at hq
    split at hq
    · cases hq
      exact ⟨Int.le_refl _, fun _ => .inr (by omega)⟩
    · obtain ⟨q', hq', rfl⟩ := Option.map_eq_some_iff.1 hq
      obtain ⟨hret', hnil⟩ := recvWithOpt_data hlen (by omega) hq'
      rw [if_neg (by omega)]
      exact ⟨by dsimp; omega, fun h => .inl (hnil h)⟩
  have hrem : q.buf.length + q.sess.remainingLen = s.remainingLen := by
    rcases hret with ⟨-, hrem⟩ | ⟨hneg, -⟩
    · exact hrem
    · omega
  rw [if_neg (by omega)]
  refine ⟨q.buf.length, ?_⟩
  have hleft : k + w.length + q.buf.length = s.left := by
    rw [Sess.left]
    omega
  rw [hsess]
  refine ⟨?_, ?_, fun ht => hok.2 (List.eq_nil_of_length_eq_zero ht), ?_⟩
  · rw [Sess.purge]
    split <;> exact hleft
  · rw [Sess.purge]
    split <;> · dsimp [Sess.done]; omega
  · rw [Sess.purge]
    split
    · rename_i hzero
      exact ⟨rfl, iff_of_false (by simp [Sess.done]) (not_not.2 hzero)⟩
    · rename_i hne
      exact ⟨rfl, iff_of_true rfl hne⟩

theorem purge_possible (hinv : Inv parser scratchSize s)
    (hpc : s.pc = .purge) (heof : s.eof = true) :
    ∃ n s', sessStep parser scratchSize s (.purge (.data n)) = some s' := by
  have hlen : s.pendingLen ≤ s.pendingData.length := hinv.data ▸ hinv.len
  simp only [sessStep, if_pos hpc, httpdReqRecv]
  by_cases hzero : min (min 31 s.remainingLen) s.remainingLen = 0
  · exact ⟨0, _, by rw [if_pos hzero]; rfl⟩
  · obtain ⟨n, q, hq⟩ := recvWithOpt_possible hlen
      (Nat.pos_of_ne_zero hzero) heof
    exact ⟨n, _, by rw [if_neg hzero, hq]; rfl⟩

theorem rounds_eof (hsize : PARSER_BLOCK_SIZE ≤ scratchSize)
    {sizes : List Nat} (hinv : Inv parser scratchSize s)
    (hrun : (sessMachine parser scratchSize).run s (rounds sizes) =
      some s') : s'.eof = s.eof := by
  induction sizes generalizing s with
  | nil =>
      cases hrun
      rfl
  | cons n sizes ih =>
      rw [rounds, List.map_cons, Machine.run_cons,
        Option.bind_eq_some_iff] at hrun
      obtain ⟨u, hu, hrest⟩ := hrun
      replace hu : sessStep parser scratchSize s (.purge (.data n)) =
        some u := hu
      obtain ⟨t, -, -, -, heof, -⟩ := purge_round hinv hu
      exact (ih (hinv.step hsize hu) hrest).trans heof

/-- If the body is there, each round brings the end nearer. -/
theorem rounds_bounded (hsize : PARSER_BLOCK_SIZE ≤ scratchSize)
    {sizes : List Nat} (hinv : Inv parser scratchSize s)
    (henough : s.remainingLen ≤ s.left)
    (hrun : (sessMachine parser scratchSize).run s (rounds sizes) = some s')
    (hpc : s'.pc = .purge) : sizes.length ≤ s.remainingLen := by
  induction sizes generalizing s with
  | nil => exact Nat.zero_le _
  | cons n sizes ih =>
      rw [rounds, List.map_cons, Machine.run_cons,
        Option.bind_eq_some_iff] at hrun
      obtain ⟨u, hu, hrest⟩ := hrun
      replace hu : sessStep parser scratchSize s (.purge (.data n)) =
        some u := hu
      obtain ⟨t, hleft, hrem, hnone, -, hgoes⟩ := purge_round hinv hu
      have := ih (hinv.step hsize hu) (by omega) hrest
      rw [List.length_cons]
      by_cases hzero : u.remainingLen = 0
      · -- the loop has ended, so no round follows
        cases sizes with
        | nil =>
            cases hrest
            exact absurd hzero (hgoes.1 hpc)
        | cons m sizes =>
            rw [List.length_cons] at this
            omega
      · have ht : t ≠ 0 := by
          intro ht
          rcases hnone ht with hnone | hnone <;> omega
        omega

/-- If it is not, the loop goes on for ever. -/
theorem rounds_endless (hsize : PARSER_BLOCK_SIZE ≤ scratchSize)
    (hinv : Inv parser scratchSize s) (hpc : s.pc = .purge)
    (heof : s.eof = true) (hshort : s.left < s.remainingLen) (k : Nat) :
    ∃ sizes s', sizes.length = k ∧
      (sessMachine parser scratchSize).run s (rounds sizes) = some s' ∧
      s'.pc = .purge := by
  induction k generalizing s with
  | zero => exact ⟨[], s, rfl, rfl, hpc⟩
  | succ k ih =>
      obtain ⟨n, u, hu⟩ := purge_possible hinv hpc heof
      obtain ⟨t, hleft, hrem, -, heof', hgoes⟩ := purge_round hinv hu
      obtain ⟨sizes, s', hlen, hrun, hpc'⟩ := ih (hinv.step hsize hu)
        (hgoes.2 (by omega)) (heof'.trans heof) (by omega)
      refine ⟨n :: sizes, s', by rw [List.length_cons, hlen], ?_, hpc'⟩
      rw [rounds, List.map_cons, Machine.run_cons]
      show (sessStep parser scratchSize s (.purge (.data n))).bind _ = _
      rw [hu]
      exact hrun

/-- The client closes before the body is there. -/
def cutShort : List Act :=
  [.arrive (putHead ++ text "o"), .shut, .process, .block (.data 38) true,
   .handled true]

end EspAdf.Ports.HttpdFraming
