import EspAdf.Verified.CString
import EspAdf.Verified.Machine

/-!
# `esp_http_client.c`: the body of a response

`esp_http_client_fetch_headers` gives blocks to the parser until the headers
are complete.  The bytes of the body behind them stay in the response buffer,
`raw_len` of them at `raw_data`, and `esp_http_client_read` takes these first.
Then it receives into the same buffer, and the parser's callback copies the
body to where `output_ptr` points.

`http_parser` is a parameter: for each byte it says whether it is data of the
body, and which other callbacks it makes.  Bytes of the body that follow one
another are reported by one callback.

`body_delivered_iff` says when the reads return the body: `raw_data` is where
the last callback was, but `raw_len` counts the bytes of all, and what an
earlier response has left.
-/

namespace EspAdf.Ports.HttpClientBody

open EspAdf.Verified
open EspAdf.Verified.CString

/-- A callback that is not `on_body`. -/
inductive Notice where
  | messageBegin
  /-- The value of the header `Transfer-Encoding`. -/
  | transferEncoding (value : List UInt8)
  | headersComplete (contentLength : Int)
  | messageComplete
  deriving DecidableEq, Repr

structure Parser (σ : Type) where
  init : σ
  next : σ → UInt8 → σ
  /-- The byte is data of the body. -/
  isBody : σ → UInt8 → Bool
  /-- The callbacks that the byte makes, behind `on_body`. -/
  notices : σ → UInt8 → List Notice
  /-- The headers are complete. -/
  headers : σ → Bool
  headers_init : headers init = false
  headers_next : ∀ s b, headers (next s b) =
    (headers s || (notices s b).any fun
      | .headersComplete _ => true
      | _ => false)
  body_headers : ∀ s b, isBody s b = true → headers s = true

/-- `esp_http_client_t`, its response and the response's buffer. -/
structure Client (σ : Type) where
  parser : σ
  data : List UInt8
  rawData : Nat
  rawLen : Nat
  /-- What is written at `output_ptr`. -/
  output : Option (List UInt8)
  dataProcess : Nat
  contentLength : Int
  isChunked : Bool
  isChunkComplete : Bool
  /-- The state is `HTTP_STATE_RES_COMPLETE_HEADER`. -/
  resCompleteHeader : Bool
  /-- What the server sends from now on. -/
  wire : List UInt8
  /-- What the parser was given of the response. -/
  fed : List UInt8
  deriving DecidableEq, Repr

variable {σ : Type} (P : Parser σ)

def chunked : List UInt8 := [99, 104, 117, 110, 107, 101, 100]

/-- `http_on_message_begin`, `http_on_header_value`,
`http_on_headers_complete` and `http_on_message_complete`. -/
def notice (c : Client σ) : Notice → Client σ
  | .messageBegin => { c with isChunked := false, isChunkComplete := false }
  | .transferEncoding value =>
      if value <+: chunked then { c with isChunked := true } else c
  | .headersComplete contentLength => { c with
      contentLength := contentLength
      dataProcess := 0
      resCompleteHeader := true }
  | .messageComplete => { c with isChunkComplete := true }

/-- `http_on_body`, with the position of `at` in the buffer. -/
def httpOnBody (c : Client σ) (pos length : Nat) : Client σ := { c with
  rawData := pos
  output := c.output.map (· ++ (c.data.drop pos).take length)
  dataProcess := c.dataProcess + length
  rawLen := c.rawLen + length }

/-- The body bytes in front of a position are reported, if there are any. -/
def flush (c : Client σ) (pos run : Nat) : Client σ :=
  if run = 0 then c else httpOnBody c (pos - run) run

/-- `http_parser_execute` from a position on, behind `run` body bytes that are
not reported yet. -/
def execute : List UInt8 → Nat → Nat → Client σ → Client σ
  | [], pos, run, c => flush c pos run
  | b :: block, pos, run, c =>
      let ns := P.notices c.parser b
      let c' := { c with parser := P.next c.parser b }
      if P.isBody c.parser b then
        if ns = [] then execute block (pos + 1) (run + 1) c'
        else execute block (pos + 1) 0
          (ns.foldl notice (flush c' (pos + 1) (run + 1)))
      else execute block (pos + 1) 0 (ns.foldl notice (flush c' pos run))

/-- What `esp_transport_read` gives for a buffer of `len` bytes; nothing
stands for an error. -/
def transportRead (c : Client σ) (len answer : Nat) : List UInt8 :=
  c.wire.take (min answer len)

/-- A block is received into the buffer and given to the parser. -/
def feed (c : Client σ) (block : List UInt8) : Client σ :=
  execute P block 0 0 { c with
    data := store c.data 0 block
    wire := c.wire.drop block.length
    fed := c.fed ++ block }

/-- The loop of `esp_http_client_fetch_headers`; false is `ESP_FAIL`. -/
def fetchLoop : List Nat → Client σ → Bool × Client σ
  | [], c => (c.resCompleteHeader, c)
  | answer :: answers, c =>
      if c.resCompleteHeader then (true, c)
      else
        let block := transportRead c c.data.length answer
        if block = [] then (false, c) else fetchLoop answers (feed P c block)

def espHttpClientFetchHeaders (answers : List Nat) (c : Client σ) :
    Client σ :=
  let r := fetchLoop P answers c
  if r.1 ∧ r.2.contentLength ≤ 0 then { r.2 with isChunked := true } else r.2

def dataRemains (c : Client σ) : Bool :=
  if c.isChunked then !c.isChunkComplete
  else (c.dataProcess : Int) < c.contentLength

/-- The loop of `esp_http_client_read`, with `need_read` and what is in the
caller's buffer. -/
def readLoop : List Nat → Nat → List UInt8 → Client σ →
    List UInt8 × Client σ
  | [], _, got, c => (got, c)
  | answer :: answers, need, got, c =>
      if need = 0 ∨ ¬dataRemains c then (got, c)
      else
        let block := transportRead c (min need c.data.length) answer
        if block = [] then (got, c)
        else
          let c' := feed P { c with output := some [] } block
          readLoop answers (need - c'.rawLen) (got ++ c'.output.getD [])
            { c' with rawLen := 0, output := none }

def espHttpClientRead (len : Nat) (answers : List Nat) (c : Client σ) :
    List UInt8 × Client σ :=
  let n := min c.rawLen len
  readLoop P answers (len - n) ((c.data.drop c.rawData).take n)
    { c with rawLen := c.rawLen - n, rawData := c.rawData + n }

/-- `esp_http_client_prepare`; the request is sent on the connection there is,
or on a new one. -/
def espHttpClientOpen (wire : Option (List UInt8)) (c : Client σ) :
    Client σ := { c with
  parser := P.init
  dataProcess := 0
  resCompleteHeader := false
  wire := wire.getD c.wire
  fed := [] }

inductive Act where
  | open (wire : Option (List UInt8))
  | fetchHeaders (answers : List Nat)
  | read (len : Nat) (answers : List Nat)
  deriving DecidableEq, Repr

/-- The client, what was read of the response, and whether a read has written
behind the caller's buffer. -/
structure Session (σ : Type) where
  client : Client σ
  got : List UInt8
  overrun : Bool
  deriving DecidableEq, Repr

/-- The headers of a response are fetched once. -/
def bodyMachine : Machine (Session σ) Act where
  step s
    | .open wire => some ⟨espHttpClientOpen P wire s.client, [], s.overrun⟩
    | .fetchHeaders answers =>
        if s.client.resCompleteHeader then none
        else some { s with
          client := espHttpClientFetchHeaders P answers s.client }
    | .read len answers =>
        let r := espHttpClientRead P len answers s.client
        some ⟨r.2, s.got ++ r.1, s.overrun || len < r.1.length⟩

/-! ## The body -/

/-- The body bytes of a block. -/
def bodyOf : σ → List UInt8 → List UInt8
  | _, [] => []
  | s, b :: block =>
      if P.isBody s b then b :: bodyOf (P.next s b) block
      else bodyOf (P.next s b) block

/-- Where the last callback for the body was. -/
def lastRun : σ → List UInt8 → Nat → Nat → Nat → Nat
  | _, [], pos, run, last => if run = 0 then last else pos - run
  | s, b :: block, pos, run, last =>
      if P.isBody s b then
        if P.notices s b = [] then
          lastRun (P.next s b) block (pos + 1) (run + 1) last
        else lastRun (P.next s b) block (pos + 1) 0 (pos - run)
      else lastRun (P.next s b) block (pos + 1) 0
        (if run = 0 then last else pos - run)

/-- When the block is in the buffer, the body bytes of the block stand where
the last callback was. -/
def InPlace (c : Client σ) (block : List UInt8) : Prop :=
  ((store c.data 0 block).drop
      (lastRun P c.parser block 0 0 c.rawData)).take
    (bodyOf P c.parser block).length = bodyOf P c.parser block

/-- Body bytes that one callback reports. -/
def Run : σ → List UInt8 → Prop
  | _, [] => True
  | s, b :: block =>
      P.isBody s b = true ∧ (block = [] ∨ P.notices s b = []) ∧
        Run (P.next s b) block

/-- The blocks that are received for the headers have their body in place. -/
def FetchInPlace : List Nat → Client σ → Prop
  | [], _ => True
  | answer :: answers, c =>
      let block := transportRead c c.data.length answer
      c.resCompleteHeader = true ∨ block = [] ∨
        InPlace P c block ∧ FetchInPlace answers (feed P c block)

/-- What is left in the buffer. -/
def window (c : Client σ) : List UInt8 := (c.data.drop c.rawData).take c.rawLen

/-- The body that was received. -/
def received (c : Client σ) : List UInt8 := bodyOf P P.init c.fed

/-- What was read and what is left in the buffer are the body so far; what is
left lies in the buffer, and nothing was written behind the caller's. -/
structure Delivers (s : Session σ) : Prop where
  body : s.got ++ window s.client = received P s.client
  inside : s.client.rawData + s.client.rawLen ≤ s.client.data.length
  fits : s.overrun = false

/-- Nothing is left of the response before, and the body is in place. -/
def Fresh (s : Session σ) : Act → Prop
  | .open _ => s.client.rawLen = 0
  | .fetchHeaders answers =>
      s.client.resCompleteHeader = true ∨ FetchInPlace P answers s.client
  | .read _ _ => True

/-! ## One block -/

variable {P} {c c' : Client σ} {block : List UInt8}

/-- Without what the headers and the end of the message set. -/
def core (c : Client σ) : Client σ := { c with
  dataProcess := 0
  contentLength := 0
  isChunked := false
  isChunkComplete := false
  resCompleteHeader := false }

theorem core_notices (ns : List Notice) (c : Client σ) :
    core (ns.foldl notice c) = core c := by
  induction ns generalizing c with
  | nil => rfl
  | cons n ns ih =>
      rw [List.foldl_cons, ih]
      cases n with
      | transferEncoding value =>
          rw [notice]
          split <;> rfl
      | messageBegin => rfl
      | headersComplete contentLength => rfl
      | messageComplete => rfl

theorem complete_notices (ns : List Notice) (c : Client σ) :
    (ns.foldl notice c).resCompleteHeader =
      (c.resCompleteHeader || ns.any fun
        | .headersComplete _ => true
        | _ => false) := by
  induction ns generalizing c with
  | nil => exact (Bool.or_false _).symm
  | cons n ns ih =>
      rw [List.foldl_cons, ih, List.any_cons, ← Bool.or_assoc]
      congr 1
      cases n with
      | transferEncoding value =>
          rw [notice]
          split <;> simp
      | headersComplete contentLength => simp [notice]
      | messageBegin => simp [notice]
      | messageComplete => simp [notice]

theorem flush_complete (c : Client σ) (pos run : Nat) :
    (flush c pos run).resCompleteHeader = c.resCompleteHeader := by
  rw [flush]
  split <;> rfl

theorem flush_feeds (c : Client σ) (pos run : Nat) :
    (flush c pos run).parser = c.parser := by
  rw [flush]
  split <;> rfl

theorem execute_complete (block : List UInt8) (pos run : Nat)
    (h : c.resCompleteHeader = P.headers c.parser) :
    (execute P block pos run c).resCompleteHeader =
      P.headers (block.foldl P.next c.parser) := by
  induction block generalizing pos run c with
  | nil => exact (flush_complete c pos run).trans h
  | cons b block ih =>
      have hnext (c' : Client σ) (pos' run' : Nat)
          (hparser : c'.parser = P.next c.parser b)
          (hsame : c'.resCompleteHeader = c.resCompleteHeader) :
          (execute P block (pos + 1) 0
            ((P.notices c.parser b).foldl notice
              (flush c' pos' run'))).resCompleteHeader =
            P.headers (block.foldl P.next (P.next c.parser b)) := by
        have hcore := core_notices (P.notices c.parser b) (flush c' pos' run')
        have hp : ((P.notices c.parser b).foldl notice
            (flush c' pos' run')).parser = P.next c.parser b :=
          (congrArg Client.parser hcore).trans
            ((flush_feeds c' pos' run').trans hparser)
        rw [ih, hp]
        rw [complete_notices, flush_complete, hsame, h, hp, P.headers_next]
      rw [execute, List.foldl_cons]
      split
      · split
        · rename_i hns
          refine ih _ _ ?_
          rw [P.headers_next, hns]
          exact h.trans (Bool.or_false _).symm
        · exact hnext _ _ _ rfl rfl
      · exact hnext _ _ _ rfl rfl

theorem core_flush (front back : List UInt8) (run : Nat)
    (hdata : c.data = front ++ back) (hrun : run ≤ front.length) :
    core (flush c front.length run) = core { c with
      rawData := if run = 0 then c.rawData else front.length - run
      rawLen := c.rawLen + run
      output := c.output.map (· ++ front.drop (front.length - run)) } := by
  by_cases hzero : run = 0
  · subst hzero
    have hout : c.output.map (· ++ front.drop (front.length - 0)) =
        c.output := by
      simp
    rw [hout]
    rfl
  · have htake : (c.data.drop (front.length - run)).take run =
        front.drop (front.length - run) := by
      rw [hdata, List.drop_append_of_le_length (Nat.sub_le _ _)]
      refine List.take_left' ?_
      rw [List.length_drop]
      omega
    rw [flush, if_neg hzero, if_neg hzero, httpOnBody, htake]
    rfl

/-- What a block does to the buffer and to the caller's, behind some bytes of
the body that are not reported yet. -/
def executed (P : Parser σ) (block pending : List UInt8) (pos : Nat)
    (c : Client σ) : Client σ := core { c with
  parser := block.foldl P.next c.parser
  rawData := lastRun P c.parser block pos pending.length c.rawData
  rawLen := c.rawLen + (pending ++ bodyOf P c.parser block).length
  output := c.output.map (· ++ (pending ++ bodyOf P c.parser block)) }

theorem executed_congr {pending : List UInt8} {pos : Nat}
    (h : core c = core c') :
    executed P block pending pos c = executed P block pending pos c' := by
  have hcore : ∀ d : Client σ, executed P block pending pos d =
      executed P block pending pos (core d) := fun d => rfl
  rw [hcore c, hcore c', h]

theorem execute_core (front pending block back : List UInt8)
    (hdata : c.data = front ++ (pending ++ (block ++ back))) :
    core (execute P block (front.length + pending.length) pending.length c) =
      executed P block pending (front.length + pending.length) c := by
  induction block generalizing front pending c with
  | nil =>
      have hflush := core_flush (c := c) (front ++ pending) back pending.length
        (by rw [hdata, List.append_assoc]; rfl) (by simp)
      rw [List.length_append] at hflush
      rw [execute, hflush, executed]
      simp [lastRun, bodyOf]
  | cons b block ih =>
      -- the callbacks behind the byte find no pending bytes
      have hnext (c' : Client σ) (pos' : Nat) (run' : Nat)
          (hsame : c'.data = c.data) :
          core (execute P block (front.length + pending.length + 1) 0
            ((P.notices c.parser b).foldl notice (flush c' pos' run'))) =
          executed P block [] (front.length + pending.length + 1)
            (flush c' pos' run') := by
        have hcore := core_notices (P.notices c.parser b) (flush c' pos' run')
        have hd : ((P.notices c.parser b).foldl notice
            (flush c' pos' run')).data =
              (front ++ (pending ++ [b])) ++ ([] ++ (block ++ back)) := by
          refine (congrArg Client.data hcore).trans ?_
          rw [core, flush]
          have : (if run' = 0 then c'
              else httpOnBody c' (pos' - run') run').data = c'.data := by
            split <;> rfl
          rw [this, hsame, hdata]
          simp
        have h := ih (front ++ (pending ++ [b])) [] hd
        rw [executed_congr hcore] at h
        simpa [Nat.add_assoc] using h
      rw [execute]
      split
      · rename_i hbody
        split
        · rename_i hns
          have h := ih (c := { c with parser := P.next c.parser b })
            front (pending ++ [b]) (by rw [hdata]; simp)
          rw [List.length_append, List.length_singleton, ← Nat.add_assoc] at h
          rw [h, executed, executed, List.append_assoc]
          simp [lastRun, bodyOf, hbody, hns]
        · rename_i hns
          have hflush := core_flush
            (c := { c with parser := P.next c.parser b })
            (front ++ (pending ++ [b])) (block ++ back) (pending.length + 1)
            (by rw [hdata]; simp) (by simp)
          rw [List.length_append, List.length_append, List.length_singleton,
            ← Nat.add_assoc] at hflush
          rw [hnext { c with parser := P.next c.parser b } _ _ rfl,
            executed_congr hflush, executed, executed]
          simp [core, lastRun, bodyOf, hbody, hns, Function.comp_def]
          omega
      · rename_i hbody
        have hflush := core_flush
          (c := { c with parser := P.next c.parser b })
          (front ++ pending) (b :: (block ++ back)) pending.length
          (by rw [hdata]; simp) (by simp)
        rw [List.length_append] at hflush
        rw [hnext { c with parser := P.next c.parser b } _ _ rfl,
          executed_congr hflush, executed, executed]
        simp [core, lastRun, bodyOf, hbody, Function.comp_def, Nat.add_assoc]

/-- What is known of a client after a block. -/
structure Fed (P : Parser σ) (c : Client σ) (block : List UInt8)
    (c' : Client σ) : Prop where
  parser : c'.parser = block.foldl P.next c.parser
  data : c'.data = store c.data 0 block
  rawData : c'.rawData = lastRun P c.parser block 0 0 c.rawData
  rawLen : c'.rawLen = c.rawLen + (bodyOf P c.parser block).length
  output : c'.output = c.output.map (· ++ bodyOf P c.parser block)
  fed : c'.fed = c.fed ++ block
  complete : c'.resCompleteHeader = P.headers c'.parser

theorem feed_spec (block : List UInt8)
    (h : c.resCompleteHeader = P.headers c.parser) :
    Fed P c block (feed P c block) := by
  have hcore : core (feed P c block) = executed P block [] 0 { c with
      data := store c.data 0 block
      wire := c.wire.drop block.length
      fed := c.fed ++ block } :=
    execute_core [] [] block (c.data.drop block.length) (by simp [store])
  have hparser := congrArg Client.parser hcore
  exact {
    parser := hparser
    data := congrArg Client.data hcore
    rawData := congrArg Client.rawData hcore
    rawLen := congrArg Client.rawLen hcore
    output := congrArg Client.output hcore
    fed := congrArg Client.fed hcore
    complete := by
      rw [show (feed P c block).parser = block.foldl P.next c.parser
        from hparser]
      exact execute_complete block 0 0 h }

/-! ## The parser -/

theorem bodyOf_append (s : σ) (block block' : List UInt8) :
    bodyOf P s (block ++ block') =
      bodyOf P s block ++ bodyOf P (block.foldl P.next s) block' := by
  induction block generalizing s with
  | nil => rfl
  | cons b block ih =>
      rw [List.cons_append, bodyOf, bodyOf, ih, List.foldl_cons]
      split <;> rfl

theorem length_bodyOf_le (s : σ) (block : List UInt8) :
    (bodyOf P s block).length ≤ block.length := by
  induction block generalizing s with
  | nil => exact Nat.le_refl 0
  | cons b block ih =>
      have := ih (P.next s b)
      rw [bodyOf]
      split <;> simp only [List.length_cons] <;> omega

theorem headers_of_next {s : σ} {b : UInt8}
    (h : P.headers (P.next s b) = false) : P.headers s = false := by
  rw [P.headers_next, Bool.or_eq_false_iff] at h
  exact h.1

theorem headers_of_foldl {s : σ} (block : List UInt8)
    (h : P.headers (block.foldl P.next s) = false) : P.headers s = false := by
  induction block generalizing s with
  | nil => exact h
  | cons b block ih => exact headers_of_next (ih h)

/-- There is no body in front of the headers' end. -/
theorem bodyOf_nil {s : σ} {block : List UInt8}
    (h : P.headers (block.foldl P.next s) = false) : bodyOf P s block = [] := by
  induction block generalizing s with
  | nil => rfl
  | cons b block ih =>
      have hs : P.headers s = false := headers_of_foldl (b :: block) h
      have hbody : ¬P.isBody s b = true := fun hb => by
        rw [P.body_headers s b hb] at hs
        cases hs
      rw [bodyOf, if_neg hbody, ih h]

theorem lastRun_nil {s : σ} {block : List UInt8} (h : bodyOf P s block = [])
    (pos last : Nat) : lastRun P s block pos 0 last = last := by
  induction block generalizing s pos with
  | nil => rfl
  | cons b block ih =>
      rw [bodyOf] at h
      split at h
      · cases h
      · rename_i hbody
        rw [lastRun, if_neg hbody, if_pos rfl, ih h]

theorem lastRun_le {n : Nat} (s : σ) (block : List UInt8)
    {pos run last : Nat} (hlast : last ≤ n) (hpos : pos + block.length ≤ n) :
    lastRun P s block pos run last ≤ n := by
  induction block generalizing s pos run last with
  | nil =>
      rw [lastRun]
      simp only [List.length_nil] at hpos
      split <;> omega
  | cons b block ih =>
      rw [List.length_cons] at hpos
      rw [lastRun]
      split
      · split
        · exact ih _ hlast (by omega)
        · exact ih _ (by omega) (by omega)
      · exact ih _ (by split <;> omega) (by omega)

/-! ## One callback -/

theorem bodyOf_run {s : σ} {block : List UInt8} (h : Run P s block) :
    bodyOf P s block = block := by
  induction block generalizing s with
  | nil => rfl
  | cons b block ih =>
      obtain ⟨hbody, -, hrest⟩ := h
      rw [bodyOf, if_pos hbody, ih hrest]

/-- In front of the body. -/
theorem lastRun_front {s : σ} {front : List UInt8}
    (h : bodyOf P s front = []) (rest : List UInt8) (pos last : Nat) :
    lastRun P s (front ++ rest) pos 0 last =
      lastRun P (front.foldl P.next s) rest (pos + front.length) 0 last := by
  induction front generalizing s pos with
  | nil => rfl
  | cons b front ih =>
      rw [bodyOf] at h
      split at h
      · cases h
      · rename_i hbody
        rw [List.cons_append, lastRun, if_neg hbody, if_pos rfl, ih h,
          List.length_cons, List.foldl_cons, Nat.add_right_comm]
        rfl

/-- Behind the body. -/
theorem lastRun_back {s : σ} {back : List UInt8} (h : bodyOf P s back = [])
    (pos run last : Nat) : lastRun P s back pos run last =
      if run = 0 then last else pos - run := by
  cases back with
  | nil => rfl
  | cons b back =>
      rw [bodyOf] at h
      split at h
      · cases h
      · rename_i hbody
        rw [lastRun, if_neg hbody, lastRun_nil h]

theorem lastRun_run {s : σ} {body back : List UInt8} (hne : body ≠ [])
    (hrun : Run P s body) (hback : bodyOf P (body.foldl P.next s) back = [])
    (pos run last : Nat) :
    lastRun P s (body ++ back) pos run last = pos - run := by
  induction body generalizing s pos run with
  | nil => exact absurd rfl hne
  | cons b body ih =>
      obtain ⟨hbody, hnotices, hrest⟩ := hrun
      rw [List.cons_append, lastRun, if_pos hbody]
      cases body with
      | nil =>
          change bodyOf P (P.next s b) back = [] at hback
          rw [List.nil_append, lastRun_back hback, lastRun_back hback]
          split <;> simp
      | cons b' body =>
          rw [if_pos (hnotices.resolve_left (List.cons_ne_nil _ _)),
            ih (List.cons_ne_nil _ _) hrest hback]
          omega

/-- Bytes that are reported by one callback are in place. -/
theorem inPlace_run {front body back : List UInt8}
    (hfront : bodyOf P c.parser front = [])
    (hrun : Run P (front.foldl P.next c.parser) body)
    (hback : bodyOf P ((front ++ body).foldl P.next c.parser) back = []) :
    InPlace P c (front ++ (body ++ back)) := by
  rw [List.foldl_append] at hback
  have hbody : bodyOf P c.parser (front ++ (body ++ back)) = body := by
    rw [bodyOf_append, bodyOf_append, hfront, bodyOf_run hrun, hback,
      List.append_nil, List.nil_append]
  by_cases hne : body = []
  · rw [InPlace, hbody, hne]
    rfl
  · rw [InPlace, hbody, lastRun_front hfront, lastRun_run hne hrun hback,
      Nat.zero_add, Nat.sub_zero, store, List.take_zero, List.nil_append,
      List.append_assoc, List.drop_left, List.append_assoc, List.take_left]

/-! ## The headers -/

/-- The parser is where the bytes of the response have brought it. -/
structure Sound (P : Parser σ) (c : Client σ) : Prop where
  parser : c.parser = c.fed.foldl P.next P.init
  complete : c.resCompleteHeader = P.headers c.parser
  output : c.output = none

variable {answers : List Nat}

theorem Sound.received_nil (h : Sound P c)
    (hcomplete : c.resCompleteHeader = false) : received P c = [] := by
  refine bodyOf_nil ?_
  rw [← h.parser, ← h.complete, hcomplete]

theorem Sound.next (h : Sound P c) (block : List UInt8) :
    Sound P (feed P c block) := by
  have hfed := feed_spec (P := P) block h.complete
  refine ⟨?_, hfed.complete, ?_⟩
  · rw [hfed.parser, hfed.fed, List.foldl_append, ← h.parser]
  · rw [hfed.output, h.output]
    rfl

theorem received_feed (h : Sound P c) (block : List UInt8) :
    received P (feed P c block) =
      received P c ++ bodyOf P c.parser block := by
  rw [received, (feed_spec (P := P) block h.complete).fed, bodyOf_append,
    ← h.parser]
  rfl

theorem length_transportRead (c : Client σ) (len answer : Nat) :
    (transportRead c len answer).length ≤ len := by
  rw [transportRead, List.length_take]
  omega

theorem length_feed (h : Sound P c) (hlen : block.length ≤ c.data.length) :
    (feed P c block).data.length = c.data.length := by
  rw [(feed_spec (P := P) block h.complete).data,
    length_store (by rw [Nat.zero_add]; exact hlen)]

/-- Before the headers are complete a block leaves nothing. -/
theorem feed_head (h : Sound P c) (hraw : c.rawLen = 0)
    (hcomplete : (feed P c block).resCompleteHeader = false) :
    (feed P c block).rawLen = 0 ∧ (feed P c block).rawData = c.rawData ∧
      InPlace P c block := by
  have hfed := feed_spec (P := P) block h.complete
  have hbody : bodyOf P c.parser block = [] := by
    refine bodyOf_nil ?_
    rw [← hfed.parser, ← hfed.complete, hcomplete]
  refine ⟨?_, ?_, ?_⟩
  · rw [hfed.rawLen, hbody, hraw]
    rfl
  · rw [hfed.rawData, lastRun_nil hbody]
  · rw [InPlace, hbody]
    rfl

/-- The block that ends the headers leaves its body, exactly if this is in
place. -/
theorem feed_last (h : Sound P c) (hcomplete : c.resCompleteHeader = false)
    (hraw : c.rawLen = 0) (hin : c.rawData ≤ c.data.length)
    (hlen : block.length ≤ c.data.length) :
    InPlace P c block ↔
      window (feed P c block) = received P (feed P c block) ∧
      (feed P c block).rawData + (feed P c block).rawLen ≤
        (feed P c block).data.length := by
  have hfed := feed_spec (P := P) block h.complete
  have hwindow : window (feed P c block) = received P (feed P c block) ↔
      InPlace P c block := by
    rw [window, hfed.data, hfed.rawData, hfed.rawLen, hraw, Nat.zero_add,
      received_feed h, h.received_nil hcomplete]
    exact Iff.rfl
  rw [hwindow]
  refine (and_iff_left_of_imp fun hplace => ?_).symm
  have hle : lastRun P c.parser block 0 0 c.rawData ≤ c.data.length :=
    lastRun_le c.parser block hin (by rw [Nat.zero_add]; exact hlen)
  rw [length_feed h hlen, hfed.rawData, hfed.rawLen, hraw, Nat.zero_add]
  have hlength := congrArg List.length hplace
  rw [List.length_take, List.length_drop,
    length_store (by rw [Nat.zero_add]; exact hlen)] at hlength
  omega

/-- The loop of `esp_http_client_fetch_headers`. -/
theorem fetchLoop_spec (answers : List Nat) (h : Sound P c)
    (hcomplete : c.resCompleteHeader = false) (hraw : c.rawLen = 0)
    (hin : c.rawData ≤ c.data.length) :
    Sound P (fetchLoop P answers c).2 ∧
    (FetchInPlace P answers c ↔
      window (fetchLoop P answers c).2 = received P (fetchLoop P answers c).2 ∧
      (fetchLoop P answers c).2.rawData + (fetchLoop P answers c).2.rawLen ≤
        (fetchLoop P answers c).2.data.length) := by
  have hnone : window c = received P c ∧
      c.rawData + c.rawLen ≤ c.data.length := by
    rw [window, hraw, h.received_nil hcomplete]
    exact ⟨List.take_zero, hin⟩
  induction answers generalizing c with
  | nil => exact ⟨h, iff_of_true trivial hnone⟩
  | cons answer answers ih =>
      have hnot : ¬c.resCompleteHeader = true := by simp [hcomplete]
      rw [FetchInPlace, fetchLoop, if_neg hnot, or_iff_right hnot]
      by_cases hblock : transportRead c c.data.length answer = []
      · simp only [hblock, if_true]
        exact ⟨h, iff_of_true (.inl trivial) hnone⟩
      · have hlen := length_transportRead c c.data.length answer
        simp only [if_neg hblock, or_iff_right hblock]
        generalize transportRead c c.data.length answer = block at hlen
        cases hnext : (feed P c block).resCompleteHeader with
        | true =>
            have hloop : fetchLoop P answers (feed P c block) =
                (true, feed P c block) := by
              cases answers with
              | nil => rw [fetchLoop, hnext]
              | cons answer' answers => rw [fetchLoop, if_pos hnext]
            have hrest : FetchInPlace P answers (feed P c block) := by
              cases answers with
              | nil => trivial
              | cons answer' answers => exact .inl hnext
            rw [hloop, and_iff_left hrest]
            exact ⟨h.next block, feed_last h hcomplete hraw hin hlen⟩
        | false =>
            obtain ⟨hraw', hdata', hplace⟩ := feed_head h hraw hnext
            have hin' : (feed P c block).rawData ≤
                (feed P c block).data.length := by
              rw [hdata', length_feed h hlen]
              exact hin
            rw [and_iff_right hplace]
            refine ih (h.next block) hnext hraw' hin' ?_
            rw [window, hraw', (h.next block).received_nil hnext]
            exact ⟨List.take_zero, hin'⟩

/-! ## Reading -/

/-- `part` was received, and nothing is left in the buffer. -/
structure Reads (P : Parser σ) (c : Client σ) (part : List UInt8)
    (c' : Client σ) : Prop where
  sound : Sound P c'
  received : received P c' = received P c ++ part
  rawLen : c'.rawLen = 0
  inside : c'.rawData ≤ c'.data.length

theorem Reads.refl (h : Sound P c) (hraw : c.rawLen = 0)
    (hin : c.rawData ≤ c.data.length) : Reads P c [] c :=
  ⟨h, (List.append_nil _).symm, hraw, hin⟩

/-- A block that is received for a read. -/
theorem reads_block (block : List UInt8) (h : Sound P c) (hraw : c.rawLen = 0)
    (hin : c.rawData ≤ c.data.length) (hlen : block.length ≤ c.data.length) :
    ∃ c₁, feed P { c with output := some [] } block = c₁ ∧
      c₁.output.getD [] = bodyOf P c.parser block ∧
      c₁.rawLen = (bodyOf P c.parser block).length ∧
      Reads P c (bodyOf P c.parser block)
        { c₁ with rawLen := 0, output := none } := by
  have hfed := feed_spec (P := P) (c := { c with output := some [] })
    block h.complete
  refine ⟨_, rfl, ?_, ?_, ⟨⟨?_, hfed.complete, rfl⟩, ?_, rfl, ?_⟩⟩
  · rw [hfed.output]
    rfl
  · rw [hfed.rawLen, hraw, Nat.zero_add]
  · show (feed P { c with output := some [] } block).parser = _
    rw [hfed.parser, hfed.fed, List.foldl_append, ← h.parser]
  · rw [received, hfed.fed, bodyOf_append, ← h.parser]
    rfl
  · show (feed P { c with output := some [] } block).rawData ≤
      (feed P { c with output := some [] } block).data.length
    rw [hfed.rawData, hfed.data, length_store (by simpa using hlen)]
    exact lastRun_le c.parser block hin (by rw [Nat.zero_add]; exact hlen)

theorem readLoop_spec (answers : List Nat) (h : Sound P c)
    (hraw : c.rawLen = 0) (hin : c.rawData ≤ c.data.length) (need : Nat)
    (got : List UInt8) :
    ∃ part c', readLoop P answers need got c = (got ++ part, c') ∧
      part.length ≤ need ∧ Reads P c part c' := by
  induction answers generalizing c need got with
  | nil =>
      exact ⟨[], c, by rw [readLoop, List.append_nil], Nat.zero_le _,
        .refl h hraw hin⟩
  | cons answer answers ih =>
      rw [readLoop]
      split
      · exact ⟨[], c, by rw [List.append_nil], Nat.zero_le _,
          .refl h hraw hin⟩
      · have hlen := length_transportRead c (min need c.data.length) answer
        dsimp only
        split
        · exact ⟨[], c, by rw [List.append_nil], Nat.zero_le _,
            .refl h hraw hin⟩
        · generalize transportRead c (min need c.data.length) answer = block
            at hlen
          have hbody := length_bodyOf_le (P := P) c.parser block
          obtain ⟨c₁, hfeed, hout, hrawLen, hreads⟩ :=
            reads_block block h hraw hin (by omega)
          rw [hfeed, hout, hrawLen]
          obtain ⟨part, c', hloop, hpart, hrest⟩ := ih hreads.sound rfl
            hreads.inside (need - (bodyOf P c.parser block).length)
            (got ++ bodyOf P c.parser block)
          refine ⟨bodyOf P c.parser block ++ part, c', ?_, ?_, hrest.sound, ?_,
            hrest.rawLen, hrest.inside⟩
          · rw [hloop, List.append_assoc]
          · rw [List.length_append]
            omega
          · rw [hrest.received, hreads.received, List.append_assoc]

/-- What a read returns is what follows. -/
theorem read_spec (len : Nat) (answers : List Nat) (h : Sound P c)
    (hin : c.rawData + c.rawLen ≤ c.data.length) :
    ∃ part c', espHttpClientRead P len answers c = (part, c') ∧
      part.length ≤ len ∧ Sound P c' ∧
      (∀ got, got ++ window c = received P c →
        got ++ part ++ window c' = received P c') ∧
      c'.rawData + c'.rawLen ≤ c'.data.length := by
  have hfirst : ((c.data.drop c.rawData).take (min c.rawLen len)).length =
      min c.rawLen len := by
    rw [List.length_take, List.length_drop]
    omega
  rw [espHttpClientRead]
  obtain hlt | hle := Nat.lt_or_ge len c.rawLen
  · have hmin : min c.rawLen len = len := by omega
    have hloop : ∀ got (c' : Client σ),
        readLoop P answers (len - len) got c' = (got, c') := by
      intro got c'
      cases answers with
      | nil => rfl
      | cons answer answers => rw [readLoop, if_pos (.inl (Nat.sub_self _))]
    rw [hmin] at hfirst ⊢
    refine ⟨_, _, hloop _ _, by omega, ⟨h.parser, h.complete, h.output⟩,
      fun got hgot => ?_, by dsimp only; omega⟩
    have hsplit : (c.data.drop c.rawData).take len ++
        (c.data.drop (c.rawData + len)).take (c.rawLen - len) = window c := by
      rw [window, ← List.drop_drop, ← List.take_add]
      congr 1
      omega
    rw [window, List.append_assoc, hsplit]
    exact hgot
  · rw [Nat.min_eq_left hle] at hfirst ⊢
    obtain ⟨part, c', hloop, hpart, hreads⟩ := readLoop_spec (P := P)
      (c := { c with
        rawLen := c.rawLen - c.rawLen
        rawData := c.rawData + c.rawLen }) answers
      ⟨h.parser, h.complete, h.output⟩ (Nat.sub_self _) hin
      (len - c.rawLen) ((c.data.drop c.rawData).take c.rawLen)
    refine ⟨_, c', hloop, ?_, hreads.sound, fun got hgot => ?_, ?_⟩
    · rw [List.length_append]
      omega
    · have hnone : window c' = [] := by
        rw [window, hreads.rawLen, List.take_zero]
      rw [hnone, List.append_nil, hreads.received, ← List.append_assoc]
      exact congrArg (· ++ part) hgot
    · rw [hreads.rawLen]
      exact hreads.inside

/-! ## Runs -/

/-- Nothing was received, and nothing is in the buffer. -/
def start (P : Parser σ) (data : List UInt8) : Session σ :=
  ⟨⟨P.init, data, 0, 0, none, 0, 0, false, false, false, [], []⟩, [], false⟩

theorem delivers_open {s : Session σ} (hd : Delivers P s)
    (wire : Option (List UInt8)) :
    s.client.rawLen = 0 ↔
      Delivers P ⟨espHttpClientOpen P wire s.client, [], s.overrun⟩ := by
  have hlength : (window s.client).length = s.client.rawLen := by
    have := hd.inside
    rw [window, List.length_take, List.length_drop]
    omega
  constructor
  · intro hraw
    refine ⟨?_, hd.inside, hd.fits⟩
    exact List.length_eq_zero_iff.1 (hlength.trans hraw)
  · intro h
    rw [← hlength]
    exact congrArg List.length h.body

theorem fetch_spec {s : Session σ} (answers : List Nat)
    (h : Sound P s.client) (hd : Delivers P s)
    (hcomplete : s.client.resCompleteHeader = false) :
    Sound P (espHttpClientFetchHeaders P answers s.client) ∧
    (FetchInPlace P answers s.client ↔ Delivers P { s with
      client := espHttpClientFetchHeaders P answers s.client }) := by
  have hbody := hd.body
  rw [h.received_nil hcomplete, List.append_eq_nil_iff] at hbody
  have hraw : s.client.rawLen = 0 := by
    have hlength := congrArg List.length hbody.2
    have := hd.inside
    rw [window, List.length_take, List.length_drop] at hlength
    simp only [List.length_nil] at hlength
    omega
  obtain ⟨hsound, hiff⟩ := fetchLoop_spec answers h hcomplete
    hraw (Nat.le_trans (Nat.le_add_right _ _) hd.inside)
  rw [espHttpClientFetchHeaders]
  generalize fetchLoop P answers s.client = r at hsound hiff
  have hchunked : ∀ c : Client σ, Sound P c →
      Sound P { c with isChunked := true } :=
    fun c hc => ⟨hc.parser, hc.complete, hc.output⟩
  have hdelivers : ∀ c : Client σ, Delivers P { s with client := c } ↔
      window c = received P c ∧ c.rawData + c.rawLen ≤ c.data.length := by
    refine fun c => ⟨fun hc => ⟨?_, hc.inside⟩,
      fun hc => ⟨?_, hc.2, hd.fits⟩⟩
    · have := hc.body
      rwa [hbody.1, List.nil_append] at this
    · rw [hbody.1, List.nil_append]
      exact hc.1
  split
  · exact ⟨hchunked _ hsound,
      hiff.trans (hdelivers { r.2 with isChunked := true }).symm⟩
  · exact ⟨hsound, hiff.trans (hdelivers r.2).symm⟩

/-- One step, from a state in which the body is delivered. -/
theorem step_spec {s : Session σ} (h : Sound P s.client) (hd : Delivers P s)
    (a : Act) :
    (∀ t, (bodyMachine P).step s a = some t → Sound P t.client) ∧
    (Fresh P s a ↔ ∀ t, (bodyMachine P).step s a = some t → Delivers P t) := by
  cases a with
  | «open» wire =>
      constructor
      · rintro t ht
        cases ht
        exact ⟨rfl, P.headers_init.symm, h.output⟩
      · rw [Fresh, delivers_open hd wire]
        exact ⟨fun hopen t ht => by cases ht; exact hopen,
          fun hall => hall _ rfl⟩
  | fetchHeaders answers =>
      cases hcomplete : s.client.resCompleteHeader with
      | true =>
          have hstep : (bodyMachine P).step s (.fetchHeaders answers) = none :=
            if_pos hcomplete
          rw [hstep]
          exact ⟨fun t ht => (by cases ht),
            iff_of_true (.inl hcomplete) fun t ht => (by cases ht)⟩
      | false =>
          have hnot : ¬s.client.resCompleteHeader = true := by simp [hcomplete]
          have hstep : (bodyMachine P).step s (.fetchHeaders answers) = some
              { s with
                client := espHttpClientFetchHeaders P answers s.client } :=
            if_neg hnot
          obtain ⟨hsound, hiff⟩ := fetch_spec answers h hd hcomplete
          rw [hstep, Fresh, or_iff_right hnot, hiff]
          exact ⟨fun t ht => by cases ht; exact hsound,
            fun hdel t ht => by cases ht; exact hdel, fun hall => hall _ rfl⟩
  | read len answers =>
      obtain ⟨part, c', hread, hpart, hsound, hbody, hin⟩ :=
        read_spec len answers h hd.inside
      have hstep : (bodyMachine P).step s (.read len answers) = some
          ⟨c', s.got ++ part, s.overrun || len < part.length⟩ := by
        show some _ = _
        rw [hread]
      rw [hstep]
      refine ⟨fun t ht => by cases ht; exact hsound,
        iff_of_true trivial fun t ht => ?_⟩
      cases ht
      refine ⟨hbody s.got hd.body, hin, ?_⟩
      have hfits : ¬len < part.length := Nat.not_lt.2 hpart
      simp [hd.fits, hfits]

/-- **The body is delivered.**  Along every run the bytes that were read of a
response and those that are left in the buffer are the body that was received,
no read writes behind the caller's buffer or takes bytes from behind the
client's: exactly if no response is begun before the bytes left of the one
before are read, and the body that comes with the headers stands where the
last callback was.  It does if one callback reports it. -/
theorem body_delivered_iff (P : Parser σ) (data : List UInt8)
    (acts : List Act) :
    ((∀ as, as <+: acts → ∀ s,
        (bodyMachine P).run (start P data) as = some s → Delivers P s) ↔
      (bodyMachine P).Meets (Fresh P) (start P data) acts) ∧
    ∀ (c : Client σ) (front body back : List UInt8),
      bodyOf P c.parser front = [] →
      Run P (front.foldl P.next c.parser) body →
      bodyOf P ((front ++ body).foldl P.next c.parser) back = [] →
      InPlace P c (front ++ (body ++ back)) := by
  refine ⟨Iff.symm ?_, fun c front body back => inPlace_run⟩
  refine Machine.meets_iff_always (B := fun s => Sound P s.client)
    (fun s a t h hd => (step_spec h hd a).1 t)
    (fun s a h hd => (step_spec h hd a).2)
    ⟨rfl, P.headers_init.symm, rfl⟩ ?_ acts
  exact ⟨rfl, Nat.zero_le _, rfl⟩

/-- A head of one line, and chunks that a zero separates. -/
def chunks : Parser Bool where
  init := false
  next s b := s || b == 10
  isBody s b := s && b != 0
  notices s b := if !s && b == 10 then [.headersComplete (-1)] else []
  headers s := s
  headers_init := rfl
  headers_next s b := by cases s <;> cases b == 10 <;> rfl
  body_headers s b h := by simp at h; exact h.1

/-- Of two chunks that come with the headers the second is read, and what is
behind it. -/
example : ((bodyMachine chunks).run (start chunks (List.replicate 6 0))
    [.open (some [10, 1, 0, 2]), .fetchHeaders [6], .read 2 []]).map
      Session.got = some [2, 0] := by decide

end EspAdf.Ports.HttpClientBody
