import EspAdf.Ports.RingBufLock

/-!
# What `rb_read` and `rb_write` return, and what they have moved

A call moves its bytes in several locked sections and adds them up in
`total_read_size` or `total_write_size`.  At the end it returns the total, or
`ret_val` when the total is zero.  But a call that has looked at a set abort
flag returns `RB_ABORT` even when it has moved bytes before.

Two counters beside the ring count what the copies of the present call move,
and two bits say whether it looked at a set abort flag.  `returns_moved`
proves, for every interleaving of the single accesses of all tasks, that a
call without the bit returns `n > 0` exactly when it moved `n` bytes, and
nothing positive only if it moved nothing; and that a call with the bit
returns `RB_ABORT`.
-/

namespace EspAdf.Ports.RingBufReturns

open EspAdf.Verified
open EspAdf.Ports.RingBuf
open EspAdf.Ports.RingBufTasks
open EspAdf.Ports.RingBufLock

/-! ## The system -/

/-- History of a call: the number of bytes it has copied, and whether it found
its abort flag set. -/
structure Entry where
  moved : Nat
  aborted : Bool
  deriving DecidableEq, Repr

structure Ledger where
  fine : Fine
  read : Entry
  write : Entry
  deriving DecidableEq, Repr

def Ledger.reader (s : Ledger) : ReadCall := s.fine.sys.reader

def Ledger.writer (s : Ledger) : WriteCall := s.fine.sys.writer

def Ledger.start (rb : Ringbuf) : Ledger := ⟨.start rb, ⟨0, false⟩, ⟨0, false⟩⟩

/-- The reader's entry after an action that leads to `t`. -/
def readEntry (s : Ledger) (t : Fine) : FineAct → Entry
  | .call (.readStart _ _ _) => ⟨0, false⟩
  | .call .readStep =>
      ⟨s.read.moved + (t.removed - s.fine.removed),
        s.read.aborted ||
          (decide (s.reader.pc = .testAbort) && s.fine.sys.rb.abortRead)⟩
  | _ => s.read

def writeEntry (s : Ledger) (t : Fine) : FineAct → Entry
  | .call (.writeStart _ _) => ⟨0, false⟩
  | .call .writeStep =>
      ⟨s.write.moved + (t.written - s.fine.written),
        s.write.aborted ||
          (decide (s.writer.pc = .testAbort) && s.fine.sys.rb.abortWrite)⟩
  | _ => s.write

def ledgerMachine : Machine Ledger FineAct where
  step s a := (fineStep s.fine a).map fun t =>
    ⟨t, readEntry s t a, writeEntry s t a⟩

/-! ## The property -/

/-- What a return value says about a call. -/
structure Accounts (e : Entry) (result : Int) : Prop where
  moved : e.aborted = false → ∀ n : Nat, 0 < n → (result = n ↔ e.moved = n)
  nothing : e.aborted = false → result ≤ 0 → e.moved = 0
  aborted : e.aborted = true → result = RB_ABORT

/-- The last calls have returned what they moved. -/
def Accounted (s : Ledger) : Prop :=
  (s.reader.pc = .idle → Accounts s.read s.reader.result) ∧
    (s.writer.pc = .idle → Accounts s.write s.writer.result)

/-! ## The books -/

/-- `ret_val` and the total of a call, and what it has copied and not added
yet, against its entry. -/
structure Booked (retVal : Int) (total pending : Nat) (e : Entry) : Prop where
  moved : e.moved = total + pending
  aborted : e.aborted = true ↔ retVal = RB_ABORT
  codes : retVal = 0 ∨ retVal = RB_DONE ∨ retVal = RB_ABORT ∨
    retVal = RB_TIMEOUT

theorem Booked.start : Booked 0 0 0 ⟨0, false⟩ :=
  ⟨rfl, by decide, .inl rfl⟩

/-- The common end of `rb_read` and `rb_write`. -/
theorem Booked.accounts {retVal : Int} {total : Nat} {e : Entry}
    (h : Booked retVal total 0 e) :
    Accounts e
      (let sum : Int := if retVal = RB_FAIL ∨ retVal = RB_ABORT then retVal
        else total
      if sum > 0 then sum else retVal) := by
  have hmoved : e.moved = total := h.moved
  have hgood : e.aborted = false →
      ¬(retVal = RB_FAIL ∨ retVal = RB_ABORT) ∧ retVal ≤ 0 := by
    intro hno
    have hne : retVal ≠ RB_ABORT := by
      intro heq
      rw [h.aborted.2 heq] at hno
      cases hno
    have hcodes := h.codes
    simp only [RB_FAIL, RB_DONE, RB_ABORT, RB_TIMEOUT] at *
    omega
  dsimp only
  refine ⟨fun hno n hn => ?_, fun hno hle => ?_, fun hyes => ?_⟩
  · rw [if_neg (hgood hno).1, hmoved]
    have hle := (hgood hno).2
    split <;> omega
  · rw [if_neg (hgood hno).1] at hle
    rw [hmoved]
    split at hle <;> omega
  · have heq := h.aborted.1 hyes
    have hor : RB_ABORT = RB_FAIL ∨ RB_ABORT = RB_ABORT := .inr rfl
    rw [heq, if_pos hor, ite_self]

/-- Inside the loop `ret_val` is as at the beginning. -/
def ReadLooping (c : ReadCall) : Prop :=
  c.pc ≠ .idle ∧ c.pc ≠ .readErr ∧ c.pc ≠ .clearUnblock

def WriteLooping (c : WriteCall) : Prop := c.pc ≠ .idle ∧ c.pc ≠ .writeErr

structure ReadInv (s : Ledger) : Prop where
  inside : s.fine.readIn ≠ none → s.reader.pc = .takeLock
  looping : ReadLooping s.reader → s.reader.retVal = 0
  booked : Booked s.reader.retVal s.reader.totalReadSize
    (pendingRead s.fine.readIn) s.read

structure WriteInv (s : Ledger) : Prop where
  inside : s.fine.writeIn ≠ none → s.writer.pc = .takeLock
  looping : WriteLooping s.writer → s.writer.retVal = 0
  booked : Booked s.writer.retVal s.writer.totalWriteSize
    (pendingWrite s.fine.writeIn) s.write

/-- A call is inside the section only with the lock to take. -/
theorem ReadInv.outside {s : Ledger} (h : ReadInv s)
    (hpc : s.reader.pc ≠ .takeLock) : s.fine.readIn = none := by
  by_contra hsome
  exact hpc (h.inside hsome)

theorem WriteInv.outside {s : Ledger} (h : WriteInv s)
    (hpc : s.writer.pc ≠ .takeLock) : s.fine.writeIn = none := by
  by_contra hsome
  exact hpc (h.inside hsome)

/-! ## The reader -/

/-- One access of the section: the total, what is pending and what is copied
add up, and the call stays in its loop unless the request is served. -/
theorem readSectNext_books {rb : Ringbuf} {c : ReadCall} {p : ReadSect}
    {r : SectResult ReadCall ReadSect} (h : readSectNext rb c p = some r) :
    r.call.retVal = c.retVal ∧
      r.call.totalReadSize + pendingRead r.next =
        c.totalReadSize + pendingRead (some p) + r.count ∧
      (r.next ≠ none → r.call.pc = c.pc) := by
  cases p with
  | test =>
      obtain rfl := Option.some.inj h
      refine ⟨rfl, ?_, fun _ => rfl⟩
      dsimp only
      split
      · rfl
      · rw [pendingRead_sized]
        rfl
  | loadSize =>
      obtain rfl := Option.some.inj h
      refine ⟨rfl, ?_, fun _ => rfl⟩
      rw [pendingRead_sized]
      rfl
  | giveEmpty =>
      obtain rfl := Option.some.inj h
      exact ⟨rfl, rfl, fun hno => absurd rfl hno⟩
  | copy n =>
      simp only [readSectNext, Option.bind_eq_bind,
        Option.bind_eq_some_iff] at h
      obtain ⟨⟨rb', out⟩, -, h⟩ := h
      obtain rfl := Option.some.inj h
      exact ⟨rfl, rfl, fun _ => rfl⟩
  | loadFill n =>
      obtain rfl := Option.some.inj h
      exact ⟨rfl, rfl, fun _ => rfl⟩
  | storeFill n v =>
      obtain rfl := Option.some.inj h
      exact ⟨rfl, rfl, fun _ => rfl⟩
  | give =>
      obtain rfl := Option.some.inj h
      exact ⟨rfl, rfl, fun hno => absurd rfl hno⟩

/-- A call that leaves its loop with another value than `RB_ABORT`. -/
theorem Booked.leave {total : Nat} {e : Entry} {retVal : Int}
    (h : Booked 0 total 0 e) (hr : retVal = RB_DONE ∨ retVal = RB_TIMEOUT) :
    Booked retVal total 0 e where
  moved := h.moved
  aborted := by
    have hno : ¬e.aborted = true := fun hyes => by
      have habort := h.aborted.1 hyes
      cases habort
    refine ⟨fun hyes => absurd hyes hno, fun habort => ?_⟩
    rcases hr with rfl | rfl <;> cases habort
  codes := by
    rcases hr with rfl | rfl
    · exact .inr (.inl rfl)
    · exact .inr (.inr (.inr rfl))

/-- A call that leaves its loop since its abort flag is set. -/
theorem Booked.abort {total : Nat} {e : Entry} (h : Booked 0 total 0 e) :
    Booked RB_ABORT total 0 ⟨e.moved, true⟩ where
  moved := h.moved
  aborted := ⟨fun _ => rfl, fun _ => rfl⟩
  codes := .inr (.inr (.inl rfl))

/-- One access of a locked section: what it copies is pending until it is added
to the total. -/
theorem Booked.sect {retVal : Int} {total total' pending pending' count : Nat}
    {e : Entry} (h : Booked retVal total pending e)
    (hsum : total' + pending' = total + pending + count) :
    Booked retVal total' pending' ⟨e.moved + count, e.aborted⟩ where
  moved := by
    have hmoved := h.moved
    show e.moved + count = total' + pending'
    omega
  aborted := h.aborted
  codes := h.codes

/-- Outside the section nothing is copied, and `ret_val` is set once. -/
theorem books_of_readMove {rb rb' : Ringbuf} {c c' : ReadCall}
    {out : List Byte} {e : Entry} (hm : ReadMove rb c rb' c' out)
    (hpc : c.pc ≠ .takeLock) (hloop : ReadLooping c → c.retVal = 0)
    (hb : Booked c.retVal c.totalReadSize 0 e) :
    (ReadLooping c' → c'.retVal = 0) ∧
      Booked c'.retVal c'.totalReadSize 0
        ⟨e.moved, e.aborted || (decide (c.pc = .testAbort) && rb.abortRead)⟩ := by
  have hzero : c.pc = .testDone ∨ c.pc = .testAbort ∨ c.pc = .testUnblock ∨
      c.pc = .takeCanRead → c.retVal = 0 := by
    intro hin
    apply hloop
    rcases hin with hp | hp | hp | hp <;> simp [ReadLooping, hp]
  cases hm with
  | nothing hp _ => exact absurd hp hpc
  | moved p hp _ _ _ => exact absurd hp hpc
  | gotDone hp _ =>
      rw [hzero (.inl hp)] at hb
      refine ⟨fun hin => absurd rfl hin.2.1, ?_⟩
      simpa [hp] using hb.leave (.inl rfl)
  | gotAbort hp hflag =>
      rw [hzero (.inr (.inl hp))] at hb
      refine ⟨fun hin => absurd rfl hin.2.1, ?_⟩
      simpa [hp, hflag] using hb.abort
  | gotUnblock hp _ =>
      rw [hzero (.inr (.inr (.inl hp)))] at hb
      refine ⟨fun hin => absurd rfl hin.2.1, ?_⟩
      simpa [hp] using hb.leave (.inr rfl)
  | notDone hp _ =>
      exact ⟨fun _ => hzero (.inl hp), by simpa [hp] using hb⟩
  | notAbort hp hflag =>
      exact ⟨fun _ => hzero (.inr (.inl hp)), by simpa [hflag] using hb⟩
  | notUnblock hp _ =>
      exact ⟨fun _ => hzero (.inr (.inr (.inl hp))), by simpa [hp] using hb⟩
  | took hp _ =>
      exact ⟨fun _ => hzero (.inr (.inr (.inr hp))), by simpa [hp] using hb⟩
  | gave hp _ =>
      exact ⟨fun hin => absurd rfl hin.2.2, by simpa [hp] using hb⟩
  | kept hp _ =>
      exact ⟨fun hin => absurd rfl hin.2.2, by simpa [hp] using hb⟩
  | returned hp =>
      exact ⟨fun hin => absurd rfl hin.1, by simpa [hp] using hb⟩

/-- The reader's task moves on. -/
theorem ReadInv.readStep {s : Ledger} {t : Fine} (h : ReadInv s)
    (hs : readFine s.fine = some t) :
    ReadInv ⟨t, readEntry s t (.call .readStep), s.write⟩ := by
  have hbooked := h.booked
  rw [readFine] at hs
  cases hin : s.fine.readIn with
  | some p =>
      have hpc : s.fine.sys.reader.pc = .takeLock :=
        h.inside (by rw [hin]; simp)
      have hret : s.fine.sys.reader.retVal = 0 :=
        h.looping (by simp [ReadLooping, Ledger.reader, hpc])
      simp only [hin, Option.bind_eq_bind, Option.bind_eq_some_iff] at hs
      obtain ⟨r, hr, hs⟩ := hs
      obtain rfl := Option.some.inj hs
      obtain ⟨hval, htotal, hnext⟩ := readSectNext_books hr
      rw [hin] at hbooked
      refine ⟨fun hsome => (hnext hsome).trans hpc,
        fun _ => hval.trans hret, ?_⟩
      have hsect := hbooked.sect htotal
      rw [Ledger.reader, ← hval] at hsect
      simpa [readEntry, Ledger.reader, hpc] using hsect
  | none =>
      rw [hin] at hbooked
      simp only [hin] at hs
      split at hs
      · rename_i hpc
        split at hs
        · obtain rfl := Option.some.inj hs
          refine ⟨fun _ => hpc, h.looping, ?_⟩
          simpa [readEntry, Ledger.reader, hpc, pendingRead] using hbooked
        · cases hs
      · rename_i hpc
        rw [Option.map_eq_some_iff] at hs
        obtain ⟨u, hu, rfl⟩ := hs
        obtain ⟨rb, c, out, hn, rfl⟩ := sysStep_readNext hu
        have hbooks := books_of_readMove (readNext_unlocked hpc hn) hpc
          h.looping hbooked
        refine ⟨fun hsome => absurd rfl hsome, hbooks.1, ?_⟩
        rw [readEntry, Nat.sub_self, Nat.add_zero]
        exact hbooks.2

/-- The actions that move the reader's call. -/
def ofReader : FineAct → Bool
  | .call (.readStart _ _ _) => true
  | .call .readStep => true
  | .call .readTimeout => true
  | _ => false

def ofWriter : FineAct → Bool
  | .call (.writeStart _ _) => true
  | .call .writeStep => true
  | .call .writeTimeout => true
  | _ => false

theorem writeFine_reader {s t : Fine} (h : writeFine s = some t) :
    t.sys.reader = s.sys.reader ∧ t.readIn = s.readIn := by
  rw [writeFine] at h
  split at h
  · simp only [Option.bind_eq_bind, Option.bind_eq_some_iff] at h
    obtain ⟨r, -, h⟩ := h
    obtain rfl := Option.some.inj h
    exact ⟨rfl, rfl⟩
  · split at h
    · rw [Option.ite_none_right_eq_some] at h
      obtain rfl := Option.some.inj h.2
      exact ⟨rfl, rfl⟩
    · rw [Option.map_eq_some_iff] at h
      obtain ⟨u, hu, rfl⟩ := h
      obtain ⟨rb, c, bytes, -, rfl⟩ := sysStep_writeNext hu
      exact ⟨rfl, rfl⟩

theorem readFine_writer {s t : Fine} (h : readFine s = some t) :
    t.sys.writer = s.sys.writer ∧ t.writeIn = s.writeIn := by
  rw [readFine] at h
  split at h
  · simp only [Option.bind_eq_bind, Option.bind_eq_some_iff] at h
    obtain ⟨r, -, h⟩ := h
    obtain rfl := Option.some.inj h
    exact ⟨rfl, rfl⟩
  · split at h
    · rw [Option.ite_none_right_eq_some] at h
      obtain rfl := Option.some.inj h.2
      exact ⟨rfl, rfl⟩
    · rw [Option.map_eq_some_iff] at h
      obtain ⟨u, hu, rfl⟩ := h
      obtain ⟨rb, c, out, -, rfl⟩ := sysStep_readNext hu
      exact ⟨rfl, rfl⟩

/-- A control call moves neither, and a call that begins or times out moves
only itself. -/
theorem fineStep_others {s t : Fine} {a : FineAct}
    (hread : a ≠ .call .readStep) (hwrite : a ≠ .call .writeStep)
    (h : fineStep s a = some t) :
    t.readIn = s.readIn ∧ t.writeIn = s.writeIn ∧
      (ofReader a = false → t.sys.reader = s.sys.reader) ∧
      (ofWriter a = false → t.sys.writer = s.sys.writer) := by
  cases a with
  | reset =>
      obtain rfl := Option.some.inj h
      exact ⟨rfl, rfl, fun _ => rfl, fun _ => rfl⟩
  | call b =>
      cases b with
      | readStep => contradiction
      | writeStep => contradiction
      | ctlStart c =>
          obtain rfl := Option.some.inj h
          exact ⟨rfl, rfl, fun _ => rfl, fun _ => rfl⟩
      | _ =>
          obtain ⟨u, hu, rfl⟩ := Option.map_eq_some_iff.1 h
          obtain ⟨hreader, hwriter⟩ := sysStep_calls hu
          exact ⟨rfl, rfl, hreader, hwriter⟩

/-- Nobody but its task moves a call. -/
theorem fineStep_reader {s t : Fine} {a : FineAct} (ha : ofReader a = false)
    (h : fineStep s a = some t) :
    t.sys.reader = s.sys.reader ∧ t.readIn = s.readIn := by
  by_cases hwrite : a = .call .writeStep
  · subst hwrite
    exact writeFine_reader h
  · have hread : a ≠ .call .readStep := by
      rintro rfl
      contradiction
    obtain ⟨hin, -, hreader, -⟩ := fineStep_others hread hwrite h
    exact ⟨hreader ha, hin⟩

theorem fineStep_writer {s t : Fine} {a : FineAct} (ha : ofWriter a = false)
    (h : fineStep s a = some t) :
    t.sys.writer = s.sys.writer ∧ t.writeIn = s.writeIn := by
  by_cases hread : a = .call .readStep
  · subst hread
    exact readFine_writer h
  · have hwrite : a ≠ .call .writeStep := by
      rintro rfl
      contradiction
    obtain ⟨-, hin, -, hwriter⟩ := fineStep_others hread hwrite h
    exact ⟨hwriter ha, hin⟩

theorem readEntry_other {s : Ledger} {t : Fine} {a : FineAct}
    (ha : ofReader a = false) : readEntry s t a = s.read := by
  cases a with
  | reset => rfl
  | call b => cases b <;> first | rfl | cases ha

theorem writeEntry_other {s : Ledger} {t : Fine} {a : FineAct}
    (ha : ofWriter a = false) : writeEntry s t a = s.write := by
  cases a with
  | reset => rfl
  | call b => cases b <;> first | rfl | cases ha

/-- A call begins, and has moved nothing. -/
theorem ReadInv.readStart {s : Ledger} {t : Fine} {buf : Bool} {bufLen : Nat}
    {ticks : Ticks} (h : ReadInv s)
    (hs : fineStep s.fine (.call (.readStart buf bufLen ticks)) = some t) :
    ReadInv ⟨t, ⟨0, false⟩, s.write⟩ := by
  obtain ⟨u, hu, rfl⟩ := Option.map_eq_some_iff.1 hs
  simp only [sysStep, Option.ite_none_right_eq_some] at hu
  obtain ⟨hidle, hu⟩ := hu
  obtain rfl := Option.some.inj hu
  have hin : s.fine.readIn = none :=
    h.outside (by simp [Ledger.reader, hidle])
  refine ⟨fun hsome => absurd hin hsome, fun _ => rfl, ?_⟩
  simp only [hin]
  exact Booked.start

/-- A call stops waiting. -/
theorem ReadInv.readTimeout {s : Ledger} {t : Fine} (h : ReadInv s)
    (hs : fineStep s.fine (.call .readTimeout) = some t) :
    ReadInv ⟨t, s.read, s.write⟩ := by
  obtain ⟨u, hu, rfl⟩ := Option.map_eq_some_iff.1 hs
  simp only [sysStep, Option.ite_none_right_eq_some] at hu
  obtain ⟨hwaits, hu⟩ := hu
  obtain rfl := Option.some.inj hu
  have hin : s.fine.readIn = none :=
    h.outside (by simp [Ledger.reader, hwaits.1])
  have hret : s.reader.retVal = 0 :=
    h.looping (by simp [ReadLooping, Ledger.reader, hwaits.1])
  have hbooked := h.booked
  rw [hin, hret] at hbooked
  refine ⟨fun hsome => absurd hin hsome,
    fun hloop => absurd rfl hloop.2.1, ?_⟩
  simp only [hin]
  exact hbooked.leave (.inr rfl)

theorem ReadInv.step {s v : Ledger} {a : FineAct} (h : ReadInv s)
    (hs : ledgerMachine.step s a = some v) : ReadInv v := by
  simp only [ledgerMachine, Option.map_eq_some_iff] at hs
  obtain ⟨t, ht, rfl⟩ := hs
  have hown : ∀ {write : Entry}, ReadInv ⟨t, readEntry s t a, s.write⟩ →
      ReadInv ⟨t, readEntry s t a, write⟩ :=
    fun hinv => ⟨hinv.inside, hinv.looping, hinv.booked⟩
  apply hown
  by_cases ha : ofReader a = true
  · match a with
    | .call (.readStart buf bufLen ticks) => exact h.readStart ht
    | .call .readStep => exact h.readStep ht
    | .call .readTimeout => exact h.readTimeout ht
  · rw [Bool.not_eq_true] at ha
    obtain ⟨hreader, hin⟩ := fineStep_reader ha ht
    rw [readEntry_other ha]
    refine ⟨?_, ?_, ?_⟩ <;> simp only [Ledger.reader, hreader, hin]
    · exact h.inside
    · exact h.looping
    · exact h.booked

/-! ## The writer -/

/-- One access of the section. -/
theorem writeSectNext_books {rb : Ringbuf} {c : WriteCall} {p : WriteSect}
    {r : SectResult WriteCall WriteSect}
    (h : writeSectNext rb c p = some r) :
    r.call.retVal = c.retVal ∧
      r.call.totalWriteSize + pendingWrite r.next =
        c.totalWriteSize + pendingWrite (some p) + r.count ∧
      (r.next ≠ none → r.call.pc = c.pc) := by
  cases p with
  | loadAvail =>
      simp only [writeSectNext] at h
      split at h
      · obtain rfl := Option.some.inj h
        exact ⟨rfl, rfl, fun _ => rfl⟩
      · split at h
        · cases h
        · obtain rfl := Option.some.inj h
          exact ⟨rfl, rfl, fun _ => rfl⟩
  | giveFull =>
      obtain rfl := Option.some.inj h
      exact ⟨rfl, rfl, fun hno => absurd rfl hno⟩
  | copy n =>
      simp only [writeSectNext, Option.bind_eq_bind,
        Option.bind_eq_some_iff] at h
      obtain ⟨rb', -, h⟩ := h
      obtain rfl := Option.some.inj h
      exact ⟨rfl, rfl, fun _ => rfl⟩
  | loadFill n =>
      obtain rfl := Option.some.inj h
      exact ⟨rfl, rfl, fun _ => rfl⟩
  | storeFill n v =>
      obtain rfl := Option.some.inj h
      exact ⟨rfl, rfl, fun _ => rfl⟩
  | give =>
      obtain rfl := Option.some.inj h
      exact ⟨rfl, rfl, fun hno => absurd rfl hno⟩

theorem books_of_writeMove {rb rb' : Ringbuf} {c c' : WriteCall}
    {bytes : List Byte} {e : Entry} (hm : WriteMove rb c rb' c' bytes)
    (hpc : c.pc ≠ .takeLock) (hloop : WriteLooping c → c.retVal = 0)
    (hb : Booked c.retVal c.totalWriteSize 0 e) :
    (WriteLooping c' → c'.retVal = 0) ∧
      Booked c'.retVal c'.totalWriteSize 0
        ⟨e.moved, e.aborted ||
          (decide (c.pc = .testAbort) && rb.abortWrite)⟩ := by
  have hzero : c.pc = .testDone ∨ c.pc = .testAbort ∨
      c.pc = .takeCanWrite → c.retVal = 0 := by
    intro hin
    apply hloop
    rcases hin with hp | hp | hp <;> simp [WriteLooping, hp]
  cases hm with
  | nothing hp _ => exact absurd hp hpc
  | moved n mem p hp _ _ _ _ => exact absurd hp hpc
  | gotDone hp _ =>
      rw [hzero (.inl hp)] at hb
      refine ⟨fun hin => absurd rfl hin.2, ?_⟩
      simpa [hp] using hb.leave (.inl rfl)
  | gotAbort hp hflag =>
      rw [hzero (.inr (.inl hp))] at hb
      refine ⟨fun hin => absurd rfl hin.2, ?_⟩
      simpa [hp, hflag] using hb.abort
  | notDone hp _ =>
      exact ⟨fun _ => hzero (.inl hp), by simpa [hp] using hb⟩
  | notAbort hp hflag =>
      exact ⟨fun _ => hzero (.inr (.inl hp)), by simpa [hflag] using hb⟩
  | took hp _ =>
      exact ⟨fun _ => hzero (.inr (.inr hp)), by simpa [hp] using hb⟩
  | gave hp _ =>
      exact ⟨fun hin => absurd rfl hin.1, by simpa [hp] using hb⟩
  | kept hp _ =>
      exact ⟨fun hin => absurd rfl hin.1, by simpa [hp] using hb⟩

theorem WriteInv.writeStep {s : Ledger} {t : Fine} (h : WriteInv s)
    (hs : writeFine s.fine = some t) :
    WriteInv ⟨t, s.read, writeEntry s t (.call .writeStep)⟩ := by
  have hbooked := h.booked
  rw [writeFine] at hs
  cases hin : s.fine.writeIn with
  | some p =>
      have hpc : s.fine.sys.writer.pc = .takeLock :=
        h.inside (by rw [hin]; simp)
      have hret : s.fine.sys.writer.retVal = 0 :=
        h.looping (by simp [WriteLooping, Ledger.writer, hpc])
      simp only [hin, Option.bind_eq_bind, Option.bind_eq_some_iff] at hs
      obtain ⟨r, hr, hs⟩ := hs
      obtain rfl := Option.some.inj hs
      obtain ⟨hval, htotal, hnext⟩ := writeSectNext_books hr
      rw [hin] at hbooked
      refine ⟨fun hsome => (hnext hsome).trans hpc,
        fun _ => hval.trans hret, ?_⟩
      have hsect := hbooked.sect htotal
      rw [Ledger.writer, ← hval] at hsect
      simpa [writeEntry, Ledger.writer, hpc] using hsect
  | none =>
      rw [hin] at hbooked
      simp only [hin] at hs
      split at hs
      · rename_i hpc
        split at hs
        · obtain rfl := Option.some.inj hs
          refine ⟨fun _ => hpc, h.looping, ?_⟩
          simpa [writeEntry, Ledger.writer, hpc, pendingWrite] using hbooked
        · cases hs
      · rename_i hpc
        rw [Option.map_eq_some_iff] at hs
        obtain ⟨u, hu, rfl⟩ := hs
        obtain ⟨rb, c, bytes, hn, rfl⟩ := sysStep_writeNext hu
        have hbooks := books_of_writeMove (writeNext_unlocked hpc hn) hpc
          h.looping hbooked
        refine ⟨fun hsome => absurd rfl hsome, hbooks.1, ?_⟩
        rw [writeEntry, Nat.sub_self, Nat.add_zero]
        exact hbooks.2

theorem WriteInv.writeStart {s : Ledger} {t : Fine} {buf : List Byte}
    {ticks : Ticks} (h : WriteInv s)
    (hs : fineStep s.fine (.call (.writeStart buf ticks)) = some t) :
    WriteInv ⟨t, s.read, ⟨0, false⟩⟩ := by
  obtain ⟨u, hu, rfl⟩ := Option.map_eq_some_iff.1 hs
  simp only [sysStep, Option.ite_none_right_eq_some] at hu
  obtain ⟨hidle, hu⟩ := hu
  obtain rfl := Option.some.inj hu
  have hin : s.fine.writeIn = none :=
    h.outside (by simp [Ledger.writer, hidle])
  refine ⟨fun hsome => absurd hin hsome, fun _ => rfl, ?_⟩
  simp only [hin]
  exact Booked.start

theorem WriteInv.writeTimeout {s : Ledger} {t : Fine} (h : WriteInv s)
    (hs : fineStep s.fine (.call .writeTimeout) = some t) :
    WriteInv ⟨t, s.read, s.write⟩ := by
  obtain ⟨u, hu, rfl⟩ := Option.map_eq_some_iff.1 hs
  simp only [sysStep, Option.ite_none_right_eq_some] at hu
  obtain ⟨hwaits, hu⟩ := hu
  obtain rfl := Option.some.inj hu
  have hin : s.fine.writeIn = none :=
    h.outside (by simp [Ledger.writer, hwaits.1])
  have hret : s.writer.retVal = 0 :=
    h.looping (by simp [WriteLooping, Ledger.writer, hwaits.1])
  have hbooked := h.booked
  rw [hin, hret] at hbooked
  refine ⟨fun hsome => absurd hin hsome, fun hloop => absurd rfl hloop.2, ?_⟩
  simp only [hin]
  exact hbooked.leave (.inr rfl)

theorem WriteInv.step {s v : Ledger} {a : FineAct} (h : WriteInv s)
    (hs : ledgerMachine.step s a = some v) : WriteInv v := by
  simp only [ledgerMachine, Option.map_eq_some_iff] at hs
  obtain ⟨t, ht, rfl⟩ := hs
  have hown : ∀ {read : Entry}, WriteInv ⟨t, s.read, writeEntry s t a⟩ →
      WriteInv ⟨t, read, writeEntry s t a⟩ :=
    fun hinv => ⟨hinv.inside, hinv.looping, hinv.booked⟩
  apply hown
  by_cases ha : ofWriter a = true
  · match a with
    | .call (.writeStart buf ticks) => exact h.writeStart ht
    | .call .writeStep => exact h.writeStep ht
    | .call .writeTimeout => exact h.writeTimeout ht
  · rw [Bool.not_eq_true] at ha
    obtain ⟨hwriter, hin⟩ := fineStep_writer ha ht
    rw [writeEntry_other ha]
    refine ⟨?_, ?_, ?_⟩ <;> simp only [Ledger.writer, hwriter, hin]
    · exact h.inside
    · exact h.looping
    · exact h.booked

/-! ## The result -/

theorem ReadInv.start (rb : Ringbuf) : ReadInv (.start rb) :=
  ⟨fun h => absurd rfl h, fun _ => rfl, Booked.start⟩

theorem WriteInv.start (rb : Ringbuf) : WriteInv (.start rb) :=
  ⟨fun h => absurd rfl h, fun _ => rfl, Booked.start⟩

theorem ReadInv.accounts {s : Ledger} (h : ReadInv s)
    (hidle : s.reader.pc = .idle) : Accounts s.read s.reader.result := by
  have hin : s.fine.readIn = none := h.outside (by simp [hidle])
  have hbooked := h.booked
  rw [hin] at hbooked
  exact hbooked.accounts

theorem WriteInv.accounts {s : Ledger} (h : WriteInv s)
    (hidle : s.writer.pc = .idle) : Accounts s.write s.writer.result := by
  have hin : s.fine.writeIn = none := h.outside (by simp [hidle])
  have hbooked := h.booked
  rw [hin] at hbooked
  exact hbooked.accounts

/-- **The return values account for the bytes moved**, in every run: a call
that did not look at a set abort flag returns what it moved, and one that did
returns `RB_ABORT`. -/
theorem returns_moved {rb : Ringbuf} {s : Ledger}
    (h : ledgerMachine.Reachable (.start rb) s) : Accounted s := by
  have hread : ReadInv s :=
    h.invariant (ReadInv.start rb) fun _ _ _ hu hs => hu.step hs
  have hwrite : WriteInv s :=
    h.invariant (WriteInv.start rb) fun _ _ _ hu hs => hu.step hs
  exact ⟨hread.accounts, hwrite.accounts⟩

/-! ## Two runs -/

def readSteps (n : Nat) : List FineAct :=
  List.replicate n (FineAct.call .readStep)

/-- Four bytes are written, and a read of eight takes them. -/
def fourOfEight : List FineAct :=
  [FineAct.call (.writeStart [1, 2, 3, 4] .maxDelay)] ++
    List.replicate 7 (FineAct.call .writeStep) ++
    [FineAct.call (.readStart true 8 .finite)] ++ readSteps 7

/-- A ring of eight bytes. -/
def eightBytes : Ringbuf := (rbCreate 4 2 true).get rfl

/-- Nothing more comes in time, and it returns 4. -/
theorem returns_moved_timeout : ∃ s,
    ledgerMachine.run (.start eightBytes) (fourOfEight ++ readSteps 15 ++
      [.call .readTimeout] ++ readSteps 2) = some s ∧
    s.reader.result = 4 ∧ Accounted s := by
  have h : (ledgerMachine.run (.start eightBytes) (fourOfEight ++
      readSteps 15 ++ [.call .readTimeout] ++ readSteps 2)).map
      (fun s => s.reader.result) = some 4 := by
    decide +kernel
  obtain ⟨s, hs, hresult⟩ := Option.map_eq_some_iff.1 h
  exact ⟨s, hs, hresult, returns_moved (Machine.reachable_of_run hs)⟩

/-- An abort comes before it looks again: it returns `RB_ABORT`, and the four
bytes are gone. -/
theorem abort_hides_moved : ∃ s,
    ledgerMachine.run (.start eightBytes) (fourOfEight ++
      [.call (.ctlStart .abort), .call (.ctlStep 0)] ++ readSteps 8) =
      some s ∧
    s.reader.pc = .idle ∧ s.reader.result ≤ 0 ∧ s.read.moved = 4 := by
  have h : (ledgerMachine.run (.start eightBytes) (fourOfEight ++
      [.call (.ctlStart .abort), .call (.ctlStep 0)] ++ readSteps 8)).map
      (fun s => (s.reader.pc, s.reader.result, s.read.moved)) =
      some (.idle, RB_ABORT, 4) := by
    decide +kernel
  simp only [Option.map_eq_some_iff, Prod.mk.injEq] at h
  obtain ⟨s, hs, hpc, hresult, hmoved⟩ := h
  exact ⟨s, hs, hpc, by rw [hresult]; decide, hmoved⟩

end EspAdf.Ports.RingBufReturns
