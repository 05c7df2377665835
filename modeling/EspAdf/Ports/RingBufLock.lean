import EspAdf.Ports.RingBufTasks

/-!
# Who is inside the locked sections

Here the section between taking and giving `rb->lock` is taken apart: the
take, every load and store of `fill_cnt`, the copy and the give are actions
of their own, so other tasks run in between.  All other actions are those of
`RingBufTasks`.

`rb_abort` ends with `xSemaphoreGive(rb->lock)` although it never took the
lock.  Executed while a task is inside its section, it lets the other task
in, and a `fill_cnt` update is lost: `abort_breaks_lock` is the schedule.
Executed while nobody is inside it does nothing.

`mutual_exclusion` proves that in every run in which aborts give the lock
only while nobody is inside, at most one task is inside, and whenever nobody
is, `fill_cnt` is exactly bytes written minus bytes read since the last
reset; and that every other abort opens the lock to the task waiting for it.
-/

namespace EspAdf.Ports.RingBufLock

open EspAdf.Verified
open EspAdf.Ports.RingBuf
open EspAdf.Ports.RingBufTasks

/-! ## The locked section of `rb_read`, one access at a time -/

/-- Where `rb_read` stands between taking and giving the lock. -/
inductive ReadSect where
  /-- About to compare `fill_cnt` with `buf_len`. -/
  | test
  /-- About to load `fill_cnt` into `read_size`. -/
  | loadSize
  /-- `read_size` is zero. -/
  | giveEmpty
  | copy (n : Nat)
  /-- About to load `fill_cnt` for `fill_cnt -= read_size`. -/
  | loadFill (n : Nat)
  /-- About to store `v` as the new `fill_cnt`. -/
  | storeFill (n v : Nat)
  | give
  deriving DecidableEq, Repr

/-- Branch on `read_size`. -/
def ReadSect.sized (n : Nat) : ReadSect := if n = 0 then .giveEmpty else .copy n

/-- What one action of a section leaves behind: the ring, the call, where it
stands next (`none` when the lock was given), the bytes it moved and their
number. -/
structure SectResult (Call Sect : Type) where
  rb : Ringbuf
  call : Call
  next : Option Sect
  bytes : List Byte
  count : Nat

def readSectNext (rb : Ringbuf) (c : ReadCall) :
    ReadSect → Option (SectResult ReadCall ReadSect)
  | .test =>
      some ⟨rb, { c with seen := rb.fillCnt },
        some (if rb.fillCnt < c.bufLen then .loadSize else .sized c.bufLen),
        [], 0⟩
  | .loadSize => some ⟨rb, c, some (.sized (rb.fillCnt &&& 0xfffffffc)), [], 0⟩
  | .giveEmpty =>
      some ⟨{ rb with lock := true }, { c with pc := .testDone }, none, [], 0⟩
  | .copy n => do
      let (rb', out) ← readCopy rb c.buf n
      some ⟨rb', c, some (.loadFill n), out, n⟩
  | .loadFill n =>
      some ⟨rb, c, some (.storeFill n (u32 ((rb.fillCnt : Int) - n))), [], 0⟩
  | .storeFill n v =>
      some ⟨{ rb with fillCnt := v },
        { c with
          bufLen := c.bufLen - n
          totalReadSize := c.totalReadSize + n },
        some .give, [], 0⟩
  | .give =>
      some ⟨{ rb with lock := true },
        { c with pc := if c.bufLen = 0 then .readErr else .takeLock },
        none, [], 0⟩

/-! ## The locked section of `rb_write`, one access at a time -/

inductive WriteSect where
  /-- About to compute `write_size` from `rb_bytes_available`. -/
  | loadAvail
  /-- `write_size` is zero. -/
  | giveFull
  | copy (n : Nat)
  | loadFill (n : Nat)
  | storeFill (n v : Nat)
  | give
  deriving DecidableEq, Repr

def writeSectNext (rb : Ringbuf) (c : WriteCall) :
    WriteSect → Option (SectResult WriteCall WriteSect)
  | .loadAvail =>
      let n := writeSize rb c.buf.length
      if n = 0 then some ⟨rb, c, some .giveFull, [], 0⟩
      else if n < 0 then none
      else some ⟨rb, c, some (.copy n.toNat), [], 0⟩
  | .giveFull =>
      some ⟨{ rb with lock := true }, { c with pc := .testDone }, none, [], 0⟩
  | .copy n => do
      let rb' ← writeCopy rb (c.buf.take n)
      some ⟨rb', c, some (.loadFill n), c.buf.take n, n⟩
  | .loadFill n =>
      some ⟨rb, c, some (.storeFill n (u32 ((rb.fillCnt : Int) + n))), [], 0⟩
  | .storeFill n v =>
      some ⟨{ rb with fillCnt := v },
        { c with
          buf := c.buf.drop n
          totalWriteSize := c.totalWriteSize + n },
        some .give, [], 0⟩
  | .give =>
      some ⟨{ rb with lock := true },
        { c with pc := if c.buf.length = 0 then .writeErr else .takeLock },
        none, [], 0⟩

/-! ## The system -/

/-- `Sys` with the position of each call inside its section, and the number
of bytes written and read since the last reset. -/
structure Fine where
  sys : Sys
  readIn : Option ReadSect
  writeIn : Option WriteSect
  written : Nat
  removed : Nat
  deriving DecidableEq, Repr

def Fine.start (rb : Ringbuf) : Fine := ⟨.start rb, none, none, 0, 0⟩

inductive FineAct where
  | call (a : Act)
  | reset
  deriving DecidableEq, Repr

/-- An action of the reader's call. -/
def readFine (s : Fine) : Option Fine :=
  match s.readIn with
  | some p => do
      let r ← readSectNext s.sys.rb s.sys.reader p
      some { s with
        sys := { s.sys with
          rb := r.rb, reader := r.call
          delivered := s.sys.delivered ++ r.bytes }
        readIn := r.next
        removed := s.removed + r.count }
  | none =>
      if s.sys.reader.pc = .takeLock then
        if s.sys.rb.lock then
          some { s with
            sys := { s.sys with rb := { s.sys.rb with lock := false } }
            readIn := some .test }
        else none
      else (sysStep s.sys .readStep).map fun t => { s with sys := t }

/-- An action of the writer's call. -/
def writeFine (s : Fine) : Option Fine :=
  match s.writeIn with
  | some p => do
      let r ← writeSectNext s.sys.rb s.sys.writer p
      some { s with
        sys := { s.sys with
          rb := r.rb, writer := r.call
          accepted := s.sys.accepted ++ r.bytes }
        writeIn := r.next
        written := s.written + r.count }
  | none =>
      if s.sys.writer.pc = .takeLock then
        if s.sys.rb.lock then
          some { s with
            sys := { s.sys with rb := { s.sys.rb with lock := false } }
            writeIn := some .loadAvail }
        else none
      else (sysStep s.sys .writeStep).map fun t => { s with sys := t }

def fineStep (s : Fine) : FineAct → Option Fine
  | .call .readStep => readFine s
  | .call .writeStep => writeFine s
  | .call a => (sysStep s.sys a).map fun t => { s with sys := t }
  | .reset =>
      some { s with
        sys := { s.sys with
          rb := rbReset s.sys.rb, accepted := [], delivered := [] }
        written := 0
        removed := 0 }

def fineMachine : Machine Fine FineAct := ⟨fineStep⟩

/-- No task is inside a locked section. -/
def NobodyIn (s : Fine) : Prop := s.readIn = none ∧ s.writeIn = none

instance (s : Fine) : Decidable (NobodyIn s) := by
  unfold NobodyIn
  infer_instance

/-- Resets are not concurrent with a locked section. -/
def ResetsOutside (s : Fine) : FineAct → Prop
  | .reset => NobodyIn s
  | .call _ => True

/-- `rb_abort` gives the lock only while nobody is inside. -/
def AbortsOutside (s : Fine) : FineAct → Prop
  | .call (.ctlStep i) => s.sys.ctls[i]? = some .abortLockGive → NobodyIn s
  | _ => True

instance (s : Fine) (a : FineAct) : Decidable (ResetsOutside s a) := by
  unfold ResetsOutside
  split <;> infer_instance

instance (s : Fine) (a : FineAct) : Decidable (AbortsOutside s a) := by
  unfold AbortsOutside
  split <;> infer_instance

/-! ## Actions outside the sections -/

/-- The bytes and the lock are as before; other flags may differ. -/
def SameLock (rb rb' : Ringbuf) : Prop :=
  SameBytes rb rb' ∧ rb'.lock = rb.lock

theorem readNext_outside {rb rb' : Ringbuf} {c c' : ReadCall}
    {out : List Byte} (hpc : c.pc ≠ .takeLock)
    (hn : readNext rb c = some (rb', c', out)) : SameLock rb rb' := by
  have hmove := readNext_unlocked hpc hn
  cases hmove with
  | nothing hlock hzero => contradiction
  | moved p hlock hpos hwf hcont => contradiction
  | _ => exact ⟨⟨rfl, rfl, rfl, rfl, rfl⟩, rfl⟩

theorem writeNext_outside {rb rb' : Ringbuf} {c c' : WriteCall}
    {bytes : List Byte} (hpc : c.pc ≠ .takeLock)
    (hn : writeNext rb c = some (rb', c', bytes)) : SameLock rb rb' := by
  have hmove := writeNext_unlocked hpc hn
  cases hmove with
  | nothing hlock hzero => contradiction
  | moved n mem p hlock hn hpos hwf hcont => contradiction
  | _ => exact ⟨⟨rfl, rfl, rfl, rfl, rfl⟩, rfl⟩

/-- Only the last statement of `rb_abort` touches the lock. -/
theorem ctlNext_lock (rb : Ringbuf) {pc : CtlPc} (h : pc ≠ .abortLockGive) :
    (ctlNext rb pc).1.lock = rb.lock := by
  cases pc <;> first | rfl | exact absurd rfl h

/-- The action is not a whole locked section of `RingBufTasks`. -/
def NoSection (s : Sys) : Act → Prop
  | .readStep => s.reader.pc ≠ .takeLock
  | .writeStep => s.writer.pc ≠ .takeLock
  | _ => True

/-- The action is not the lock give of an abort. -/
def NoAbortGive (s : Sys) : Act → Prop
  | .ctlStep i => s.ctls[i]? ≠ some .abortLockGive
  | _ => True

/-- Outside the sections an action leaves the bytes alone, and the lock too
unless it is the give of an abort. -/
theorem sysStep_outside {s t : Sys} {a : Act} (hsec : NoSection s a)
    (h : sysStep s a = some t) :
    SameBytes s.rb t.rb ∧ (NoAbortGive s a → t.rb.lock = s.rb.lock) := by
  have hrefl := SameBytes.refl s.rb
  cases a with
  | readStep =>
      obtain ⟨rb, c, out, hn, rfl⟩ := sysStep_readNext h
      have hout := readNext_outside hsec hn
      exact ⟨hout.1, fun _ => hout.2⟩
  | writeStep =>
      obtain ⟨rb, c, bytes, hn, rfl⟩ := sysStep_writeNext h
      have hout := writeNext_outside hsec hn
      exact ⟨hout.1, fun _ => hout.2⟩
  | ctlStep i =>
      obtain ⟨pc, hpc, rfl⟩ := sysStep_ctlStep h
      refine ⟨ctlNext_sameBytes s.rb pc, ?_⟩
      intro hno
      apply ctlNext_lock
      rintro rfl
      exact hno hpc
  | ctlStart c =>
      obtain rfl := Option.some.inj h
      exact ⟨hrefl, fun _ => rfl⟩
  | _ =>
      simp only [sysStep, Option.ite_none_right_eq_some] at h
      obtain ⟨-, h⟩ := h
      obtain rfl := Option.some.inj h
      exact ⟨hrefl, fun _ => rfl⟩

/-- A call that is inside its section is moved by its own task only. -/
theorem sysStep_reader {s t : Sys} {a : Act} (hpc : s.reader.pc = .takeLock)
    (ha : a ≠ .readStep) (h : sysStep s a = some t) :
    t.reader = s.reader := by
  cases a with
  | readStep => contradiction
  | readStart buf bufLen ticks => simp [sysStep, hpc] at h
  | readTimeout => simp [sysStep, hpc] at h
  | _ => exact (sysStep_calls h).1 rfl

theorem sysStep_writer {s t : Sys} {a : Act} (hpc : s.writer.pc = .takeLock)
    (ha : a ≠ .writeStep) (h : sysStep s a = some t) :
    t.writer = s.writer := by
  cases a with
  | writeStep => contradiction
  | writeStart buf ticks => simp [sysStep, hpc] at h
  | writeTimeout => simp [sysStep, hpc] at h
  | _ => exact (sysStep_calls h).2 rfl

/-! ## The invariant -/

/-- Bytes copied out and not yet subtracted from `fill_cnt`. -/
def pendingRead : Option ReadSect → Nat
  | some (.loadFill n) => n
  | some (.storeFill n _) => n
  | _ => 0

/-- Bytes copied in and not yet added to `fill_cnt`. -/
def pendingWrite : Option WriteSect → Nat
  | some (.loadFill n) => n
  | some (.storeFill n _) => n
  | _ => 0

/-- What the reader's locals say about `fill_cnt`. -/
def ReadLocals (fill : Nat) : Option ReadSect → Prop
  | some (.copy n) => n ≤ fill
  | some (.loadFill n) => n ≤ fill
  | some (.storeFill n v) => n ≤ fill ∧ v = fill - n
  | _ => True

/-- What the writer's locals say about `fill_cnt`. -/
def WriteLocals (fill size : Nat) : Option WriteSect → Prop
  | some (.copy n) => fill + n ≤ size
  | some (.loadFill n) => fill + n ≤ size
  | some (.storeFill n v) => fill + n ≤ size ∧ v = fill + n
  | _ => True

structure Inv (s : Fine) : Prop where
  fillLe : s.sys.rb.fillCnt ≤ s.sys.rb.size
  sizeInt : s.sys.rb.size < 2 ^ 31
  excl : s.readIn = none ∨ s.writeIn = none
  /-- The lock is free exactly when nobody is inside. -/
  lock : s.sys.rb.lock = true ↔ NobodyIn s
  readPc : s.readIn ≠ none → s.sys.reader.pc = .takeLock
  writePc : s.writeIn ≠ none → s.sys.writer.pc = .takeLock
  readLocals : ReadLocals s.sys.rb.fillCnt s.readIn
  writeLocals : WriteLocals s.sys.rb.fillCnt s.sys.rb.size s.writeIn
  /-- Bytes written are bytes read, counted, or about to be counted. -/
  account : s.sys.rb.fillCnt + s.removed + pendingWrite s.writeIn =
    s.written + pendingRead s.readIn

theorem Inv.start {rb : Ringbuf} (hwf : rb.WF) (hfill : rb.fillCnt = 0)
    (hlock : rb.lock = true) : Inv (.start rb) := by
  constructor
  case sizeInt => exact hwf.sizeInt
  all_goals
    simp [Fine.start, Sys.start, hfill, hlock, NobodyIn, ReadLocals,
      WriteLocals, pendingRead, pendingWrite]

theorem pendingRead_sized (n : Nat) : pendingRead (some (.sized n)) = 0 := by
  unfold ReadSect.sized
  split <;> rfl

theorem readLocals_sized {fill n : Nat} (h : n ≤ fill) :
    ReadLocals fill (some (.sized n)) := by
  unfold ReadSect.sized
  split
  · trivial
  · exact h

/-- A section action of the reader: the ring keeps its size, the lock is
given exactly at the end, the locals stay right and the count adds up. -/
theorem readSectNext_spec {rb : Ringbuf} {c : ReadCall} {p : ReadSect}
    {r : SectResult ReadCall ReadSect} (hfill : rb.fillCnt ≤ rb.size)
    (hsize : rb.size < 2 ^ 31) (hp : ReadLocals rb.fillCnt (some p))
    (h : readSectNext rb c p = some r) :
    r.rb.size = rb.size ∧ r.rb.fillCnt ≤ rb.size ∧
      (r.rb.lock = if r.next = none then true else rb.lock) ∧
      (r.next ≠ none → r.call.pc = c.pc) ∧
      ReadLocals r.rb.fillCnt r.next ∧
      r.rb.fillCnt + r.count + pendingRead (some p) =
        rb.fillCnt + pendingRead r.next := by
  cases p with
  | test =>
      obtain rfl := Option.some.inj h
      by_cases hless : rb.fillCnt < c.bufLen
      · simp [hless, hfill, ReadLocals, pendingRead]
      · simp only [if_neg hless]
        refine ⟨trivial, hfill, by simp, by simp, ?_, ?_⟩
        · exact readLocals_sized (Nat.not_lt.mp hless)
        · rw [pendingRead_sized]
          rfl
  | loadSize =>
      obtain rfl := Option.some.inj h
      have hmask : rb.fillCnt &&& 0xfffffffc ≤ rb.fillCnt := Nat.and_le_left
      refine ⟨rfl, hfill, by simp, by simp, readLocals_sized hmask, ?_⟩
      rw [pendingRead_sized]
      rfl
  | giveEmpty =>
      obtain rfl := Option.some.inj h
      simp [hfill, ReadLocals, pendingRead]
  | copy n =>
      simp only [readSectNext, Option.bind_eq_bind, Option.bind_eq_some_iff]
        at h
      obtain ⟨⟨rb', out⟩, hcopy, hr⟩ := h
      obtain ⟨p, rfl⟩ := readCopy_frame hcopy
      obtain rfl := Option.some.inj hr
      have hn : n ≤ rb.fillCnt := hp
      simp [hfill, hn, ReadLocals, pendingRead]
  | loadFill n =>
      obtain rfl := Option.some.inj h
      have hn : n ≤ rb.fillCnt := hp
      have hsub := u32_sub hn (show rb.fillCnt < 2 ^ 32 by omega)
      simp [hfill, hn, hsub, ReadLocals, pendingRead]
  | storeFill n v =>
      obtain rfl := Option.some.inj h
      obtain ⟨hn, rfl⟩ := hp
      refine ⟨rfl, ?_, by simp, by simp, trivial, ?_⟩
      · show rb.fillCnt - n ≤ rb.size
        omega
      · show rb.fillCnt - n + 0 + n = rb.fillCnt + 0
        omega
  | give =>
      obtain rfl := Option.some.inj h
      simp [hfill, ReadLocals, pendingRead]

/-- A section action of the writer. -/
theorem writeSectNext_spec {rb : Ringbuf} {c : WriteCall} {p : WriteSect}
    {r : SectResult WriteCall WriteSect} (hfill : rb.fillCnt ≤ rb.size)
    (hsize : rb.size < 2 ^ 31) (hp : WriteLocals rb.fillCnt rb.size (some p))
    (h : writeSectNext rb c p = some r) :
    r.rb.size = rb.size ∧ r.rb.fillCnt ≤ rb.size ∧
      (r.rb.lock = if r.next = none then true else rb.lock) ∧
      (r.next ≠ none → r.call.pc = c.pc) ∧
      WriteLocals r.rb.fillCnt rb.size r.next ∧
      r.rb.fillCnt + pendingWrite r.next =
        rb.fillCnt + r.count + pendingWrite (some p) := by
  cases p with
  | loadAvail =>
      simp only [writeSectNext, writeSize_of_le hfill hsize] at h
      by_cases hn : ((min c.buf.length (rb.size - rb.fillCnt) : Nat) : Int) = 0
      · rw [if_pos hn] at h
        obtain rfl := Option.some.inj h
        simp [hfill, WriteLocals, pendingWrite]
      · rw [if_neg hn, if_neg (by omega)] at h
        obtain rfl := Option.some.inj h
        refine ⟨rfl, hfill, by simp, by simp, ?_, rfl⟩
        show rb.fillCnt + _ ≤ rb.size
        omega
  | giveFull =>
      obtain rfl := Option.some.inj h
      simp [hfill, WriteLocals, pendingWrite]
  | copy n =>
      simp only [writeSectNext, Option.bind_eq_bind, Option.bind_eq_some_iff]
        at h
      obtain ⟨rb', hcopy, hr⟩ := h
      obtain ⟨mem, p, rfl⟩ := writeCopy_frame hcopy
      obtain rfl := Option.some.inj hr
      have hroom : rb.fillCnt + n ≤ rb.size := hp
      simp [hfill, hroom, WriteLocals, pendingWrite]
  | loadFill n =>
      obtain rfl := Option.some.inj h
      have hroom : rb.fillCnt + n ≤ rb.size := hp
      have hadd := u32_add (show rb.fillCnt + n < 2 ^ 32 by omega)
      simp [hfill, hroom, hadd, WriteLocals, pendingWrite]
  | storeFill n v =>
      obtain rfl := Option.some.inj h
      obtain ⟨hroom, rfl⟩ := hp
      exact ⟨rfl, hroom, by simp, by simp, trivial, rfl⟩
  | give =>
      obtain rfl := Option.some.inj h
      simp [hfill, WriteLocals, pendingWrite]

/-- An action outside the sections keeps the invariant, unless it is an
abort's give while somebody is inside. -/
theorem Inv.outside {s : Fine} {t : Sys} {a : Act} (h : Inv s)
    (hs : sysStep s.sys a = some t) (hsec : NoSection s.sys a)
    (habort : AbortsOutside s (.call a))
    (hread : a = .readStep → s.readIn = none)
    (hwrite : a = .writeStep → s.writeIn = none) :
    Inv { s with sys := t } := by
  obtain ⟨hsame, hlock⟩ := sysStep_outside hsec hs
  refine
    { fillLe := ?_, sizeInt := ?_, excl := h.excl, lock := ?_
      readPc := ?_, writePc := ?_, readLocals := ?_, writeLocals := ?_
      account := ?_ }
  · show t.rb.fillCnt ≤ t.rb.size
    rw [hsame.fillCnt, hsame.size]
    exact h.fillLe
  · show t.rb.size < 2 ^ 31
    rw [hsame.size]
    exact h.sizeInt
  · show t.rb.lock = true ↔ NobodyIn s
    by_cases hgive : NoAbortGive s.sys a
    · rw [hlock hgive]
      exact h.lock
    · -- An abort gives a lock that is already free.
      cases a with
      | ctlStep i =>
          have hpc : s.sys.ctls[i]? = some .abortLockGive := by
            simpa [NoAbortGive] using hgive
          obtain ⟨pc, hpc', rfl⟩ := sysStep_ctlStep hs
          obtain rfl := Option.some.inj (hpc'.symm.trans hpc)
          exact ⟨fun _ => habort hpc, fun _ => rfl⟩
      | _ => exact absurd trivial hgive
  · intro hin
    have hpc := h.readPc hin
    rw [sysStep_reader hpc (fun ha => hin (hread ha)) hs]
    exact hpc
  · intro hin
    have hpc := h.writePc hin
    rw [sysStep_writer hpc (fun ha => hin (hwrite ha)) hs]
    exact hpc
  · show ReadLocals t.rb.fillCnt s.readIn
    rw [hsame.fillCnt]
    exact h.readLocals
  · show WriteLocals t.rb.fillCnt t.rb.size s.writeIn
    rw [hsame.fillCnt, hsame.size]
    exact h.writeLocals
  · show t.rb.fillCnt + s.removed + pendingWrite s.writeIn = _
    rw [hsame.fillCnt]
    exact h.account

/-- The lock is held while somebody is inside. -/
theorem Inv.held {s : Fine} (h : Inv s) (hin : ¬NobodyIn s) :
    s.sys.rb.lock = false := by
  rw [Bool.eq_false_iff]
  exact fun hlock => hin (h.lock.mp hlock)

/-- An access inside the reader's section. -/
theorem Inv.readInside {s : Fine} {p : ReadSect}
    {r : SectResult ReadCall ReadSect} (h : Inv s) (hin : s.readIn = some p)
    (hr : readSectNext s.sys.rb s.sys.reader p = some r) :
    Inv { s with
      sys := { s.sys with
        rb := r.rb, reader := r.call
        delivered := s.sys.delivered ++ r.bytes }
      readIn := r.next
      removed := s.removed + r.count } := by
  have hlocals := h.readLocals
  have hacc := h.account
  have hpc := h.readPc (by simp [hin])
  have hwrite : s.writeIn = none := by
    rcases h.excl with hnone | hnone
    · rw [hin] at hnone
      contradiction
    · exact hnone
  have hheld : s.sys.rb.lock = false := h.held (by simp [NobodyIn, hin])
  rw [hin] at hlocals hacc
  rw [hwrite] at hacc
  obtain ⟨hsize, hfill, hlock, hkeep, hnew, hcount⟩ :=
    readSectNext_spec h.fillLe h.sizeInt hlocals hr
  refine
    { fillLe := ?_, sizeInt := ?_, excl := .inr hwrite, lock := ?_
      readPc := ?_, writePc := h.writePc, readLocals := hnew
      writeLocals := ?_, account := ?_ }
  · show r.rb.fillCnt ≤ r.rb.size
    rw [hsize]
    exact hfill
  · show r.rb.size < 2 ^ 31
    rw [hsize]
    exact h.sizeInt
  · show r.rb.lock = true ↔ r.next = none ∧ s.writeIn = none
    rw [hlock, hheld, hwrite]
    simp
  · intro hnext
    exact (hkeep hnext).trans hpc
  · show WriteLocals _ _ s.writeIn
    rw [hwrite]
    trivial
  · show r.rb.fillCnt + (s.removed + r.count) + pendingWrite s.writeIn =
      s.written + pendingRead r.next
    rw [hwrite]
    omega

theorem Inv.read {s t : Fine} (h : Inv s) (hs : readFine s = some t) :
    Inv t := by
  unfold readFine at hs
  cases hin : s.readIn with
  | none =>
      simp only [hin] at hs
      by_cases hpc : s.sys.reader.pc = .takeLock
      · simp only [if_pos hpc, Option.ite_none_right_eq_some] at hs
        obtain ⟨hlock, hs⟩ := hs
        obtain rfl := Option.some.inj hs
        have hnobody := h.lock.mp hlock
        have hacc := h.account
        rw [hin] at hacc
        exact
          { fillLe := h.fillLe, sizeInt := h.sizeInt
            excl := .inr hnobody.2
            lock := by simp [NobodyIn]
            readPc := fun _ => hpc, writePc := h.writePc
            readLocals := trivial, writeLocals := h.writeLocals
            account := hacc }
      · simp only [if_neg hpc, Option.map_eq_some_iff] at hs
        obtain ⟨u, hu, rfl⟩ := hs
        have hout : Inv { s with sys := u } :=
          h.outside hu hpc trivial (fun _ => hin) (fun ha => by cases ha)
        rwa [hin] at hout
  | some p =>
      simp only [hin, Option.bind_eq_bind, Option.bind_eq_some_iff] at hs
      obtain ⟨r, hr, hs⟩ := hs
      obtain rfl := Option.some.inj hs
      exact h.readInside hin hr

/-- An access inside the writer's section. -/
theorem Inv.writeInside {s : Fine} {p : WriteSect}
    {r : SectResult WriteCall WriteSect} (h : Inv s)
    (hin : s.writeIn = some p)
    (hr : writeSectNext s.sys.rb s.sys.writer p = some r) :
    Inv { s with
      sys := { s.sys with
        rb := r.rb, writer := r.call
        accepted := s.sys.accepted ++ r.bytes }
      writeIn := r.next
      written := s.written + r.count } := by
  have hlocals := h.writeLocals
  have hacc := h.account
  have hpc := h.writePc (by simp [hin])
  have hread : s.readIn = none := by
    rcases h.excl with hnone | hnone
    · exact hnone
    · rw [hin] at hnone
      contradiction
  have hheld : s.sys.rb.lock = false := h.held (by simp [NobodyIn, hin])
  rw [hin] at hlocals hacc
  rw [hread] at hacc
  obtain ⟨hsize, hfill, hlock, hkeep, hnew, hcount⟩ :=
    writeSectNext_spec h.fillLe h.sizeInt hlocals hr
  refine
    { fillLe := ?_, sizeInt := ?_, excl := .inl hread, lock := ?_
      readPc := h.readPc, writePc := ?_, readLocals := ?_
      writeLocals := ?_, account := ?_ }
  · show r.rb.fillCnt ≤ r.rb.size
    rw [hsize]
    exact hfill
  · show r.rb.size < 2 ^ 31
    rw [hsize]
    exact h.sizeInt
  · show r.rb.lock = true ↔ s.readIn = none ∧ r.next = none
    rw [hlock, hheld, hread]
    simp
  · intro hnext
    exact (hkeep hnext).trans hpc
  · show ReadLocals _ s.readIn
    rw [hread]
    trivial
  · show WriteLocals r.rb.fillCnt r.rb.size r.next
    rw [hsize]
    exact hnew
  · show r.rb.fillCnt + s.removed + pendingWrite r.next =
      s.written + r.count + pendingRead s.readIn
    rw [hread]
    omega

theorem Inv.write {s t : Fine} (h : Inv s) (hs : writeFine s = some t) :
    Inv t := by
  unfold writeFine at hs
  cases hin : s.writeIn with
  | none =>
      simp only [hin] at hs
      by_cases hpc : s.sys.writer.pc = .takeLock
      · simp only [if_pos hpc, Option.ite_none_right_eq_some] at hs
        obtain ⟨hlock, hs⟩ := hs
        obtain rfl := Option.some.inj hs
        have hnobody := h.lock.mp hlock
        have hacc := h.account
        rw [hin] at hacc
        exact
          { fillLe := h.fillLe, sizeInt := h.sizeInt
            excl := .inl hnobody.1
            lock := by simp [NobodyIn]
            readPc := h.readPc, writePc := fun _ => hpc
            readLocals := h.readLocals, writeLocals := trivial
            account := hacc }
      · simp only [if_neg hpc, Option.map_eq_some_iff] at hs
        obtain ⟨u, hu, rfl⟩ := hs
        have hout : Inv { s with sys := u } :=
          h.outside hu hpc trivial (fun ha => by cases ha) (fun _ => hin)
        rwa [hin] at hout
  | some p =>
      simp only [hin, Option.bind_eq_bind, Option.bind_eq_some_iff] at hs
      obtain ⟨r, hr, hs⟩ := hs
      obtain rfl := Option.some.inj hs
      exact h.writeInside hin hr

/-- **One action** of any task keeps the invariant. -/
theorem Inv.step {s t : Fine} {a : FineAct} (h : Inv s)
    (hreset : ResetsOutside s a) (habort : AbortsOutside s a)
    (hs : fineStep s a = some t) : Inv t := by
  cases a with
  | reset =>
      obtain rfl := Option.some.inj hs
      have hlock := h.lock
      obtain ⟨hread, hwrite⟩ : NobodyIn s := hreset
      exact
        { fillLe := Nat.zero_le _, sizeInt := h.sizeInt, excl := h.excl
          lock := hlock, readPc := h.readPc, writePc := h.writePc
          readLocals := by rw [hread]; trivial
          writeLocals := by rw [hwrite]; trivial
          account := by rw [hread, hwrite]; rfl }
  | call a =>
      cases a with
      | readStep => exact h.read hs
      | writeStep => exact h.write hs
      | _ =>
          simp only [fineStep, Option.map_eq_some_iff] at hs
          obtain ⟨u, hu, rfl⟩ := hs
          exact h.outside hu trivial habort (fun ha => by cases ha)
            (fun ha => by cases ha)

/-! ## What an abort inside a section does -/

/-- Both tasks are inside their sections. -/
def BothIn (s : Fine) : Prop := s.readIn ≠ none ∧ s.writeIn ≠ none

instance (s : Fine) : Decidable (BothIn s) := by
  unfold BothIn
  infer_instance

/-- **An abort that gives the lock while one task is inside** lets in the
other one as soon as it is at its take. -/
theorem abort_lets_in {s t : Fine} {a : FineAct}
    (hbad : ¬AbortsOutside s a) (hs : fineStep s a = some t) :
    (t.sys.reader.pc = .takeLock → t.readIn = none →
      ∃ u, fineStep t (.call .readStep) = some u ∧ BothIn u) ∧
    (t.sys.writer.pc = .takeLock → t.writeIn = none →
      ∃ u, fineStep t (.call .writeStep) = some u ∧ BothIn u) := by
  cases a with
  | reset => exact absurd trivial hbad
  | call a =>
      cases a with
      | ctlStep i =>
          simp only [AbortsOutside, Classical.not_imp, NobodyIn] at hbad
          obtain ⟨hgive, hin⟩ := hbad
          simp only [fineStep, Option.map_eq_some_iff] at hs
          obtain ⟨u, hu, rfl⟩ := hs
          obtain ⟨pc, hpc, rfl⟩ := sysStep_ctlStep hu
          obtain rfl := Option.some.inj (hpc.symm.trans hgive)
          constructor
          · intro hread hnone
            have hnone' : s.readIn = none := hnone
            have hwrite : s.writeIn ≠ none := fun hw => hin ⟨hnone', hw⟩
            simp only [fineStep, readFine, hnone', if_pos hread]
            exact ⟨_, rfl, by simp, hwrite⟩
          · intro hwrite hnone
            have hnone' : s.writeIn = none := hnone
            have hread : s.readIn ≠ none := fun hr => hin ⟨hr, hnone'⟩
            simp only [fineStep, writeFine, hnone', if_pos hwrite]
            exact ⟨_, rfl, hread, by simp⟩
      | _ => exact absurd trivial hbad

/-! ## The results -/

/-- **Mutual exclusion and an exact count**, in every run from a created ring
in which aborts give the lock only while nobody is inside; and every other
abort lets a second task in. -/
theorem mutual_exclusion {blockSize nBlocks : Int} {allocs : Bool}
    {rb : Ringbuf} (hn : 1 ≤ nBlocks) (hint : blockSize * nBlocks < 2 ^ 31)
    (hrb : rbCreate blockSize nBlocks allocs = some rb) {s : Fine}
    (hrun : fineMachine.Reaches
      (fun u a => ResetsOutside u a ∧ AbortsOutside u a) (.start rb) s) :
    (¬BothIn s ∧
      (NobodyIn s → s.sys.rb.fillCnt + s.removed = s.written)) ∧
    (∀ a t, ¬AbortsOutside s a → fineStep s a = some t →
      (t.sys.reader.pc = .takeLock → t.readIn = none →
        ∃ u, fineStep t (.call .readStep) = some u ∧ BothIn u) ∧
      (t.sys.writer.pc = .takeLock → t.writeIn = none →
        ∃ u, fineStep t (.call .writeStep) = some u ∧ BothIn u)) := by
  obtain ⟨hwf, hempty, -⟩ := rbCreate_wf hn hint hrb
  have hfill : rb.fillCnt = 0 := by
    rw [← hwf.length_contents, hempty]
    rfl
  have hlock : rb.lock = true := rbCreate_lock hrb
  have hinv : Inv s :=
    hrun.invariant (Inv.start hwf hfill hlock) fun u a v hu hok hs =>
      hu.step hok.1 hok.2 hs
  refine ⟨⟨?_, ?_⟩, fun a t hbad hs => abort_lets_in hbad hs⟩
  · rintro ⟨hread, hwrite⟩
    rcases hinv.excl with hnone | hnone
    · exact hread hnone
    · exact hwrite hnone
  · rintro ⟨hread, hwrite⟩
    have hacc := hinv.account
    rw [hread, hwrite] at hacc
    exact hacc

/-- Four bytes are written, an abort comes and goes between two accesses of
the reader outside its section, and the reader takes the bytes. -/
def abortBetween : List FineAct :=
  [FineAct.call (.writeStart [1, 2, 3, 4] .maxDelay)] ++
    List.replicate 7 (FineAct.call .writeStep) ++
    [FineAct.call (.readStart true 4 .maxDelay), .call (.ctlStart .abort)] ++
    List.replicate 5 (FineAct.call (.ctlStep 0)) ++
    List.replicate 7 (FineAct.call .readStep)

theorem mutual_exclusion_abortBetween :
    ∃ rb s, rbCreate 8 1 true = some rb ∧
      fineMachine.runIf (fun u a => ResetsOutside u a ∧ AbortsOutside u a)
        (.start rb) abortBetween = some s ∧
      NobodyIn s ∧ s.sys.rb.fillCnt + s.removed = s.written ∧
      s.written = 4 :=
  ⟨_, _, rfl, rfl, by decide,
    (mutual_exclusion (by decide) (by decide)
      (show rbCreate 8 1 true = some _ by rfl)
      (Machine.reaches_of_runIf (show fineMachine.runIf
        (fun u a => ResetsOutside u a ∧ AbortsOutside u a) _ abortBetween =
          some _ by rfl))).1.2 (by decide), rfl⟩

/-- **An abort breaks the lock.**  The reader has loaded `fill_cnt` when an
abort gives the lock; the writer enters and finishes; the reader then stores
its stale count.  Nobody is inside, eight bytes were written, four were read,
and `fill_cnt` is zero. -/
theorem abort_breaks_lock :
    ∃ (rb : Ringbuf) (before after : List FineAct) (s t : Fine),
      rbCreate 8 1 true = some rb ∧
      (∀ a ∈ before ++ after, a ≠ .reset) ∧
      fineMachine.run (.start rb) before = some s ∧ BothIn s ∧
      fineMachine.run s after = some t ∧ NobodyIn t ∧
      t.written = 8 ∧ t.removed = 4 ∧ t.sys.rb.fillCnt = 0 :=
  ⟨_, [FineAct.call (.writeStart [1, 2, 3, 4] .maxDelay)] ++
      List.replicate 7 (FineAct.call .writeStep) ++
      [FineAct.call (.readStart true 4 .maxDelay)] ++
      List.replicate 4 (FineAct.call .readStep) ++
      [FineAct.call (.ctlStart .abort)] ++
      List.replicate 5 (FineAct.call (.ctlStep 0)) ++
      [FineAct.call (.writeStart [5, 6, 7, 8] .maxDelay), .call .writeStep],
    List.replicate 5 (FineAct.call .writeStep) ++
      List.replicate 2 (FineAct.call .readStep),
    _, _, rfl, by decide, rfl, by decide, rfl, by decide, rfl, rfl, rfl⟩

end EspAdf.Ports.RingBufLock
