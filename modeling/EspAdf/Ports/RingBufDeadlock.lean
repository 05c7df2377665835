import EspAdf.Ports.RingBufTasks

/-!
# When a reader and a writer can block each other for good

One task loops in `rb_read`, one in `rb_write`, both with `portMAX_DELAY`.
Each side gives the other's semaphore only when its whole call ends
(`read_err`, `write_err`), yet it may wait in the middle of the call after it
has already moved bytes.  A call larger than the ring can therefore drain (or
fill) the whole ring without a signal and then wait for a peer that waits for
exactly that signal: `deadlock_reachable` is the schedule.

`SignalsInTime` is the condition under which this cannot happen: no call goes
to wait holding an unsignalled transfer of the size of the ring.
`no_deadlock` proves it sufficient for every run.  The invariant `Inv`
bounds what the waiting side last saw by what the other side has moved and
not signalled.
-/

namespace EspAdf.Ports.RingBufDeadlock

open EspAdf.Verified
open EspAdf.Ports.RingBuf
open EspAdf.Ports.RingBufTasks

/-- The actions of one reader and one writer that wait without limit. -/
def TwoTasks : Act → Prop
  | .readStart _ _ ticks => ticks = .maxDelay
  | .readStep => True
  | .writeStart _ ticks => ticks = .maxDelay
  | .writeStep => True
  | _ => False

instance (a : Act) : Decidable (TwoTasks a) := by
  cases a <;> unfold TwoTasks <;> infer_instance

/-- Both sides are blocked on their semaphores and both are empty. -/
def Deadlocked (s : Sys) : Prop :=
  s.reader.pc = .takeCanRead ∧ s.rb.canRead = false ∧
    s.writer.pc = .takeCanWrite ∧ s.rb.canWrite = false

instance (s : Sys) : Decidable (Deadlocked s) := by
  unfold Deadlocked
  infer_instance

/-- No call goes to wait after it has moved a ring-full without signalling:
a reader that finds nothing to read has moved less than `size - 3` bytes, or
its whole request fits the ring; a writer that finds the ring full has moved
nothing, or less than `size - 3` bytes.  The `3` is the residue that rounding
to words leaves in the ring. -/
def SignalsInTime (s : Sys) : Act → Prop
  | .readStep =>
      s.reader.pc = .takeLock → readSize s.rb s.reader.bufLen = 0 →
        s.reader.totalReadSize + 3 < s.rb.size ∨
          s.reader.totalReadSize + s.reader.bufLen ≤ s.rb.size
  | .writeStep =>
      s.writer.pc = .takeLock → s.rb.fillCnt = s.rb.size →
        s.writer.totalWriteSize = 0 ∨
          s.writer.totalWriteSize + 3 < s.rb.size
  | _ => True

instance (s : Sys) (a : Act) : Decidable (SignalsInTime s a) := by
  cases a <;> unfold SignalsInTime <;> infer_instance

/-! ## The invariant -/

/-- Bytes the reader's call removed before it gives `can_write`. -/
def unsignalledRead (c : ReadCall) : Nat :=
  if c.pc = .idle ∨ c.pc = .clearUnblock then 0 else c.totalReadSize

/-- Bytes the writer's call added before it gives `can_read`. -/
def unsignalledWrite (c : WriteCall) : Nat :=
  if c.pc = .idle then 0 else c.totalWriteSize

structure Inv (s : Sys) : Prop where
  wf : s.rb.WF
  readReq : s.reader.pc = .takeLock ∨ ReadWaits s.reader →
    0 < s.reader.bufLen
  writeReq : s.writer.pc = .takeLock ∨ WriteWaits s.writer →
    0 < s.writer.buf.length
  /-- What is queued beyond a residue came from the writer's open call. -/
  readSaw : ReadWaits s.reader → s.rb.canRead = false →
    s.rb.fillCnt < min 4 s.reader.bufLen + unsignalledWrite s.writer
  /-- What is missing from a full ring went to the reader's open call. -/
  writeSaw : WriteWaits s.writer → s.rb.canWrite = false →
    s.rb.size ≤ s.rb.fillCnt + unsignalledRead s.reader
  /-- The side that looked last still sees what it saw. -/
  last : ReadWaits s.reader → WriteWaits s.writer →
    s.rb.fillCnt = s.rb.size ∨ s.rb.fillCnt < min 4 s.reader.bufLen
  readOk : ReadWaits s.reader →
    s.reader.totalReadSize + 3 < s.rb.size ∨
      s.reader.totalReadSize + s.reader.bufLen ≤ s.rb.size
  writeOk : WriteWaits s.writer →
    s.writer.totalWriteSize = 0 ∨ s.writer.totalWriteSize + 3 < s.rb.size

theorem Inv.start {rb : Ringbuf} (h : rb.WF) : Inv (.start rb) := by
  constructor <;>
    simp [h, Sys.start, ReadCall.idle, WriteCall.idle, ReadWaits, WriteWaits]

/-- The invariant excludes the deadlock: whichever side looked last, the
other side's open call would hold a ring-full. -/
theorem Inv.not_deadlocked {s : Sys} (h : Inv s) : ¬Deadlocked s := by
  rintro ⟨hr, hcr, hw, hcw⟩
  have hrw : ReadWaits s.reader := .inr (.inr (.inr hr))
  have hww : WriteWaits s.writer := .inr (.inr hw)
  have hread := h.readSaw hrw hcr
  have hwrite := h.writeSaw hww hcw
  have hro := h.readOk hrw
  have hwo := h.writeOk hww
  rw [unsignalledWrite, if_neg (by simp [hw])] at hread
  rw [unsignalledRead, if_neg (by simp [hr])] at hwrite
  rcases h.last hrw hww with hfull | hempty <;> omega

section Read

variable {s : Sys} {rb : Ringbuf} {c : ReadCall} {out : List Byte}

/-- An empty look leaves less than a word, and less than was asked for. -/
theorem looked_less (h : Inv s) (hpc : s.reader.pc = .takeLock)
    (hzero : readSize s.rb s.reader.bufLen = 0) :
    s.rb.fillCnt < min 4 s.reader.bufLen := by
  have hreq := h.readReq (.inl hpc)
  have hless := (readSize_eq_zero_iff h.wf s.reader.bufLen).mp hzero
  omega

/-- The reader looks, or what it saw is unchanged. -/
theorem read_readSaw (h : Inv s) (hm : ReadMove s.rb s.reader rb c out) :
    ReadWaits c → rb.canRead = false →
      rb.fillCnt < min 4 c.bufLen + unsignalledWrite s.writer := by
  intro hw hcr
  obtain ⟨rfl, hlen, -, hlook | hold⟩ := hm.waits hw
  · have hless := looked_less h hlook.1 hlook.2
    omega
  · rw [hlen]
    exact h.readSaw hold hcr

/-- What the reader takes out is in its open call, until it gives
`can_write`. -/
theorem read_unsignalled (h : Inv s) (hm : ReadMove s.rb s.reader rb c out)
    (hcw : rb.canWrite = false) :
    s.rb.canWrite = false ∧ s.rb.fillCnt + unsignalledRead s.reader ≤
      rb.fillCnt + unsignalledRead c := by
  cases hm with
  | moved p hpc hpos hwf hcont =>
      refine ⟨hcw, ?_⟩
      have hfill := readSize_le_fill h.wf s.reader.bufLen
      by_cases hz : s.reader.bufLen - readSize s.rb s.reader.bufLen = 0 <;>
        simp only [unsignalledRead, hpc, hz, if_true, if_false, reduceCtorEq,
          or_self] <;>
        omega
  | gave hpc hpos => contradiction
  | kept hpc hzero =>
      refine ⟨hcw, ?_⟩
      simp [unsignalledRead, hpc, hzero]
  | _ hpc =>
      refine ⟨hcw, ?_⟩
      simp [unsignalledRead, hpc]

theorem read_writeSaw (h : Inv s) (hm : ReadMove s.rb s.reader rb c out) :
    WriteWaits s.writer → rb.canWrite = false →
      rb.size ≤ rb.fillCnt + unsignalledRead c := by
  intro hw hcw
  obtain ⟨hold, hle⟩ := read_unsignalled h hm hcw
  have hsaw := h.writeSaw hw hold
  have hsize := hm.size
  omega

theorem read_last (h : Inv s) (hm : ReadMove s.rb s.reader rb c out) :
    ReadWaits c → WriteWaits s.writer →
      rb.fillCnt = rb.size ∨ rb.fillCnt < min 4 c.bufLen := by
  intro hw hww
  obtain ⟨rfl, hlen, -, hlook | hold⟩ := hm.waits hw
  · rw [hlen]
    exact .inr (looked_less h hlook.1 hlook.2)
  · rw [hlen]
    exact h.last hold hww

theorem read_readOk (h : Inv s) (hok : SignalsInTime s .readStep)
    (hm : ReadMove s.rb s.reader rb c out) :
    ReadWaits c → c.totalReadSize + 3 < rb.size ∨
      c.totalReadSize + c.bufLen ≤ rb.size := by
  intro hw
  obtain ⟨rfl, hlen, htotal, hlook | hold⟩ := hm.waits hw
  · rw [hlen, htotal]
    exact hok hlook.1 hlook.2
  · rw [hlen, htotal]
    exact h.readOk hold

theorem read_inv (h : Inv s) (hok : SignalsInTime s .readStep)
    (hm : ReadMove s.rb s.reader rb c out) :
    Inv { s with
      rb := rb, reader := c, delivered := s.delivered ++ out } := by
  have hreq := hm.bufLen_pos h.readReq
  have hread := read_readSaw h hm
  have hwrite := read_writeSaw h hm
  have hlast := read_last h hm
  have hro := read_readOk h hok hm
  have hsize : rb.size = s.rb.size := hm.size
  have hwo := h.writeOk
  rw [← hsize] at hwo
  exact ⟨hm.wf h.wf, hreq, h.writeReq, hread, hwrite, hlast, hro, hwo⟩

end Read

section Write

variable {s : Sys} {rb : Ringbuf} {c : WriteCall} {bytes : List Byte}

/-- A look in vain leaves a full ring. -/
theorem looked_full (h : Inv s) (hpc : s.writer.pc = .takeLock)
    (hzero : min s.writer.buf.length (s.rb.size - s.rb.fillCnt) = 0) :
    s.rb.fillCnt = s.rb.size := by
  have hreq := h.writeReq (.inl hpc)
  have hfill := h.wf.fillLe
  omega

/-- What the writer puts in is in its open call, until it gives `can_read`. -/
theorem write_unsignalled (hm : WriteMove s.rb s.writer rb c bytes)
    (hcr : rb.canRead = false) :
    s.rb.canRead = false ∧ rb.fillCnt + unsignalledWrite s.writer ≤
      s.rb.fillCnt + unsignalledWrite c := by
  cases hm with
  | moved n mem p hpc hn hpos hwf hcont =>
      refine ⟨hcr, ?_⟩
      by_cases hz : s.writer.buf.length - n = 0 <;>
        simp only [unsignalledWrite, hpc, hz, if_true, if_false,
          reduceCtorEq] <;>
        omega
  | gave hpc hpos => contradiction
  | kept hpc hzero =>
      refine ⟨hcr, ?_⟩
      simp [unsignalledWrite, hpc, hzero]
  | _ hpc =>
      refine ⟨hcr, ?_⟩
      simp [unsignalledWrite, hpc]

theorem write_readSaw (h : Inv s)
    (hm : WriteMove s.rb s.writer rb c bytes) :
    ReadWaits s.reader → rb.canRead = false →
      rb.fillCnt < min 4 s.reader.bufLen + unsignalledWrite c := by
  intro hw hcr
  obtain ⟨hold, hle⟩ := write_unsignalled hm hcr
  have hsaw := h.readSaw hw hold
  omega

/-- The writer looks, or what it saw is unchanged. -/
theorem write_writeSaw (h : Inv s)
    (hm : WriteMove s.rb s.writer rb c bytes) :
    WriteWaits c → rb.canWrite = false →
      rb.size ≤ rb.fillCnt + unsignalledRead s.reader := by
  intro hw hcw
  obtain ⟨rfl, -, hlook | hold⟩ := hm.waits hw
  · have hfull := looked_full h hlook.1 hlook.2
    omega
  · exact h.writeSaw hold hcw

theorem write_last (h : Inv s)
    (hm : WriteMove s.rb s.writer rb c bytes) :
    ReadWaits s.reader → WriteWaits c →
      rb.fillCnt = rb.size ∨ rb.fillCnt < min 4 s.reader.bufLen := by
  intro hw hww
  obtain ⟨rfl, -, hlook | hold⟩ := hm.waits hww
  · exact .inl (looked_full h hlook.1 hlook.2)
  · exact h.last hw hold

theorem write_writeOk (h : Inv s) (hok : SignalsInTime s .writeStep)
    (hm : WriteMove s.rb s.writer rb c bytes) :
    WriteWaits c →
      c.totalWriteSize = 0 ∨ c.totalWriteSize + 3 < rb.size := by
  intro hw
  obtain ⟨rfl, htotal, hlook | hold⟩ := hm.waits hw
  · rw [htotal]
    exact hok hlook.1 (looked_full h hlook.1 hlook.2)
  · rw [htotal]
    exact h.writeOk hold

theorem write_inv (h : Inv s) (hok : SignalsInTime s .writeStep)
    (hm : WriteMove s.rb s.writer rb c bytes) :
    Inv { s with
      rb := rb, writer := c, accepted := s.accepted ++ bytes } := by
  have hreq := hm.length_pos h.writeReq
  have hread := write_readSaw h hm
  have hwrite := write_writeSaw h hm
  have hlast := write_last h hm
  have hwo := write_writeOk h hok hm
  have hsize : rb.size = s.rb.size := hm.size
  have hro := h.readOk
  rw [← hsize] at hro
  exact ⟨hm.wf h.wf, h.readReq, hreq, hread, hwrite, hlast, hro, hwo⟩

end Write

theorem not_readWaits_start (buf : Bool) (bufLen : Nat) (ticks : Ticks) :
    ¬ReadWaits (.start buf bufLen ticks) := by
  by_cases hlen : bufLen = 0 <;> simp [ReadWaits, ReadCall.start, hlen]

theorem not_writeWaits_start (buf : List Byte) (ticks : Ticks) :
    ¬WriteWaits (.start buf ticks) := by
  by_cases hlen : buf.length = 0 <;> simp [WriteWaits, WriteCall.start, hlen]

/-- Starting a call changes no bytes and leaves nothing unsignalled. -/
theorem readStart_inv {s : Sys} {buf : Bool} {bufLen : Nat} {ticks : Ticks}
    (h : Inv s) (hidle : s.reader.pc = .idle) :
    Inv { s with reader := .start buf bufLen ticks } := by
  have hnot := not_readWaits_start buf bufLen ticks
  refine
    { wf := h.wf, readReq := ?_, writeReq := h.writeReq
      readSaw := fun hw => absurd hw hnot, writeSaw := ?_
      last := fun hw => absurd hw hnot
      readOk := fun hw => absurd hw hnot, writeOk := h.writeOk }
  · rintro (hpc | hw)
    · by_cases hlen : bufLen = 0
      · simp [ReadCall.start, hlen] at hpc
      · exact Nat.pos_of_ne_zero hlen
    · exact absurd hw hnot
  · intro hw hcw
    have hsaw := h.writeSaw hw hcw
    rw [unsignalledRead, if_pos (.inl hidle)] at hsaw
    exact Nat.le_trans hsaw (Nat.le_add_right _ _)

theorem writeStart_inv {s : Sys} {buf : List Byte} {ticks : Ticks}
    (h : Inv s) (hidle : s.writer.pc = .idle) :
    Inv { s with writer := .start buf ticks } := by
  have hnot := not_writeWaits_start buf ticks
  refine
    { wf := h.wf, readReq := h.readReq, writeReq := ?_
      readSaw := ?_, writeSaw := fun hw => absurd hw hnot
      last := fun _ hw => absurd hw hnot
      readOk := h.readOk, writeOk := fun hw => absurd hw hnot }
  · rintro (hpc | hw)
    · by_cases hlen : buf.length = 0
      · simp [WriteCall.start, hlen] at hpc
      · exact Nat.pos_of_ne_zero hlen
    · exact absurd hw hnot
  · intro hw hcr
    have hsaw := h.readSaw hw hcr
    rw [unsignalledWrite, if_pos hidle] at hsaw
    exact Nat.lt_of_lt_of_le hsaw (Nat.le_add_right _ _)

/-- **One action** of the two tasks keeps the invariant. -/
theorem step_inv {s t : Sys} {a : Act} (h : Inv s) (htask : TwoTasks a)
    (hok : SignalsInTime s a) (hs : sysStep s a = some t) : Inv t := by
  cases a with
  | readStart buf bufLen ticks =>
      simp only [sysStep, Option.ite_none_right_eq_some] at hs
      obtain ⟨hidle, hs⟩ := hs
      obtain rfl := Option.some.inj hs
      exact readStart_inv h hidle
  | readStep =>
      obtain ⟨rb, c, out, hm, rfl⟩ := sysStep_readStep h.wf hs
      exact read_inv h hok hm
  | writeStart buf ticks =>
      simp only [sysStep, Option.ite_none_right_eq_some] at hs
      obtain ⟨hidle, hs⟩ := hs
      obtain rfl := Option.some.inj hs
      exact writeStart_inv h hidle
  | writeStep =>
      obtain ⟨rb, c, bytes, hm, rfl⟩ := sysStep_writeStep h.wf hs
      exact write_inv h hok hm
  | readTimeout => exact htask.elim
  | writeTimeout => exact htask.elim
  | ctlStart c => exact htask.elim
  | ctlStep i => exact htask.elim

/-! ## The results -/

/-- **No deadlock** in any run, from a created ring, in which no call goes to
wait holding an unsignalled transfer of the size of the ring. -/
theorem no_deadlock {blockSize nBlocks : Int} {allocs : Bool} {rb : Ringbuf}
    (hn : 1 ≤ nBlocks) (hint : blockSize * nBlocks < 2 ^ 31)
    (hrb : rbCreate blockSize nBlocks allocs = some rb) {s : Sys}
    (hrun : sysMachine.Reaches (fun u a => TwoTasks a ∧ SignalsInTime u a)
      (.start rb) s) :
    ¬Deadlocked s := by
  obtain ⟨hwf, -, -⟩ := rbCreate_wf hn hint hrb
  have hinv : Inv s :=
    hrun.invariant (Inv.start hwf) fun u a v hu hok hs =>
      step_inv hu hok.1 hok.2 hs
  exact hinv.not_deadlocked

/-- Five bytes written, then a read of eight that takes four and waits. -/
def partialTransfer : List Act :=
  [.writeStart [1, 2, 3, 4, 5] .maxDelay, .writeStep,
    .readStart true 8 .maxDelay, .readStep, .readStep, .readStep, .readStep,
    .readStep]

/-- A run on an eight-byte ring that meets the condition although the reader
waits in the middle of its call: it has moved four bytes, fewer than five. -/
theorem no_deadlock_partial :
    ∃ rb s, rbCreate 8 1 true = some rb ∧
      sysMachine.runIf (fun u a => TwoTasks a ∧ SignalsInTime u a)
        (.start rb) partialTransfer = some s ∧ ¬Deadlocked s :=
  ⟨_, _, rfl, rfl, no_deadlock (by decide) (by decide)
    (show rbCreate 8 1 true = some _ by rfl)
    (Machine.reaches_of_runIf (show sysMachine.runIf
      (fun u a => TwoTasks a ∧ SignalsInTime u a) _ partialTransfer = some _
      by rfl))⟩

/-- **The deadlock.**  On an eight-byte ring the writer puts eight of its
sixteen bytes and waits; the reader, asked for a hundred, drains the ring
without giving `can_write` and waits for more. -/
theorem deadlock_reachable :
    ∃ (rb : Ringbuf) (acts : List Act) (s : Sys),
      rbCreate 8 1 true = some rb ∧ (∀ a ∈ acts, TwoTasks a) ∧
      sysMachine.run (.start rb) acts = some s ∧ Deadlocked s :=
  ⟨_, [.writeStart (List.replicate 16 1) .maxDelay, .writeStep, .writeStep,
      .writeStep, .writeStep, .readStart true 100 .maxDelay, .readStep,
      .readStep, .readStep, .readStep, .readStep],
    _, rfl, by decide, rfl, by decide⟩

end EspAdf.Ports.RingBufDeadlock
