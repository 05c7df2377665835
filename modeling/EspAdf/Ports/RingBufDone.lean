import EspAdf.Ports.RingBufTasks

/-!
# Is a stream complete when `rb_read` says `RB_DONE`?

A writer hands in any number of byte strings and then calls `rb_done_write`;
a reader keeps calling `rb_read`.  `RB_DONE` is returned by a call that moved
nothing, after a locked section that found nothing to read.  Two things make
that answer come too early:

* "nothing to read" is also what a request larger than the ring's contents
  finds when one to three bytes are left, because the size is rounded down to
  a word (`residue_lost`);
* `is_done_write` is tested after the lock is given back, so the writer may
  write and finish between the look and the test.

`LooksComplete` excludes exactly these two steps.  `done_is_complete` shows
that without them every byte accepted has been delivered when `RB_DONE` is
returned, and that each of them makes the reader return `RB_DONE` with bytes
left in the ring.
-/

namespace EspAdf.Ports.RingBufDone

open EspAdf.Verified
open EspAdf.Ports.RingBuf
open EspAdf.Ports.RingBufTasks

/-- The client discipline of a stream: reads have a buffer and a positive
length, and `rb_done_write` follows the last `rb_write`.  Aborts and
unblocks may come at any time. -/
def EndOfStream (s : Sys) : Act → Prop
  | .readStart buf bufLen _ => buf = true ∧ 0 < bufLen
  | .writeStart _ _ => s.rb.isDoneWrite = false ∧ CtlPc.doneFlag ∉ s.ctls
  | .ctlStart .doneWrite => s.writer.pc = .idle
  | _ => True

instance (s : Sys) (a : Act) : Decidable (EndOfStream s a) :=
  match a with
  | .readStart _ _ _ => inferInstanceAs (Decidable (_ ∧ _))
  | .writeStart _ _ => inferInstanceAs (Decidable (_ ∧ _))
  | .ctlStart .doneWrite => inferInstanceAs (Decidable (_ = _))
  | .ctlStart .abort => inferInstanceAs (Decidable True)
  | .ctlStart .unblockReader => inferInstanceAs (Decidable True)
  | .readStep => inferInstanceAs (Decidable True)
  | .readTimeout => inferInstanceAs (Decidable True)
  | .writeStep => inferInstanceAs (Decidable True)
  | .writeTimeout => inferInstanceAs (Decidable True)
  | .ctlStep _ => inferInstanceAs (Decidable True)

/-- A call that has moved nothing does not look at a residue of one to three
bytes once the stream is done, and the stream is not marked done between such
a call's look and its test unless the ring is empty. -/
def LooksComplete (s : Sys) : Act → Prop
  | .readStep =>
      s.reader.pc = .takeLock → s.reader.totalReadSize = 0 →
        s.rb.isDoneWrite = true → s.rb.fillCnt < s.reader.bufLen →
        s.rb.fillCnt < 4 → s.rb.fillCnt = 0
  | .ctlStep i =>
      s.ctls[i]? = some .doneFlag → s.reader.pc = .testDone →
        s.reader.totalReadSize = 0 → s.rb.fillCnt = 0
  | _ => True

instance (s : Sys) (a : Act) : Decidable (LooksComplete s a) :=
  match a with
  | .readStep => inferInstanceAs (Decidable (_ → _))
  | .ctlStep _ => inferInstanceAs (Decidable (_ → _))
  | .readStart _ _ _ => inferInstanceAs (Decidable True)
  | .readTimeout => inferInstanceAs (Decidable True)
  | .writeStart _ _ => inferInstanceAs (Decidable True)
  | .writeStep => inferInstanceAs (Decidable True)
  | .writeTimeout => inferInstanceAs (Decidable True)
  | .ctlStart _ => inferInstanceAs (Decidable True)

/-- The reader's call is about to return `RB_DONE`. -/
def ReturnsDone (s : Sys) : Prop :=
  s.reader.pc = .clearUnblock ∧ s.reader.result = RB_DONE

instance (s : Sys) : Decidable (ReturnsDone s) := by
  unfold ReturnsDone
  infer_instance

/-- Only a call that moved nothing and saw `is_done_write` returns
`RB_DONE`. -/
theorem result_eq_done {c : ReadCall} :
    c.result = RB_DONE → c.retVal = RB_DONE ∧ c.totalReadSize = 0 := by
  intro h
  unfold ReadCall.result RB_DONE RB_FAIL RB_ABORT at *
  by_cases hfail : c.retVal = -1 ∨ c.retVal = -3
  · rw [if_pos hfail] at h
    rcases hfail with hr | hr <;> rw [hr] at h <;> simp at h
  · rw [if_neg hfail] at h
    by_cases htotal : (c.totalReadSize : Int) > 0
    · rw [if_pos htotal] at h
      omega
    · rw [if_neg htotal] at h
      exact ⟨h, by omega⟩

theorem result_done (c : ReadCall) (hr : c.retVal = RB_DONE)
    (ht : c.totalReadSize = 0) : c.result = RB_DONE := by
  simp [ReadCall.result, hr, ht, RB_DONE, RB_FAIL, RB_ABORT]

/-! ## The stream invariant -/

/-- What holds in every run that keeps the client discipline. -/
structure Stream (s : Sys) : Prop where
  wf : s.rb.WF
  /-- Nothing is lost or reordered on the way. -/
  conserve : s.accepted = s.delivered ++ s.rb.contents
  /-- Once the stream is done, or about to be, nobody writes. -/
  quiet : s.rb.isDoneWrite = true ∨ CtlPc.doneFlag ∈ s.ctls →
    s.writer.pc = .idle
  hasBuf : s.reader.buf = true
  readReq : s.reader.pc = .takeLock ∨ ReadWaits s.reader →
    0 < s.reader.bufLen

theorem Stream.start {rb : Ringbuf} (hwf : rb.WF) (hempty : rb.contents = [])
    : Stream (.start rb) where
  wf := hwf
  conserve := hempty.symm
  quiet := fun _ => rfl
  hasBuf := rfl
  readReq := by
    intro h
    simp [Sys.start, ReadCall.idle, ReadWaits] at h

/-- In a stream, all accepted bytes are delivered exactly when the ring is
empty. -/
theorem Stream.delivered_iff {s : Sys} (h : Stream s) :
    s.delivered = s.accepted ↔ s.rb.fillCnt = 0 := by
  rw [h.conserve, ← h.wf.length_contents, List.length_eq_zero_iff,
    List.self_eq_append_right]

theorem Stream.read {s : Sys} {rb : Ringbuf} {c : ReadCall}
    {out : List Byte} (h : Stream s) (hm : ReadMove s.rb s.reader rb c out) :
    Stream { s with
      rb := rb, reader := c, delivered := s.delivered ++ out } := by
  have hcons : s.accepted = (s.delivered ++ out) ++ rb.contents := by
    rw [List.append_assoc, hm.contents h.hasBuf]
    exact h.conserve
  have hquiet : rb.isDoneWrite = true ∨ CtlPc.doneFlag ∈ s.ctls →
      s.writer.pc = .idle := by
    cases hm <;> exact h.quiet
  have hbuf : c.buf = true := by
    cases hm <;> exact h.hasBuf
  exact ⟨hm.wf h.wf, hcons, hquiet, hbuf, hm.bufLen_pos h.readReq⟩

theorem Stream.write {s : Sys} {rb : Ringbuf} {c : WriteCall}
    {bytes : List Byte} (h : Stream s)
    (hm : WriteMove s.rb s.writer rb c bytes) :
    Stream { s with
      rb := rb, writer := c, accepted := s.accepted ++ bytes } := by
  have hcons : s.accepted ++ bytes = s.delivered ++ rb.contents := by
    rw [hm.contents, h.conserve, List.append_assoc]
  refine ⟨hm.wf h.wf, hcons, ?_, h.hasBuf, h.readReq⟩
  -- A writer that moves is not idle, so the stream is still open.
  intro hd
  have hd' : s.rb.isDoneWrite = true ∨ CtlPc.doneFlag ∈ s.ctls := by
    rw [← hm.isDoneWrite]
    exact hd
  exact absurd (h.quiet hd') hm.not_idle

/-- A statement of `rb_done_write` raises the flag that was announced. -/
theorem ctlNext_isDoneWrite (rb : Ringbuf) (pc : CtlPc) :
    (ctlNext rb pc).1.isDoneWrite = true →
      rb.isDoneWrite = true ∨ pc = .doneFlag := by
  cases pc <;> simp [ctlNext]

theorem ctlNext_ne_doneFlag (rb : Ringbuf) (pc : CtlPc) :
    (ctlNext rb pc).2 ≠ some .doneFlag := by
  cases pc <;> simp [ctlNext]

/-- **One action** of any party keeps the stream invariant. -/
theorem Stream.step {s t : Sys} {a : Act} (h : Stream s)
    (hdom : EndOfStream s a) (hs : sysStep s a = some t) : Stream t := by
  cases a with
  | readStart buf bufLen ticks =>
      simp only [sysStep, Option.ite_none_right_eq_some] at hs
      obtain ⟨-, hs⟩ := hs
      obtain rfl := Option.some.inj hs
      exact ⟨h.wf, h.conserve, h.quiet, hdom.1, fun _ => hdom.2⟩
  | readStep =>
      obtain ⟨rb, c, out, hm, rfl⟩ := sysStep_readStep h.wf hs
      exact h.read hm
  | readTimeout =>
      simp only [sysStep, Option.ite_none_right_eq_some] at hs
      obtain ⟨-, hs⟩ := hs
      obtain rfl := Option.some.inj hs
      refine ⟨h.wf, h.conserve, h.quiet, h.hasBuf, ?_⟩
      intro hp
      simp [ReadWaits] at hp
  | writeStart buf ticks =>
      simp only [sysStep, Option.ite_none_right_eq_some] at hs
      obtain ⟨-, hs⟩ := hs
      obtain rfl := Option.some.inj hs
      refine ⟨h.wf, h.conserve, ?_, h.hasBuf, h.readReq⟩
      rintro (hd | hd)
      · have hd' : s.rb.isDoneWrite = true := hd
        rw [hdom.1] at hd'
        contradiction
      · exact absurd hd hdom.2
  | writeStep =>
      obtain ⟨rb, c, bytes, hm, rfl⟩ := sysStep_writeStep h.wf hs
      exact h.write hm
  | writeTimeout =>
      simp only [sysStep, Option.ite_none_right_eq_some] at hs
      obtain ⟨⟨hpc, -, -⟩, hs⟩ := hs
      obtain rfl := Option.some.inj hs
      refine ⟨h.wf, h.conserve, ?_, h.hasBuf, h.readReq⟩
      intro hd
      have hidle := h.quiet hd
      rw [hpc] at hidle
      contradiction
  | ctlStart c =>
      obtain rfl := Option.some.inj hs
      refine ⟨h.wf, h.conserve, ?_, h.hasBuf, h.readReq⟩
      intro hd
      rw [List.mem_append, List.mem_singleton] at hd
      cases c with
      | doneWrite => exact hdom
      | abort => exact h.quiet (by simpa [Ctl.start] using hd)
      | unblockReader => exact h.quiet (by simpa [Ctl.start] using hd)
  | ctlStep i =>
      obtain ⟨pc, hpc, rfl⟩ := sysStep_ctlStep hs
      have hsame := ctlNext_sameBytes s.rb pc
      refine ⟨hsame.wf h.wf, ?_, ?_, h.hasBuf, h.readReq⟩
      · show s.accepted = s.delivered ++ (ctlNext s.rb pc).1.contents
        rw [hsame.contents]
        exact h.conserve
      · rintro (hd | hd)
        · rcases ctlNext_isDoneWrite s.rb pc hd with hold | rfl
          · exact h.quiet (.inl hold)
          · exact h.quiet (.inr (List.mem_of_getElem? hpc))
        · rcases mem_ctls_ctlStep hd with hold | hnew
          · exact h.quiet (.inr hold)
          · exact absurd hnew (ctlNext_ne_doneFlag s.rb pc)

/-! ## What a look that ends the stream has seen -/

/-- The call will return `RB_DONE` unless it moved bytes. -/
def Ending (c : ReadCall) : Prop :=
  (c.pc = .readErr ∨ c.pc = .clearUnblock) ∧ c.retVal = RB_DONE

/-- A call that moved nothing and is about to learn, or has learned, that the
stream is done stands before an empty ring. -/
structure Seen (s : Sys) : Prop where
  tested : s.reader.pc = .testDone → s.rb.isDoneWrite = true →
    s.reader.totalReadSize = 0 → s.rb.fillCnt = 0
  /-- The return value is set only on the way out. -/
  running : s.reader.pc ≠ .readErr → s.reader.pc ≠ .clearUnblock →
    s.reader.pc ≠ .idle → s.reader.retVal = 0
  ended : Ending s.reader → s.rb.isDoneWrite = true ∧
    (s.reader.totalReadSize = 0 → s.rb.fillCnt = 0)

theorem Seen.start (rb : Ringbuf) : Seen (.start rb) := by
  constructor <;> simp [Sys.start, ReadCall.idle, Ending]

/-- A call that has no return value yet and is not about to test. -/
theorem Seen.of_running {s : Sys} (hpc : s.reader.pc ≠ .testDone)
    (hret : s.reader.retVal = 0) : Seen s where
  tested := fun htest => absurd htest hpc
  running := fun _ _ _ => hret
  ended := by
    rintro ⟨-, hdone⟩
    rw [hret] at hdone
    contradiction

/-- A call that has left the loop. -/
theorem Seen.of_left {s : Sys} (hpc : s.reader.pc = .readErr ∨
      s.reader.pc = .clearUnblock ∨ s.reader.pc = .idle)
    (hended : Ending s.reader → s.rb.isDoneWrite = true ∧
      (s.reader.totalReadSize = 0 → s.rb.fillCnt = 0)) : Seen s where
  tested := by
    intro htest
    simp [htest] at hpc
  running := by
    intro herr hclear hidle
    simp [herr, hclear, hidle] at hpc
  ended := hended

theorem Seen.read {s : Sys} {rb : Ringbuf} {c : ReadCall} {out : List Byte}
    (hst : Stream s) (h : Seen s) (hok : LooksComplete s .readStep)
    (hm : ReadMove s.rb s.reader rb c out) :
    Seen { s with
      rb := rb, reader := c, delivered := s.delivered ++ out } := by
  have hrun := h.running
  cases hm with
  | nothing hpc hzero =>
      have hret : s.reader.retVal = 0 := hrun (by simp [hpc]) (by simp [hpc])
        (by simp [hpc])
      have hreq := hst.readReq (.inl hpc)
      rcases (readSize_eq_zero_iff hst.wf _).mp hzero with hnone | hless
      · omega
      · exact
          { tested := fun _ hd ht => hok hpc ht hd hless.1 hless.2
            running := fun _ _ _ => hret
            ended := by rintro ⟨hleft, -⟩; simp at hleft }
  | moved p hpc hpos hwf hcont =>
      refine .of_running ?_
        (hrun (by simp [hpc]) (by simp [hpc]) (by simp [hpc]))
      by_cases hz : s.reader.bufLen - readSize s.rb s.reader.bufLen = 0 <;>
        simp [hz]
  | gotDone hpc hflag =>
      exact .of_left (.inl rfl) fun _ => ⟨hflag, h.tested hpc hflag⟩
  | gotAbort hpc hflag =>
      refine .of_left (.inl rfl) ?_
      rintro ⟨-, hret⟩
      have hne : RB_ABORT ≠ RB_DONE := by decide
      exact absurd hret hne
  | gotUnblock hpc hflag =>
      refine .of_left (.inl rfl) ?_
      rintro ⟨-, hret⟩
      have hne : RB_TIMEOUT ≠ RB_DONE := by decide
      exact absurd hret hne
  | gave hpc hpos =>
      exact .of_left (.inr (.inl rfl)) fun he => h.ended ⟨.inl hpc, he.2⟩
  | kept hpc hzero =>
      exact .of_left (.inr (.inl rfl)) fun he => h.ended ⟨.inl hpc, he.2⟩
  | returned hpc =>
      refine .of_left (.inr (.inr rfl)) ?_
      rintro ⟨hleft, -⟩
      simp at hleft
  | _ hpc =>
      exact .of_running (by simp)
        (hrun (by simp [hpc]) (by simp [hpc]) (by simp [hpc]))

/-- Once the stream is done the writer is idle and cannot move. -/
theorem Seen.write {s : Sys} {rb : Ringbuf} {c : WriteCall}
    {bytes : List Byte} (hst : Stream s) (h : Seen s)
    (hm : WriteMove s.rb s.writer rb c bytes) :
    Seen { s with
      rb := rb, writer := c, accepted := s.accepted ++ bytes } := by
  have hopen : ¬s.rb.isDoneWrite = true := fun hd =>
    hm.not_idle (hst.quiet (.inl hd))
  refine ⟨?_, h.running, ?_⟩
  · intro hpc hd
    rw [hm.isDoneWrite] at hd
    exact absurd hd hopen
  · intro he
    exact absurd (h.ended he).1 hopen

theorem Seen.ctl {s : Sys} {i : Nat} {pc : CtlPc} {ctls : List CtlPc}
    (h : Seen s) (hpc : s.ctls[i]? = some pc)
    (hok : LooksComplete s (.ctlStep i)) :
    Seen { s with rb := (ctlNext s.rb pc).1, ctls := ctls } := by
  have hfill := (ctlNext_sameBytes s.rb pc).fillCnt
  have hraise := ctlNext_isDoneWrite s.rb pc
  have hkeep : s.rb.isDoneWrite = true →
      (ctlNext s.rb pc).1.isDoneWrite = true := by
    cases pc <;> simp [ctlNext]
  refine ⟨?_, h.running, ?_⟩
  · intro hp hd ht
    show (ctlNext s.rb pc).1.fillCnt = 0
    rw [hfill]
    rcases hraise hd with hold | rfl
    · exact h.tested hp hold ht
    · exact hok hpc hp ht
  · intro hp
    have hold := h.ended hp
    refine ⟨hkeep hold.1, ?_⟩
    intro ht
    show (ctlNext s.rb pc).1.fillCnt = 0
    rw [hfill]
    exact hold.2 ht

theorem Seen.step {s t : Sys} {a : Act} (hst : Stream s) (h : Seen s)
    (hok : LooksComplete s a) (hs : sysStep s a = some t) : Seen t := by
  cases a with
  | readStart buf bufLen ticks =>
      simp only [sysStep, Option.ite_none_right_eq_some] at hs
      obtain ⟨-, hs⟩ := hs
      obtain rfl := Option.some.inj hs
      constructor <;> simp only [ReadCall.start, Ending, RB_DONE] <;>
        split <;> simp
  | readStep =>
      obtain ⟨rb, c, out, hm, rfl⟩ := sysStep_readStep hst.wf hs
      exact h.read hst hok hm
  | readTimeout =>
      simp only [sysStep, Option.ite_none_right_eq_some] at hs
      obtain ⟨-, hs⟩ := hs
      obtain rfl := Option.some.inj hs
      constructor <;> simp [Ending, RB_DONE, RB_TIMEOUT]
  | writeStart buf ticks =>
      simp only [sysStep, Option.ite_none_right_eq_some] at hs
      obtain ⟨-, hs⟩ := hs
      obtain rfl := Option.some.inj hs
      exact ⟨h.tested, h.running, h.ended⟩
  | writeStep =>
      obtain ⟨rb, c, bytes, hm, rfl⟩ := sysStep_writeStep hst.wf hs
      exact h.write hst hm
  | writeTimeout =>
      simp only [sysStep, Option.ite_none_right_eq_some] at hs
      obtain ⟨-, hs⟩ := hs
      obtain rfl := Option.some.inj hs
      exact ⟨h.tested, h.running, h.ended⟩
  | ctlStart c =>
      obtain rfl := Option.some.inj hs
      exact ⟨h.tested, h.running, h.ended⟩
  | ctlStep i =>
      obtain ⟨pc, hpc, rfl⟩ := sysStep_ctlStep hs
      exact h.ctl hpc hok

/-! ## What happens otherwise -/

/-- A call that moved nothing, about to test `is_done_write` on a finished
stream with bytes left, returns `RB_DONE` and leaves them. -/
theorem returns_early {s : Sys} (hst : Stream s)
    (hpc : s.reader.pc = .testDone) (hdone : s.rb.isDoneWrite = true)
    (htotal : s.reader.totalReadSize = 0) (hleft : s.rb.fillCnt ≠ 0) :
    ∃ t, sysMachine.run s [.readStep, .readStep] = some t ∧
      ReturnsDone t ∧ t.delivered ≠ t.accepted := by
  have htest : sysStep s .readStep = some { s with
      reader := { s.reader with pc := .readErr, retVal := RB_DONE } } := by
    simp [sysStep, readNext, hpc, hdone]
  refine ⟨{ s with
    reader := { s.reader with pc := .clearUnblock, retVal := RB_DONE } },
    ?_, ⟨rfl, result_done _ rfl htotal⟩, ?_⟩
  · show ((sysStep s .readStep).bind fun t => sysMachine.run t [.readStep]) = _
    rw [htest]
    simp [Machine.run, sysMachine, sysStep, readNext, htotal]
  · exact fun heq => hleft (hst.delivered_iff.mp heq)

/-- **A step that violates the condition** commits the reader to return
`RB_DONE` with bytes left. -/
theorem violation_returns_early {s t : Sys} {a : Act} (hst : Stream s)
    (hdom : EndOfStream s a) (hbad : ¬LooksComplete s a)
    (hs : sysStep s a = some t) :
    ∃ u, sysMachine.run t [.readStep, .readStep] = some u ∧
      ReturnsDone u ∧ u.delivered ≠ u.accepted := by
  have hst' := hst.step hdom hs
  cases a with
  | readStep =>
      simp only [LooksComplete, not_forall] at hbad
      obtain ⟨hpc, htotal, hdone, hless, hword, hleft⟩ := hbad
      have hzero : readSize s.rb s.reader.bufLen = 0 :=
        (readSize_eq_zero_iff hst.wf _).mpr (.inr ⟨hless, hword⟩)
      obtain ⟨rb, c, out, hm, rfl⟩ := sysStep_readStep hst.wf hs
      cases hm with
      | nothing _ _ => exact returns_early hst' rfl hdone htotal hleft
      | moved p _ hpos _ _ => omega
      | _ hpc' => simp_all
  | ctlStep i =>
      simp only [LooksComplete, not_forall] at hbad
      obtain ⟨hflag, hpc, htotal, hleft⟩ := hbad
      obtain ⟨pc, hpc', rfl⟩ := sysStep_ctlStep hs
      obtain rfl : pc = .doneFlag := Option.some.inj (hpc'.symm.trans hflag)
      exact returns_early hst' hpc rfl htotal hleft
  | _ => exact absurd trivial hbad

/-! ## The results -/

/-- **`RB_DONE` means complete**, in every run from a created ring in which
no empty-handed call looks at a residue of a finished stream and no stream is
marked done behind a look that missed its last bytes; and in every run each
step of either kind makes the reader return `RB_DONE` with bytes left in the
ring. -/
theorem done_is_complete {blockSize nBlocks : Int} {allocs : Bool}
    {rb : Ringbuf} (hn : 1 ≤ nBlocks) (hint : blockSize * nBlocks < 2 ^ 31)
    (hrb : rbCreate blockSize nBlocks allocs = some rb) :
    (∀ s, sysMachine.Reaches (fun u a => EndOfStream u a ∧ LooksComplete u a)
        (.start rb) s → ReturnsDone s →
        s.delivered = s.accepted ∧ s.rb.fillCnt = 0) ∧
    (∀ s a t, sysMachine.Reaches EndOfStream (.start rb) s →
        EndOfStream s a → ¬LooksComplete s a → sysStep s a = some t →
        ∃ u, sysMachine.run t [.readStep, .readStep] = some u ∧
          ReturnsDone u ∧ u.delivered ≠ u.accepted) := by
  obtain ⟨hwf, hempty, -⟩ := rbCreate_wf hn hint hrb
  have hstart := Stream.start hwf hempty
  constructor
  · intro s hrun hret
    obtain ⟨hst, hseen⟩ : Stream s ∧ Seen s := by
      apply hrun.invariant (I := fun u => Stream u ∧ Seen u)
      · exact ⟨hstart, .start rb⟩
      · intro u a v hu hok hs
        exact ⟨hu.1.step hok.1 hs, hu.2.step hu.1 hok.2 hs⟩
    obtain ⟨hpc, hres⟩ := hret
    obtain ⟨hval, htotal⟩ := result_eq_done hres
    have hfill := (hseen.ended ⟨.inr hpc, hval⟩).2 htotal
    exact ⟨hst.delivered_iff.mpr hfill, hfill⟩
  · intro s a t hrun hdom hbad hs
    have hst : Stream s :=
      hrun.invariant hstart fun u b v hu hok hs' => hu.step hok hs'
    exact violation_returns_early hst hdom hbad hs

/-- Five bytes and the end of the stream, read by requests of four, one and
four bytes. -/
def fiveBytes : List Act :=
  [.writeStart [1, 2, 3, 4, 5] .maxDelay, .writeStep, .writeStep,
    .ctlStart .doneWrite, .ctlStep 0, .ctlStep 0,
    .readStart true 4 .maxDelay, .readStep, .readStep, .readStep,
    .readStart true 1 .maxDelay, .readStep, .readStep, .readStep,
    .readStart true 4 .maxDelay, .readStep, .readStep, .readStep]

/-- A stream that is no multiple of a word and still complete: the second
request is no larger than the residue. -/
theorem done_is_complete_fiveBytes :
    ∃ rb s, rbCreate 8 1 true = some rb ∧
      sysMachine.runIf (fun u a => EndOfStream u a ∧ LooksComplete u a)
        (.start rb) fiveBytes = some s ∧
      ReturnsDone s ∧ s.delivered = s.accepted ∧ s.rb.fillCnt = 0 :=
  ⟨_, _, rfl, rfl, by decide,
    (done_is_complete (by decide) (by decide)
      (show rbCreate 8 1 true = some _ by rfl)).1 _
      (Machine.reaches_of_runIf (show sysMachine.runIf
        (fun u a => EndOfStream u a ∧ LooksComplete u a) _ fiveBytes = some _
        by rfl))
      (by decide)⟩

/-- **The residue is lost.**  Three bytes are written and the stream is
marked done; a read of four returns `RB_DONE` and leaves all three. -/
theorem residue_lost :
    ∃ (rb : Ringbuf) (acts : List Act) (s : Sys),
      rbCreate 8 1 true = some rb ∧
      sysMachine.runIf EndOfStream (.start rb) acts = some s ∧
      ReturnsDone s ∧ s.accepted = [1, 2, 3] ∧ s.delivered = [] ∧
      s.rb.fillCnt = 3 :=
  ⟨_, [.writeStart [1, 2, 3] .maxDelay, .writeStep, .writeStep,
      .ctlStart .doneWrite, .ctlStep 0, .ctlStep 0,
      .readStart true 4 .maxDelay, .readStep, .readStep, .readStep],
    _, rfl, rfl, by decide, rfl, rfl, rfl⟩

/-- The second kind of step: the reader finds the ring empty; four bytes are
written and the stream is marked done before it tests `is_done_write`. -/
example :
    ∃ (rb : Ringbuf) (acts : List Act) (s : Sys),
      rbCreate 8 1 true = some rb ∧
      sysMachine.runIf EndOfStream (.start rb) acts = some s ∧
      ReturnsDone s ∧ s.accepted = [1, 2, 3, 4] ∧ s.delivered = [] ∧
      s.rb.fillCnt = 4 :=
  ⟨_, [.readStart true 4 .maxDelay, .readStep,
      .writeStart [1, 2, 3, 4] .maxDelay, .writeStep, .writeStep,
      .ctlStart .doneWrite, .ctlStep 0, .readStep, .readStep],
    _, rfl, rfl, by decide, rfl, rfl, rfl⟩

end EspAdf.Ports.RingBufDone
