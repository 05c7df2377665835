import EspAdf.Ports.RingBufTasks
import EspAdf.Ports.FatfsStream

/-!
# Do pass-through elements conserve bytes?

`_fatfs_process` and `_http_process` read a block through the callback and
hand it to `audio_element_output`, which calls `rb_write` once and turns what
that returns into the return value of `process`.  When the ring stays full for
longer than the output timeout, `rb_write` returns the part of the block that
it has written, or `RB_TIMEOUT`; `process` returns that, and the rest of the
block is in the element's buffer, where the next read overwrites it.

The element is that of `AudioElement` with its clients and the ring that of
`RingBufTasks` with its reader and control calls, all interleaved.  The rings
that `audio_element_multi_output` serves as well are others and left out.

`pass_through_iff` proves that nothing is lost exactly in the runs in which
`rb_write` never gives up on a full ring: in the others every later process
step ends with fewer bytes accepted than were read.
-/

namespace EspAdf.Ports.PassThrough

open EspAdf.Verified
open EspAdf.Ports.AudioElement (Element Cmd Op Effect Answer Config taskStep
  AEL_IO_ABORT AEL_IO_DONE AEL_IO_OK AEL_IO_FAIL AEL_IO_TIMEOUT)
open EspAdf.Ports.RingBuf (Byte Ringbuf RB_TIMEOUT)
open EspAdf.Ports.RingBufTasks (Ticks WriteCall WritePc WriteMove WriteWaits)
open EspAdf.Ports.FatfsStream (outputEffect)

/-! ## The system -/

/-- Where a call of `_fatfs_process` or `_http_process` stands. -/
inductive Proc where
  /-- None is in progress. -/
  | idle
  /-- In `audio_element_output`. -/
  | output
  /-- It is going to return `len`. -/
  | returning (len : Int)
  deriving DecidableEq, Repr

structure Pass where
  sys : AudioElement.Sys
  /-- The output ring buffer; its writer is the element's `rb_write`. -/
  ring : RingBufTasks.Sys
  outputWaitTime : Ticks
  proc : Proc
  /-- History: what the read callback returned. -/
  returned : List Byte
  deriving DecidableEq, Repr

def Pass.el (p : Pass) : Element := p.sys.el

inductive PassAct where
  /-- The element's task outside `process`, or a client. -/
  | el (a : AudioElement.Act)
  /-- The consumer, the control calls, and `rb_write` going on. -/
  | ring (a : RingBufTasks.Act)
  /-- `audio_element_set_output_timeout`. -/
  | setOutputTimeout (t : Ticks)
  /-- The read callback returns bytes. -/
  | input (bytes : List Byte)
  /-- The read callback returns a code. -/
  | inputCode (len : Int)
  /-- `rb_write` has returned. -/
  | outputDone
  /-- `process` returns. -/
  | ret
  deriving DecidableEq, Repr

/-- What `audio_element_input` does besides returning `len`. -/
def inputEffect (len : Int) : Option Effect :=
  if len > 0 ∨ len = AEL_IO_DONE ∨ len = AEL_IO_OK ∨ len = AEL_IO_TIMEOUT then
    none
  else if len = AEL_IO_ABORT then some .stop
  else if len = AEL_IO_FAIL then some .inputFail
  else some .sendPause

/-- The task is in `process`. -/
def Pass.processing (p : Pass) : Bool := p.el.todo.head? = some .callProcess

/-- The task goes on with the answer of the callback. -/
def Pass.answer (cfg : Config) (p : Pass) (proc : Proc) (a : Answer) :
    Option Pass :=
  (taskStep cfg p.el a).map fun el =>
    { p with sys := { p.sys with el := el }, proc := proc }

/-- `audio_element_input` or `audio_element_output` returns `len`. -/
def Pass.ioReturn (cfg : Config) (p : Pass) (len : Int) :
    Option Effect → Option Pass
  | some e => p.answer cfg (.returning len) (.effect e)
  | none => p.answer cfg .idle (.len len)

/-- The action is of the task. -/
def isTask : AudioElement.Act → Bool
  | .task _ => true
  | _ => false

/-- The action starts a call of `rb_write`. -/
def startsWrite : RingBufTasks.Act → Bool
  | .writeStart _ _ => true
  | _ => false

/-- One action; the parties of the ring and of the element are those of
their own modules. -/
def passStep (cfg : Config) (p : Pass) : PassAct → Option Pass
  | .el a =>
      if isTask a && p.processing then none
      else (AudioElement.sysStep cfg p.sys a).map fun sys =>
        { p with sys := sys }
  | .ring a =>
      if startsWrite a then none
      else (RingBufTasks.sysStep p.ring a).map fun ring =>
        { p with ring := ring }
  | .setOutputTimeout t => some { p with outputWaitTime := t }
  | .input bytes =>
      if p.processing && p.proc = .idle && bytes.length > 0 then
        (RingBufTasks.sysStep p.ring
          (.writeStart bytes p.outputWaitTime)).map fun ring => { p with
            ring := ring, proc := .output
            returned := p.returned ++ bytes }
      else none
  | .inputCode len =>
      if p.processing && p.proc = .idle && len ≤ 0 then
        p.ioReturn cfg len (inputEffect len)
      else none
  | .outputDone =>
      if p.processing && p.proc = .output && p.ring.writer.pc = .idle then
        p.ioReturn cfg p.ring.writer.result
          (outputEffect p.ring.writer.result)
      else none
  | .ret =>
      match p.proc with
      | .returning len =>
          if p.processing then p.answer cfg .idle (.len len) else none
      | _ => none

def passMachine (cfg : Config) : Machine Pass PassAct := ⟨passStep cfg⟩

/-- A fresh element in front of a ring. -/
def Pass.start (rb : Ringbuf) (t : Ticks) : Pass where
  sys := .start
  ring := .start rb
  outputWaitTime := t
  proc := .idle
  returned := []

/-! ## The condition -/

/-- The condition on a step: `rb_write` does not give up on a full ring.  Its
wait for space does not run out, and the ring is not done or aborted when it
looks. -/
def Persists (p : Pass) (a : PassAct) : Prop :=
  a ≠ .ring .writeTimeout ∧
  (a = .ring .writeStep →
    (p.ring.writer.pc = .testDone → p.ring.rb.isDoneWrite = false) ∧
    (p.ring.writer.pc = .testAbort → p.ring.rb.abortWrite = false))

instance (p : Pass) (a : PassAct) : Decidable (Persists p a) :=
  inferInstanceAs (Decidable (_ ∧ _))

/-! ## What is still to be written -/

/-- What `rb_write` is still going to write unless it gives up. -/
def pending (c : WriteCall) : List Byte :=
  if c.pc = .idle ∨ c.pc = .writeErr then [] else c.buf

/-- `rb_write` is between its checks with something left to write. -/
def Busy (c : WriteCall) : Prop :=
  c.pc = .takeLock ∨ WriteWaits c → 0 < c.buf.length

theorem pending_start {bytes : List Byte} {t : Ticks}
    (h : 0 < bytes.length) :
    pending (.start bytes t) = bytes ∧ Busy (.start bytes t) := by
  have hne : bytes.length ≠ 0 := by omega
  constructor
  · simp [pending, WriteCall.start, hne]
  · intro _
    exact h

/-- `rb_write` looks at a flag, and finds it set. -/
def FlagSet (rb : Ringbuf) (c : WriteCall) : Prop :=
  c.pc = .testDone ∧ rb.isDoneWrite = true ∨
    c.pc = .testAbort ∧ rb.abortWrite = true

theorem pending_waits {c : WriteCall} (hw : WriteWaits c) :
    pending c = c.buf := by
  rw [pending, if_neg]
  rintro (hpc | hpc) <;>
  · rw [WriteWaits, hpc] at hw
    simp at hw

/-- An action of `rb_write` takes the next bytes of its block, or it gives up
the rest. -/
theorem writeMove_pending {rb rb' : Ringbuf} {c c' : WriteCall}
    {bytes : List Byte} (h : WriteMove rb c rb' c' bytes) (hb : Busy c) :
    bytes ++ pending c' = pending c ∧ ¬FlagSet rb c ∨
      FlagSet rb c ∧ bytes = [] ∧ pending c' = [] ∧
        0 < (pending c).length := by
  cases h with
  | nothing hpc hzero => left; simp [pending, FlagSet, hpc]
  | moved n mem p hpc hn hpos hwf hcont =>
      left
      constructor
      · by_cases hz : c.buf.length - n = 0
        · have hall : c.buf.length ≤ n := by omega
          simp [pending, hpc, hz, List.take_of_length_le hall]
        · simp [pending, hpc, hz]
      · simp [FlagSet, hpc]
  | gotDone hpc hflag =>
      have hw : WriteWaits c := .inl hpc
      exact .inr ⟨.inl ⟨hpc, hflag⟩, rfl, by simp [pending],
        pending_waits hw ▸ hb (.inr hw)⟩
  | notDone hpc hflag => left; simp [pending, FlagSet, hpc, hflag]
  | gotAbort hpc hflag =>
      have hw : WriteWaits c := .inr (.inl hpc)
      exact .inr ⟨.inr ⟨hpc, hflag⟩, rfl, by simp [pending],
        pending_waits hw ▸ hb (.inr hw)⟩
  | notAbort hpc hflag => left; simp [pending, FlagSet, hpc, hflag]
  | took hpc hflag => left; simp [pending, FlagSet, hpc]
  | gave hpc hpos => left; simp [pending, FlagSet, hpc]
  | kept hpc hzero => left; simp [pending, FlagSet, hpc]

/-- The actions of other parties do not touch the call of `rb_write`. -/
theorem ring_frame {s t : RingBufTasks.Sys} {a : RingBufTasks.Act}
    (h : RingBufTasks.sysStep s a = some t) (hstart : startsWrite a = false)
    (hstep : a ≠ .writeStep) (htime : a ≠ .writeTimeout) :
    t.writer = s.writer ∧ t.accepted = s.accepted := by
  cases a with
  | readStart buf n t =>
      simp only [RingBufTasks.sysStep, Option.ite_none_right_eq_some] at h
      rw [← Option.some.inj h.2]
      exact ⟨rfl, rfl⟩
  | readStep =>
      obtain ⟨rb, c, out, -, rfl⟩ := RingBufTasks.sysStep_readNext h
      exact ⟨rfl, rfl⟩
  | readTimeout =>
      simp only [RingBufTasks.sysStep, Option.ite_none_right_eq_some] at h
      rw [← Option.some.inj h.2]
      exact ⟨rfl, rfl⟩
  | writeStart buf t => cases hstart
  | writeStep => exact absurd rfl hstep
  | writeTimeout => exact absurd rfl htime
  | ctlStart c =>
      rw [← Option.some.inj h]
      exact ⟨rfl, rfl⟩
  | ctlStep i =>
      obtain ⟨pc, -, rfl⟩ := RingBufTasks.sysStep_ctlStep h
      exact ⟨rfl, rfl⟩

/-- What one action on the ring does to the element's output. -/
theorem ring_step {s t : RingBufTasks.Sys} {a : RingBufTasks.Act}
    (hwf : s.rb.WF) (hb : Busy s.writer)
    (h : RingBufTasks.sysStep s a = some t) (hstart : startsWrite a = false) :
    Busy t.writer ∧
      (t.accepted ++ pending t.writer = s.accepted ++ pending s.writer ∧
          a ≠ .writeTimeout ∧ (a = .writeStep → ¬FlagSet s.rb s.writer) ∨
        (a = .writeTimeout ∨ a = .writeStep ∧ FlagSet s.rb s.writer) ∧
          t.accepted = s.accepted ∧ pending t.writer = [] ∧
          0 < (pending s.writer).length) := by
  by_cases hstep : a = .writeStep
  · subst hstep
    obtain ⟨rb, c, bytes, hm, rfl⟩ := RingBufTasks.sysStep_writeStep hwf h
    refine ⟨hm.length_pos hb, ?_⟩
    rcases writeMove_pending hm hb with ⟨heq, hflag⟩ | ⟨hflag, hnil, hgone⟩
    · left
      refine ⟨?_, by simp, fun _ => hflag⟩
      rw [List.append_assoc, heq]
    · right
      refine ⟨.inr ⟨rfl, hflag⟩, ?_, hgone⟩
      rw [hnil, List.append_nil]
  · by_cases htime : a = .writeTimeout
    · subst htime
      simp only [RingBufTasks.sysStep, Option.ite_none_right_eq_some] at h
      obtain ⟨⟨hpc, -, -⟩, ht⟩ := h
      rw [← Option.some.inj ht]
      have hw : WriteWaits s.writer := .inr (.inr hpc)
      refine ⟨?_, .inr ⟨.inl rfl, rfl, by simp [pending],
        pending_waits hw ▸ hb (.inr hw)⟩⟩
      simp [Busy, WriteWaits]
    · obtain ⟨hw, hacc⟩ := ring_frame h hstart hstep htime
      rw [hw, hacc]
      exact ⟨hb, .inl ⟨rfl, htime, fun heq => absurd heq hstep⟩⟩

/-! ## The invariant -/

/-- What `process` relies on and keeps. -/
structure PassInv (p : Pass) : Prop where
  wf : p.ring.rb.WF
  busy : Busy p.ring.writer
  idle : p.proc ≠ .output → p.ring.writer.pc = .idle

/-- Every byte read is in the ring or about to be written. -/
def Kept (p : Pass) : Prop :=
  p.ring.accepted ++ pending p.ring.writer = p.returned

/-- More was read than will ever be accepted. -/
def Lost (p : Pass) : Prop :=
  p.ring.accepted.length + (pending p.ring.writer).length < p.returned.length

/-- What a step leaves of the output, or adds to it. -/
inductive PassMove (p p' : Pass) (a : PassAct) : Prop where
  /-- Nothing of it is touched. -/
  | other (ring : p'.ring = p.ring) (returned : p'.returned = p.returned)
      (proc : p'.proc = .output → p.proc = .output)
      (done : p.proc = .output → p'.proc ≠ .output →
        p.ring.writer.pc = .idle)
      (ha : ∀ b, a ≠ .ring b)
  /-- The read callback returned a block, and `rb_write` starts. -/
  | input (bytes : List Byte) (t : Ticks) (hpos : 0 < bytes.length)
      (idle : p.ring.writer.pc = .idle)
      (ring : p'.ring = { p.ring with writer := .start bytes t })
      (returned : p'.returned = p.returned ++ bytes)
      (proc : p'.proc = .output) (ha : ∀ b, a ≠ .ring b)
  | ring (b : RingBufTasks.Act) (ha : a = .ring b)
      (hstart : startsWrite b = false)
      (h : RingBufTasks.sysStep p.ring b = some p'.ring)
      (returned : p'.returned = p.returned) (proc : p'.proc = p.proc)

theorem answer_move {cfg : Config} {p p' : Pass} {proc : Proc} {a : Answer}
    {act : PassAct} (h : p.answer cfg proc a = some p')
    (hproc : proc ≠ .output)
    (hdone : p.proc = .output → p.ring.writer.pc = .idle)
    (ha : ∀ b, act ≠ .ring b) : PassMove p p' act := by
  simp only [Pass.answer, Option.map_eq_some_iff] at h
  obtain ⟨el, -, rfl⟩ := h
  exact .other rfl rfl (fun heq => absurd heq hproc)
    (fun heq _ => hdone heq) ha

theorem ioReturn_move {cfg : Config} {p p' : Pass} {len : Int}
    {e : Option Effect} {act : PassAct} (h : p.ioReturn cfg len e = some p')
    (hdone : p.proc = .output → p.ring.writer.pc = .idle)
    (ha : ∀ b, act ≠ .ring b) : PassMove p p' act := by
  cases e with
  | some e => exact answer_move h (by simp) hdone ha
  | none => exact answer_move h (by simp) hdone ha

theorem passStep_move {cfg : Config} {p p' : Pass} {a : PassAct}
    (h : passStep cfg p a = some p') : PassMove p p' a := by
  cases a with
  | el a =>
      simp only [passStep] at h
      split at h
      · cases h
      · obtain ⟨sys, -, rfl⟩ := Option.map_eq_some_iff.1 h
        exact .other rfl rfl id (fun heq hne => absurd heq hne) (by simp)
  | ring b =>
      simp only [passStep] at h
      split at h
      · cases h
      · rename_i hstart
        obtain ⟨ring, hr, rfl⟩ := Option.map_eq_some_iff.1 h
        exact .ring b rfl (by simpa using hstart) hr rfl rfl
  | setOutputTimeout t =>
      cases h
      exact .other rfl rfl id (fun heq hne => absurd heq hne) (by simp)
  | input bytes =>
      simp only [passStep] at h
      split at h
      · rename_i hguard
        simp only [Bool.and_eq_true, decide_eq_true_eq] at hguard
        simp only [Option.map_eq_some_iff, RingBufTasks.sysStep,
          Option.ite_none_right_eq_some, Option.some.injEq] at h
        obtain ⟨ring, ⟨hidle, rfl⟩, rfl⟩ := h
        exact .input bytes _ hguard.2 hidle rfl rfl rfl (by simp)
      · cases h
  | inputCode len =>
      simp only [passStep] at h
      split at h
      · rename_i hguard
        simp only [Bool.and_eq_true, decide_eq_true_eq] at hguard
        refine ioReturn_move h ?_ (by simp)
        intro heq
        rw [hguard.1.2] at heq
        cases heq
      · cases h
  | outputDone =>
      simp only [passStep] at h
      split at h
      · rename_i hguard
        simp only [Bool.and_eq_true, decide_eq_true_eq] at hguard
        exact ioReturn_move h (fun _ => hguard.2) (by simp)
      · cases h
  | ret =>
      simp only [passStep] at h
      split at h
      · rename_i len hproc
        split at h
        · refine answer_move h (by simp) ?_ (by simp)
          rw [hproc]
          exact fun heq => by cases heq
        · cases h
      · cases h

/-- Between two calls of `rb_write` nothing is pending. -/
theorem pending_idle {c : WriteCall} (h : c.pc = .idle) : pending c = [] := by
  simp [pending, h]

/-- Nobody but `process` starts a call of `rb_write`. -/
theorem ring_idle {s t : RingBufTasks.Sys} {a : RingBufTasks.Act}
    (hwf : s.rb.WF) (h : RingBufTasks.sysStep s a = some t)
    (hstart : startsWrite a = false) (hidle : s.writer.pc = .idle) :
    t.writer.pc = .idle := by
  by_cases hstep : a = .writeStep
  · subst hstep
    obtain ⟨rb, c, bytes, hm, rfl⟩ := RingBufTasks.sysStep_writeStep hwf h
    exact absurd hidle hm.not_idle
  · by_cases htime : a = .writeTimeout
    · subst htime
      simp only [RingBufTasks.sysStep, Option.ite_none_right_eq_some] at h
      rw [hidle] at h
      exact absurd h.1.1 (by simp)
    · rw [(ring_frame h hstart hstep htime).1]
      exact hidle

theorem PassInv.step {p p' : Pass} {a : PassAct} (hp : PassInv p)
    (hm : PassMove p p' a) : PassInv p' := by
  cases hm with
  | other ring returned proc done ha =>
      refine ⟨ring ▸ hp.wf, ring ▸ hp.busy, ?_⟩
      intro hne
      rw [ring]
      by_cases hout : p.proc = .output
      · exact done hout hne
      · exact hp.idle hout
  | input bytes t hpos idle ring returned proc ha =>
      refine ⟨?_, ?_, fun hne => absurd proc hne⟩
      · rw [ring]
        exact hp.wf
      · rw [ring]
        exact (pending_start hpos).2
  | ring b ha hstart h returned proc =>
      refine ⟨(RingBufTasks.sysStep_wf hp.wf h).1,
        (ring_step hp.wf hp.busy h hstart).1, ?_⟩
      intro hne
      rw [proc] at hne
      exact ring_idle hp.wf h hstart (hp.idle hne)

/-- The condition on an action of the ring. -/
theorem persists_ring {p : Pass} {b : RingBufTasks.Act} :
    Persists p (.ring b) ↔
      b ≠ .writeTimeout ∧
        (b = .writeStep → ¬FlagSet p.ring.rb p.ring.writer) := by
  simp [Persists, FlagSet]

theorem persists_other {p : Pass} {a : PassAct} (ha : ∀ b, a ≠ .ring b) :
    Persists p a :=
  ⟨ha _, fun heq => absurd heq (ha _)⟩

/-! ## The steps -/

/-- While `rb_write` persists, every byte read stays in sight. -/
theorem Kept.step {p p' : Pass} {a : PassAct} (hp : PassInv p)
    (hk : Kept p) (hm : PassMove p p' a) (hok : Persists p a) : Kept p' := by
  cases hm with
  | other ring returned proc done ha =>
      rw [Kept, ring, returned]
      exact hk
  | input bytes t hpos idle ring returned proc ha =>
      rw [Kept, pending_idle idle, List.append_nil] at hk
      rw [Kept, returned, ring, (pending_start hpos).1, hk]
  | ring b ha hstart h returned proc =>
      subst ha
      rw [persists_ring] at hok
      rcases (ring_step hp.wf hp.busy h hstart).2 with
        ⟨heq, -, -⟩ | ⟨hgone, -, -, -⟩
      · rw [Kept, returned, heq]
        exact hk
      · rcases hgone with htime | ⟨hstep, hflag⟩
        · exact absurd htime hok.1
        · exact absurd hflag (hok.2 hstep)

/-- When `rb_write` gives up, the rest of its block is gone. -/
theorem Kept.lost {p p' : Pass} {a : PassAct} (hp : PassInv p)
    (hk : Kept p) (hm : PassMove p p' a) (hok : ¬Persists p a) : Lost p' := by
  cases hm with
  | other ring returned proc done ha => exact absurd (persists_other ha) hok
  | input bytes t hpos idle ring returned proc ha =>
      exact absurd (persists_other ha) hok
  | ring b ha hstart h returned proc =>
      subst ha
      rw [persists_ring] at hok
      rcases (ring_step hp.wf hp.busy h hstart).2 with
        ⟨-, htime, hstep⟩ | ⟨-, hacc, hnil, hpos⟩
      · exact absurd ⟨htime, hstep⟩ hok
      · have hlen := congrArg List.length hk
        rw [List.length_append] at hlen
        rw [Lost, returned, hacc, hnil, List.length_nil]
        omega

/-- What is lost is not made up for. -/
theorem Lost.step {p p' : Pass} {a : PassAct} (hp : PassInv p)
    (hl : Lost p) (hm : PassMove p p' a) : Lost p' := by
  cases hm with
  | other ring returned proc done ha =>
      rw [Lost, ring, returned]
      exact hl
  | input bytes t hpos idle ring returned proc ha =>
      rw [Lost, pending_idle idle, List.length_nil] at hl
      rw [Lost, returned, ring, (pending_start hpos).1, List.length_append]
      show p.ring.accepted.length + bytes.length < _
      omega
  | ring b ha hstart h returned proc =>
      rw [Lost] at hl ⊢
      rw [returned]
      rcases (ring_step hp.wf hp.busy h hstart).2 with
        ⟨heq, -, -⟩ | ⟨-, hacc, hnil, -⟩
      · have hlen := congrArg List.length heq
        rw [List.length_append, List.length_append] at hlen
        omega
      · rw [hacc, hnil, List.length_nil]
        omega

/-! ## The result -/

theorem passInv_start {rb : Ringbuf} (hwf : rb.WF) (t : Ticks) :
    PassInv (.start rb t) ∧ Kept (.start rb t) := by
  refine ⟨⟨hwf, ?_, fun _ => rfl⟩, rfl⟩
  rintro (hpc | hpc | hpc | hpc) <;> cases hpc

theorem run_kept {cfg : Config} {rb : Ringbuf} {t : Ticks} (hwf : rb.WF)
    {acts : List PassAct} {p : Pass}
    (hrun : (passMachine cfg).run (.start rb t) acts = some p) :
    PassInv p ∧
      ((passMachine cfg).Meets Persists (.start rb t) acts ∧ Kept p ∨
        ¬(passMachine cfg).Meets Persists (.start rb t) acts ∧ Lost p) := by
  obtain ⟨hinv, hkept⟩ := passInv_start hwf t
  refine Machine.run_induction (P := fun acts p => PassInv p ∧
    ((passMachine cfg).Meets Persists (.start rb t) acts ∧ Kept p ∨
      ¬(passMachine cfg).Meets Persists (.start rb t) acts ∧ Lost p))
    ⟨hinv, .inl ⟨trivial, hkept⟩⟩ ?_ hrun
  rintro as u a v hu ⟨hinv, ih⟩ hv
  have hm := passStep_move hv
  rw [Machine.meets_concat hu]
  refine ⟨hinv.step hm, ?_⟩
  rcases ih with ⟨hmeets, hk⟩ | ⟨hmeets, hl⟩
  · by_cases hok : Persists u a
    · exact .inl ⟨⟨hmeets, hok⟩, hk.step hinv hm hok⟩
    · exact .inr ⟨fun h => hok h.2, hk.lost hinv hm hok⟩
  · exact .inr ⟨fun h => hmeets h.1, hl.step hinv hm⟩

/-- **Bytes are conserved** exactly when `rb_write` never gives up on a full
ring: what is accepted is then always a prefix of what was read, and all of
it between two process steps. -/
theorem pass_through_iff {cfg : Config} {rb : Ringbuf} {t : Ticks}
    (hwf : rb.WF) {acts : List PassAct} {p : Pass}
    (hrun : (passMachine cfg).run (.start rb t) acts = some p) :
    ((passMachine cfg).Meets Persists (.start rb t) acts →
      p.ring.accepted <+: p.returned) ∧
    (p.proc = .idle → (p.ring.accepted = p.returned ↔
      (passMachine cfg).Meets Persists (.start rb t) acts)) := by
  obtain ⟨hinv, ⟨hmeets, hk⟩ | ⟨hmeets, hl⟩⟩ := run_kept hwf hrun
  · refine ⟨fun _ => ⟨_, hk⟩, fun hidle => iff_of_true ?_ hmeets⟩
    have hpc := hinv.idle (by rw [hidle]; simp)
    rw [Kept, pending_idle hpc, List.append_nil] at hk
    exact hk
  · refine ⟨fun h => absurd h hmeets, fun _ => iff_of_false ?_ hmeets⟩
    intro heq
    rw [Lost, heq] at hl
    omega

/-! ## Two runs -/

def taskGo (n : Nat) : List PassAct := List.replicate n (.el (.task .go))

def writeGo (n : Nat) : List PassAct := List.replicate n (.ring .writeStep)

/-- The consumer reads four bytes. -/
def readFour : List PassAct :=
  [.ring (.readStart true 4 .finite)] ++
    List.replicate 3 (PassAct.ring .readStep)

/-- The element is resumed and reads a block of six bytes; four of them fill
the ring, and `rb_write` waits. -/
def blockedWrite : List PassAct :=
  AudioElement.runElement.map .el ++ taskGo 1 ++
    [.input [1, 2, 3, 4, 5, 6]] ++ writeGo 4

/-- The consumer makes room. -/
def drained : List PassAct :=
  blockedWrite ++ readFour ++ writeGo 3 ++ [.outputDone]

/-- The wait runs out; then the consumer makes room, and the next block is
read. -/
def timedOut : List PassAct :=
  blockedWrite ++ [.ring .writeTimeout] ++ writeGo 1 ++ [.outputDone] ++
    taskGo 3 ++ readFour ++ [.input [7]] ++ writeGo 2 ++ [.outputDone]

/-- A ring of four bytes. -/
def fourBytes : Ringbuf :=
  (RingBuf.rbCreate 4 1 true).get (by rfl)

theorem fourBytes_wf : fourBytes.WF :=
  (RingBuf.rbCreate_wf (by decide) (by decide)
    (Option.some_get (by rfl)).symm).1

theorem pass_through_drained : ∃ p,
    (passMachine AudioElement.defaultConfig).run
      (.start fourBytes .finite) drained = some p ∧
    p.proc = .idle ∧ p.ring.accepted = p.returned ∧
    p.returned = [1, 2, 3, 4, 5, 6] := by
  have h : ((passMachine AudioElement.defaultConfig).runIf Persists
      (.start fourBytes .finite) drained).map
        (fun p => (p.proc, p.returned)) =
      some (.idle, [1, 2, 3, 4, 5, 6]) := by
    decide +kernel
  simp only [Option.map_eq_some_iff, Prod.mk.injEq] at h
  obtain ⟨p, hrun, hidle, hret⟩ := h
  obtain ⟨hrun, hmeets⟩ := Machine.meets_of_runIf hrun
  exact ⟨p, hrun, hidle,
    ((pass_through_iff fourBytes_wf hrun).2 hidle).2 hmeets, hret⟩

/-- The last two bytes of the first block are dropped. -/
theorem pass_through_drops : ∃ p,
    (passMachine AudioElement.defaultConfig).run
      (.start fourBytes .finite) timedOut = some p ∧
    p.proc = .idle ∧ p.el.sent = [.resume] ∧
    ¬p.ring.accepted <+: p.returned := by
  have h : ((passMachine AudioElement.defaultConfig).run
      (.start fourBytes .finite) timedOut).map
        (fun p => (p.proc, p.el.sent, p.ring.accepted, p.returned)) =
      some (.idle, [.resume], [1, 2, 3, 4, 7], [1, 2, 3, 4, 5, 6, 7]) := by
    decide +kernel
  simp only [Option.map_eq_some_iff, Prod.mk.injEq] at h
  obtain ⟨p, hrun, hidle, hsent, hacc, hret⟩ := h
  refine ⟨p, hrun, hidle, hsent, ?_⟩
  rw [hacc, hret]
  decide

end EspAdf.Ports.PassThrough
