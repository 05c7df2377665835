import EspAdf.Ports.RingBufTasks

/-!
# `audio_element.c`: waiting for an output level

`audio_element_wait_for_buffer` publishes `size_expect`, clears
`BUFFER_REACH_LEVEL_BIT` and waits for it; `audio_element_output` compares the
level of the ring with the published size behind every write, and sets the
bit.  The two run in different tasks, and a consumer reads meanwhile.  The ring
and the calls in it are those of `RingBufTasks`; every access to
`out_buf_size_expect` and to the bit is an action of its own.

The history keeps whether the ring has held `size_expect` bytes since the call.
`wait_for_buffer_returns` says which steps keep the return values right, and
that a wrong one can follow any other step.
-/

namespace EspAdf.Ports.ElementWaitBuffer

open EspAdf.Verified
open EspAdf.Ports.RingBuf

def ESP_OK : Int := 0
def ESP_FAIL : Int := -1

/-! ## The tasks -/

/-- Where the element's task stands in `audio_element_output`. -/
inductive OutputPc where
  | idle
  /-- In `rb_write`. -/
  | rbWrite
  /-- `rb_bytes_filled` has returned, `out_buf_size_expect` is not loaded. -/
  | compare (filled : Int)
  /-- Before `xEventGroupSetBits`. -/
  | setBits
  deriving DecidableEq, Repr

/-- Where the caller stands in `audio_element_wait_for_buffer`. -/
inductive WaitPc where
  | idle
  /-- Before `xEventGroupClearBits`. -/
  | clearBits
  /-- In `xEventGroupWaitBits`. -/
  | waitBits
  deriving DecidableEq, Repr

structure Sys where
  /-- `out.output_rb` and the calls in it. -/
  ring : RingBufTasks.Sys
  outBufSizeExpect : Int
  /-- `BUFFER_REACH_LEVEL_BIT` of `state_event`. -/
  reachLevel : Bool
  output : OutputPc
  waiter : WaitPc
  /-- What the last call has returned. -/
  ret : Option Int
  /-- History: the ring has held `size_expect` bytes since the call. -/
  reached : Bool
  deriving DecidableEq, Repr

/-- Nobody is inside a call. -/
def start (rb : Ringbuf) (outBufSizeExpect : Int) (reachLevel : Bool) : Sys :=
  ⟨.start rb, outBufSizeExpect, reachLevel, .idle, .idle, none, false⟩

inductive Act where
  /-- The consumer's reads, and the `rb_write` call in progress. -/
  | ring (a : RingBufTasks.Act)
  /-- `audio_element_output`. -/
  | output (buffer : List Byte) (outputWaitTime : RingBufTasks.Ticks)
  | outputStep
  /-- `audio_element_wait_for_buffer`. -/
  | wait (sizeExpect : Int)
  | waitStep
  | waitTimeout
  deriving DecidableEq, Repr

/-- An `rb_write` call is begun by `audio_element_output` only, and nobody
aborts the ring or says that it is done. -/
def inCalls : RingBufTasks.Act → Bool
  | .writeStart _ _ => false
  | .ctlStart _ => false
  | _ => true

/-- What `xEventGroupWaitBits` has found decides the return value. -/
def waitRet (uxBits : Bool) : Int :=
  if uxBits then ESP_OK else ESP_FAIL

def move (s : Sys) : Act → Option Sys
  | .ring a =>
      if inCalls a then
        (RingBufTasks.sysStep s.ring a).map fun ring => { s with ring := ring }
      else none
  | .output buffer outputWaitTime =>
      if s.output = .idle then
        if buffer.length = 0 then some s
        else
          (RingBufTasks.sysStep s.ring (.writeStart buffer outputWaitTime)).map
            fun ring => { s with ring := ring, output := .rbWrite }
      else none
  | .outputStep =>
      match s.output with
      | .idle => none
      | .rbWrite =>
          if s.ring.writer.pc = .idle then
            some { s with output := .compare (rbBytesFilled s.ring.rb) }
          else none
      | .compare filled =>
          some { s with
            output :=
              if filled > s.outBufSizeExpect ∨ s.ring.writer.result < 0 then
                .setBits
              else .idle }
      | .setBits => some { s with reachLevel := true, output := .idle }
  | .wait sizeExpect =>
      if s.waiter = .idle then
        some { s with
          outBufSizeExpect := sizeExpect, waiter := .clearBits
          ret := none, reached := false }
      else none
  | .waitStep =>
      match s.waiter with
      | .idle => none
      | .clearBits =>
          some { s with reachLevel := false, waiter := .waitBits }
      | .waitBits =>
          if s.reachLevel then
            some { s with waiter := .idle, ret := some (waitRet s.reachLevel) }
          else none
  | .waitTimeout =>
      if s.waiter = .waitBits then
        some { s with waiter := .idle, ret := some (waitRet s.reachLevel) }
      else none

/-- How many bytes the ring holds. -/
def Sys.level (s : Sys) : Int := s.ring.rb.contents.length

/-- The history sees the level behind every step of a call. -/
def observe (s : Sys) : Sys :=
  { s with
    reached := s.reached ||
      (decide (s.waiter ≠ .idle) && decide (s.outBufSizeExpect ≤ s.level)) }

def step (s : Sys) (a : Act) : Option Sys :=
  (move s a).map observe

def waitMachine : Machine Sys Act := ⟨step⟩

/-! ## The property and the condition -/

/-- No `audio_element_output` fails: what `rb_write` returns is no error. -/
def Succeeds (s : Sys) (a : Act) : Prop :=
  a = .outputStep → s.output = .rbWrite → 0 ≤ s.ring.writer.result

instance (s : Sys) (a : Act) : Decidable (Succeeds s a) :=
  inferInstanceAs (Decidable (_ → _ → _))

/-- A call returns `ESP_OK` if the ring has held `size_expect` bytes since,
and `ESP_FAIL` otherwise. -/
def Right (s : Sys) : Prop :=
  ∀ r ∈ s.ret, r = if s.reached then ESP_OK else ESP_FAIL

/-- A call is in progress that would time out with `ESP_FAIL`. -/
def Untold (s : Sys) : Prop :=
  s.waiter = .clearBits ∨ (s.waiter = .waitBits ∧ s.reachLevel = false)

instance (s : Sys) : Decidable (Untold s) :=
  inferInstanceAs (Decidable (_ ∨ _))

/-- The output call sets the bit for a level it has loaded already. -/
def stale (output : OutputPc) (sizeExpect : Int) : Bool :=
  match output with
  | .compare filled => decide (sizeExpect < filled)
  | .setBits => true
  | _ => false

/-- The output call goes on to set the bit that the caller waits for: it is
still to load the level, or has found more than `size_expect` bytes, or sets the
bit when the caller has cleared it. -/
def tells (s : Sys) : Bool :=
  match s.output with
  | .idle => false
  | .rbWrite => true
  | .compare filled => decide (s.outBufSizeExpect < filled)
  | .setBits => decide (s.waiter ≠ .clearBits)

/-- The steps that keep the return values right.  A call begins when the ring
holds less than `size_expect` bytes and no output call is about to set the bit.
Once the ring has held as many, the output call that brought them goes on to
set the bit, and the wait does not time out before it has. -/
def Timely (s : Sys) : Act → Prop
  | .wait sizeExpect =>
      s.level < sizeExpect ∧ stale s.output sizeExpect = false
  | .outputStep => Untold s → s.reached → tells s
  | .waitTimeout => Untold s → s.reached → s.output = .idle
  | _ => True

instance (s : Sys) (a : Act) : Decidable (Timely s a) :=
  match a with
  | .ring _ => .isTrue trivial
  | .output _ _ => .isTrue trivial
  | .outputStep => inferInstanceAs (Decidable (_ → _ → _))
  | .wait _ => inferInstanceAs (Decidable (_ ∧ _))
  | .waitStep => .isTrue trivial
  | .waitTimeout => inferInstanceAs (Decidable (_ → _ → _))

/-! ## The history -/

section History

variable {s : Sys}

theorem observe_reached (h : s.reached = true) : observe s = s := by
  unfold observe
  rw [h, Bool.true_or, ← h]

theorem observe_idle (h : s.waiter = .idle) : observe s = s := by
  cases s
  simp_all [observe]

theorem observe_low (h : s.level < s.outBufSizeExpect) : observe s = s := by
  cases s
  simp_all [observe, Int.not_le.2 h]

end History

/-! ## The invariant -/

structure Inv (s : Sys) : Prop where
  wf : s.ring.rb.WF
  /-- `rb_write` runs only inside `audio_element_output`. -/
  writing : s.output ≠ .rbWrite → s.ring.writer.pc = .idle
  succeeded : ∀ filled, s.output = .compare filled →
    0 ≤ s.ring.writer.result
  calling : s.waiter ≠ .idle → s.ret = none
  /-- A bit that is to be set is set for a level reached since the call. -/
  fresh : s.waiter ≠ .idle → stale s.output s.outBufSizeExpect →
    s.reached
  told : s.waiter = .waitBits → s.reachLevel → s.reached
  /-- Whoever waits in vain for a level that was reached is about to be
  told. -/
  untold : Untold s → s.reached ∨ s.outBufSizeExpect ≤ s.level →
    s.output ≠ .idle
  right : Right s

/-- The history has seen the level. -/
def Seen (s : Sys) : Prop :=
  s.waiter ≠ .idle → s.outBufSizeExpect ≤ s.level → s.reached

theorem Inv.start {rb : Ringbuf} (hwf : rb.WF) (outBufSizeExpect : Int)
    (reachLevel : Bool) : Inv (start rb outBufSizeExpect reachLevel) where
  wf := hwf
  writing := fun _ => rfl
  succeeded := nofun
  calling := fun _ => rfl
  fresh := nofun
  told := nofun
  untold := nofun
  right := nofun

theorem Untold.ne_idle {s : Sys} (h : Untold s) : s.waiter ≠ .idle := by
  rcases h with h | ⟨h, -⟩ <;> simp [h]

/-- What the consumer and `rb_write` do: the ring fills up only while a call of
`rb_write` is in progress. -/
theorem ring_moves {s t : RingBufTasks.Sys} {a : RingBufTasks.Act}
    (hwf : s.rb.WF) (hin : inCalls a)
    (h : RingBufTasks.sysStep s a = some t) :
    s.writer.pc ≠ .idle ∨ (t.writer = s.writer ∧
      t.rb.contents.length ≤ s.rb.contents.length) := by
  cases a with
  | readStart buf bufLen ticks =>
      simp only [RingBufTasks.sysStep, Option.ite_none_right_eq_some] at h
      obtain rfl := Option.some.inj h.2
      exact .inr ⟨rfl, Nat.le_refl _⟩
  | readStep =>
      obtain ⟨rb, c, out, hm, rfl⟩ := RingBufTasks.sysStep_readStep hwf h
      refine .inr ⟨rfl, ?_⟩
      cases hm with
      | moved p hpc hpos hwf hcont =>
          rw [hcont, List.length_drop]
          omega
      | _ => exact Nat.le_refl _
  | readTimeout =>
      simp only [RingBufTasks.sysStep, Option.ite_none_right_eq_some] at h
      obtain rfl := Option.some.inj h.2
      exact .inr ⟨rfl, Nat.le_refl _⟩
  | writeStart buf ticks => contradiction
  | writeStep =>
      obtain ⟨rb, c, bytes, hm, rfl⟩ := RingBufTasks.sysStep_writeStep hwf h
      exact .inl hm.not_idle
  | writeTimeout =>
      simp only [RingBufTasks.sysStep, Option.ite_none_right_eq_some] at h
      exact .inl (by simp [h.1.1])
  | ctlStart c => contradiction
  | ctlStep i =>
      obtain ⟨pc, -, rfl⟩ := RingBufTasks.sysStep_ctlStep h
      exact .inr ⟨rfl, Nat.le_of_eq (congrArg List.length
        (RingBufTasks.ctlNext_sameBytes s.rb pc).contents)⟩

section Steps

variable {s t : Sys}

theorem Inv.observe (h : Inv s) : Inv (observe s) := by
  have hreached : (ElementWaitBuffer.observe s).reached = true →
      s.reached = true ∨ s.outBufSizeExpect ≤ s.level := by
    simp only [ElementWaitBuffer.observe, Bool.or_eq_true, Bool.and_eq_true,
      decide_eq_true_eq]
    exact Or.imp_right And.right
  have hkept : s.reached = true →
      (ElementWaitBuffer.observe s).reached = true := fun hyes => by
    simp [ElementWaitBuffer.observe, hyes]
  refine { h with
    fresh := fun hcall hstale => hkept (h.fresh hcall hstale)
    told := fun hwait hbit => hkept (h.told hwait hbit)
    untold := fun huntold hor => ?_
    right := ?_ }
  · exact h.untold huntold (hor.elim hreached .inr)
  · by_cases hidle : s.waiter = .idle
    · rw [observe_idle hidle]
      exact h.right
    · intro r hr
      have hnone : (ElementWaitBuffer.observe s).ret = none := h.calling hidle
      rw [hnone] at hr
      contradiction

theorem seen_observe (s : Sys) : Seen (observe s) := by
  intro hcall hlevel
  have hcall' : s.waiter ≠ .idle := hcall
  have hlevel' : s.outBufSizeExpect ≤ s.level := hlevel
  simp [observe, hcall', hlevel']

theorem Inv.ring (h : Inv s) {a : RingBufTasks.Act} {ring : RingBufTasks.Sys}
    (hin : inCalls a) (hs : RingBufTasks.sysStep s.ring a = some ring) :
    Inv { s with ring := ring } := by
  have hwf := (RingBufTasks.sysStep_wf h.wf hs).1
  rcases ring_moves h.wf hin hs with hbusy | ⟨hwriter, hlevel⟩
  · have hwrite : s.output = .rbWrite := by
      by_contra hno
      exact hbusy (h.writing hno)
    refine { h with
      wf := hwf
      writing := fun hno => absurd hwrite hno
      succeeded := fun filled hcompare => ?_
      untold := fun _ _ => ?_ }
    · rw [hwrite] at hcompare
      contradiction
    · show s.output ≠ .idle
      simp [hwrite]
  · refine { h with
      wf := hwf
      writing := fun hno => ?_
      succeeded := fun filled hcompare => ?_
      untold := fun huntold hor => ?_ }
    · show ring.writer.pc = .idle
      exact hwriter ▸ h.writing hno
    · show 0 ≤ ring.writer.result
      exact hwriter ▸ h.succeeded filled hcompare
    · refine h.untold huntold (hor.imp_right fun hle => ?_)
      have hle' : s.outBufSizeExpect ≤ ring.rb.contents.length := hle
      show s.outBufSizeExpect ≤ s.ring.rb.contents.length
      omega

/-- `audio_element_output` enters `rb_write`. -/
theorem Inv.output (h : Inv s) {buffer : List Byte}
    {ticks : RingBufTasks.Ticks} {ring : RingBufTasks.Sys}
    (hs : RingBufTasks.sysStep s.ring (.writeStart buffer ticks) =
      some ring) :
    Inv { s with ring := ring, output := .rbWrite } :=
  { h with
    wf := (RingBufTasks.sysStep_wf h.wf hs).1
    writing := fun hno => absurd rfl hno
    succeeded := nofun
    fresh := nofun
    untold := nofun }

/-- The level in `rb_bytes_filled` is that of the ring. -/
theorem Inv.filled (h : Inv s) : rbBytesFilled s.ring.rb = s.level := by
  have hlt := h.wf.sizeInt
  have hle := h.wf.fillLe
  rw [Sys.level, h.wf.length_contents, rbBytesFilled, toInt,
    if_pos (by omega)]

/-- `rb_write` has returned, and the level is loaded. -/
theorem Inv.loadFilled (h : Inv s) (hseen : Seen s)
    (hidle : s.ring.writer.pc = .idle) (hresult : 0 ≤ s.ring.writer.result) :
    Inv { s with output := .compare (rbBytesFilled s.ring.rb) } := by
  refine { h with
    writing := fun _ => hidle
    succeeded := fun _ _ => hresult
    fresh := fun hcall hmore => hseen hcall ?_
    untold := nofun }
  have hmore' : s.outBufSizeExpect < rbBytesFilled s.ring.rb :=
    of_decide_eq_true hmore
  rw [h.filled] at hmore'
  omega

/-- The test sends the call to `xEventGroupSetBits` only for a level that the
ring has held since the wait began. -/
theorem Inv.compare (h : Inv s) (hseen : Seen s) {filled : Int}
    (hout : s.output = .compare filled)
    (htimely : Timely s .outputStep) :
    Inv { s with
      output :=
        if filled > s.outBufSizeExpect ∨ s.ring.writer.result < 0 then .setBits
        else .idle } := by
  have hresult := h.succeeded filled hout
  have hwriter := h.writing (by simp [hout])
  refine { h with
    writing := fun _ => hwriter
    succeeded := fun _ _ => hresult
    fresh := fun hcall hmore => ?_
    untold := fun huntold hor => ?_ }
  · have hfound : s.outBufSizeExpect < filled := by
      by_contra hno
      simp [stale, hno, Int.not_lt.2 hresult] at hmore
    exact h.fresh hcall (by simp [hout, stale, hfound])
  · have hreached := hor.elim id (hseen huntold.ne_idle)
    have htells := htimely huntold hreached
    have hfound : s.outBufSizeExpect < filled := by
      simpa [tells, hout] using htells
    simp [hfound]

theorem Inv.setBits (h : Inv s) (hseen : Seen s) (hout : s.output = .setBits)
    (htimely : Timely s .outputStep) :
    Inv { s with reachLevel := true, output := .idle } := by
  have hwriter := h.writing (by simp [hout])
  refine { h with
    writing := fun _ => hwriter
    succeeded := nofun
    fresh := nofun
    told := fun hwait _ => ?_
    untold := fun huntold hor => ?_ }
  · have hwait' : s.waiter = .waitBits := hwait
    exact h.fresh (by simp [hwait']) (by simp [hout, stale])
  · -- The bit is set now, so the caller has still to clear it.
    rcases huntold with hclear | ⟨-, hbit⟩
    · have hclear' : s.waiter = .clearBits := hclear
      have hreached := hor.elim id (hseen (by simp [hclear']))
      have htells := htimely (.inl hclear) hreached
      simp [tells, hout, hclear'] at htells
    · contradiction

theorem Inv.outputStep (h : Inv s) (hseen : Seen s)
    (hsucceeds : Succeeds s .outputStep) (htimely : Timely s .outputStep)
    (hm : move s .outputStep = some t) : Inv t := by
  simp only [move] at hm
  cases hout : s.output with
  | idle =>
      rw [hout] at hm
      contradiction
  | rbWrite =>
      simp only [hout, Option.ite_none_right_eq_some] at hm
      obtain ⟨hidle, hm⟩ := hm
      exact Option.some.inj hm ▸ h.loadFilled hseen hidle (hsucceeds rfl hout)
  | compare filled =>
      simp only [hout] at hm
      exact Option.some.inj hm ▸ h.compare hseen hout htimely
  | setBits =>
      simp only [hout] at hm
      exact Option.some.inj hm ▸ h.setBits hseen hout htimely

/-- `audio_element_wait_for_buffer` is called. -/
theorem Inv.wait (h : Inv s) {sizeExpect : Int}
    (htimely : Timely s (.wait sizeExpect)) :
    Inv { s with
      outBufSizeExpect := sizeExpect, waiter := .clearBits
      ret := none, reached := false } := by
  obtain ⟨hlow, hstale⟩ := htimely
  refine { h with
    calling := fun _ => rfl
    fresh := fun _ hyes => ?_
    told := nofun
    untold := fun _ hor => ?_
    right := nofun }
  · rw [hstale] at hyes
    contradiction
  · rcases hor with hreached | hlevel
    · contradiction
    · exact absurd hlevel (Int.not_le.2 hlow)

/-- The call returns. -/
theorem Inv.returns (h : Inv s)
    (hright : waitRet s.reachLevel = if s.reached then ESP_OK else ESP_FAIL) :
    Inv { s with waiter := .idle, ret := some (waitRet s.reachLevel) } :=
  { h with
    calling := fun hno => absurd rfl hno
    fresh := fun hno => absurd rfl hno
    told := nofun
    untold := fun huntold => absurd rfl huntold.ne_idle
    right := fun _ hr => Option.some.inj hr ▸ hright }

theorem Inv.waitStep (h : Inv s) (hm : move s .waitStep = some t) : Inv t := by
  simp only [move] at hm
  cases hwait : s.waiter with
  | idle =>
      rw [hwait] at hm
      contradiction
  | clearBits =>
      simp only [hwait] at hm
      obtain rfl := Option.some.inj hm
      have hcall : s.waiter ≠ .idle := by simp [hwait]
      exact { h with
        calling := fun _ => h.calling hcall
        fresh := fun _ => h.fresh hcall
        told := nofun
        untold := fun _ => h.untold (.inl hwait) }
  | waitBits =>
      simp only [hwait, Option.ite_none_right_eq_some] at hm
      obtain ⟨hbit, hm⟩ := hm
      obtain rfl := Option.some.inj hm
      refine h.returns ?_
      simp [waitRet, hbit, h.told hwait hbit]

theorem Inv.waitTimeout (h : Inv s) (htimely : Timely s .waitTimeout)
    (hm : move s .waitTimeout = some t) : Inv t := by
  simp only [move, Option.ite_none_right_eq_some] at hm
  obtain ⟨hwait, hm⟩ := hm
  obtain rfl := Option.some.inj hm
  refine h.returns ?_
  cases hbit : s.reachLevel with
  | true => simp [waitRet, h.told hwait hbit]
  | false =>
      have huntold : Untold s := .inr ⟨hwait, hbit⟩
      have hreached : ¬s.reached = true := fun hyes =>
        h.untold huntold (.inl hyes) (htimely huntold hyes)
      simp [waitRet, hreached]

theorem Inv.move (h : Inv s) (hseen : Seen s) {a : Act}
    (hsucceeds : Succeeds s a) (htimely : Timely s a)
    (hm : move s a = some t) : Inv t := by
  cases a with
  | ring a =>
      simp only [ElementWaitBuffer.move, Option.ite_none_right_eq_some,
        Option.map_eq_some_iff] at hm
      obtain ⟨hin, ring, hs, rfl⟩ := hm
      exact h.ring hin hs
  | output buffer ticks =>
      simp only [ElementWaitBuffer.move, Option.ite_none_right_eq_some] at hm
      obtain ⟨-, hm⟩ := hm
      split at hm
      · exact Option.some.inj hm ▸ h
      · rw [Option.map_eq_some_iff] at hm
        obtain ⟨ring, hs, rfl⟩ := hm
        exact h.output hs
  | outputStep => exact h.outputStep hseen hsucceeds htimely hm
  | wait sizeExpect =>
      simp only [ElementWaitBuffer.move, Option.ite_none_right_eq_some] at hm
      exact Option.some.inj hm.2 ▸ h.wait htimely
  | waitStep => exact h.waitStep hm
  | waitTimeout => exact h.waitTimeout htimely hm

theorem Inv.step (h : Inv s) {a : Act} (hseen : Seen s)
    (hsucceeds : Succeeds s a) (htimely : Timely s a)
    (hs : waitMachine.step s a = some t) : Inv t ∧ Seen t := by
  obtain ⟨u, hm, rfl⟩ := Option.map_eq_some_iff.1 hs
  exact ⟨(h.move hseen hsucceeds htimely hm).observe, seen_observe u⟩

/-! ### What follows another step -/

/-- A wrong return value can follow. -/
def GoesWrong (s : Sys) : Prop :=
  ∃ t, waitMachine.Reaches Succeeds s t ∧ ¬Right t

theorem goesWrong_of_ret {r : Int} (hret : s.ret = some r)
    (hwrong : r ≠ if s.reached then ESP_OK else ESP_FAIL) : GoesWrong s :=
  ⟨s, .refl, fun hright => hwrong (hright r hret)⟩

/-- A step on the way, which the history does not notice. -/
theorem GoesWrong.of_move {a : Act} (h : GoesWrong t) (hm : move s a = some t)
    (hsame : observe t = t)
    (hrb : a = .outputStep → s.output ≠ .rbWrite) : GoesWrong s := by
  obtain ⟨u, hu, hwrong⟩ := h
  have hs : waitMachine.step s a = some t := by
    show (ElementWaitBuffer.move s a).map ElementWaitBuffer.observe = some t
    rw [hm, Option.map_some, hsame]
  exact ⟨u, Relation.ReflTransGen.head
    ⟨a, fun ha hwrite => absurd hwrite (hrb ha), hs⟩ hu, hwrong⟩

/-- The caller times out untold. -/
theorem goesWrong_of_waitBits (hwait : s.waiter = .waitBits)
    (hbit : s.reachLevel = false) (hreached : s.reached = true) :
    GoesWrong s := by
  have hlast : GoesWrong { s with
      waiter := .idle, ret := some (waitRet s.reachLevel) } :=
    goesWrong_of_ret rfl (by simp [waitRet, hbit, hreached, ESP_OK, ESP_FAIL])
  exact hlast.of_move (a := .waitTimeout) (if_pos hwait) (observe_idle rfl)
    nofun

theorem goesWrong_of_untold (h : Untold s) (hreached : s.reached = true) :
    GoesWrong s := by
  rcases h with hclear | ⟨hwait, hbit⟩
  · have hnext : GoesWrong { s with reachLevel := false, waiter := .waitBits } :=
      goesWrong_of_waitBits rfl rfl hreached
    refine hnext.of_move (a := .waitStep) ?_ (observe_reached hreached) nofun
    simp [ElementWaitBuffer.move, hclear]
  · exact goesWrong_of_waitBits hwait hbit hreached

theorem goesWrong_observe (h : Untold s) (hreached : s.reached = true) :
    GoesWrong (ElementWaitBuffer.observe s) := by
  rw [observe_reached hreached]
  exact goesWrong_of_untold h hreached

/-- The bit is set although the level has not been reached since the call. -/
theorem goesWrong_of_setBits (hwait : s.waiter = .waitBits)
    (hreached : s.reached = false) (hlow : s.level < s.outBufSizeExpect)
    (hout : s.output = .setBits) : GoesWrong s := by
  have hlast : GoesWrong { s with
      reachLevel := true, output := .idle, waiter := .idle
      ret := some (waitRet true) } :=
    goesWrong_of_ret rfl (by simp [waitRet, hreached, ESP_OK, ESP_FAIL])
  have hset : GoesWrong { s with reachLevel := true, output := .idle } := by
    refine hlast.of_move (a := .waitStep) ?_ (observe_idle rfl) nofun
    simp [ElementWaitBuffer.move, hwait]
  refine hset.of_move (a := .outputStep) ?_ (observe_low hlow)
    fun _ => by simp [hout]
  simp [ElementWaitBuffer.move, hout]

theorem goesWrong_of_stale (hclear : s.waiter = .clearBits)
    (hreached : s.reached = false) (hlow : s.level < s.outBufSizeExpect)
    (hstale : stale s.output s.outBufSizeExpect = true) : GoesWrong s := by
  have hwaits : GoesWrong { s with
      reachLevel := false, waiter := .waitBits } := by
    cases hout : s.output with
    | idle => simp [stale, hout] at hstale
    | rbWrite => simp [stale, hout] at hstale
    | compare filled =>
        have hfound : s.outBufSizeExpect < filled := by
          simpa [stale, hout] using hstale
        have hset : GoesWrong { s with
            reachLevel := false, waiter := .waitBits, output := .setBits } :=
          goesWrong_of_setBits rfl hreached hlow rfl
        refine hset.of_move (a := .outputStep) ?_ (observe_low hlow)
          fun _ => by simp
        simp [ElementWaitBuffer.move, hfound]
    | setBits => exact goesWrong_of_setBits rfl hreached hlow rfl
  refine hwaits.of_move (a := .waitStep) ?_ (observe_low hlow) nofun
  simp [ElementWaitBuffer.move, hclear]

theorem goesWrong_of_not_timely {a : Act} (hno : ¬Timely s a)
    (hs : waitMachine.step s a = some t) : GoesWrong t := by
  obtain ⟨u, hm, rfl⟩ := Option.map_eq_some_iff.1 hs
  cases a with
  | ring a => exact absurd trivial hno
  | output buffer ticks => exact absurd trivial hno
  | outputStep =>
      simp only [Timely, Classical.not_imp, Bool.not_eq_true] at hno
      obtain ⟨huntold, hreached, htells⟩ := hno
      cases hout : s.output with
      | idle => simp [ElementWaitBuffer.move, hout] at hm
      | rbWrite => simp [tells, hout] at htells
      | compare filled =>
          simp only [ElementWaitBuffer.move, hout] at hm
          obtain rfl := Option.some.inj hm
          exact goesWrong_observe huntold hreached
      | setBits =>
          simp only [ElementWaitBuffer.move, hout] at hm
          obtain rfl := Option.some.inj hm
          have hclear : s.waiter = .clearBits := by
            simpa [tells, hout] using htells
          exact goesWrong_observe (.inl hclear) hreached
  | wait sizeExpect =>
      simp only [ElementWaitBuffer.move, Option.ite_none_right_eq_some] at hm
      obtain rfl := Option.some.inj hm.2
      by_cases hlow : s.level < sizeExpect
      · have hstale : stale s.output sizeExpect = true := by
          simpa [Timely, hlow] using hno
        rw [observe_low hlow]
        exact goesWrong_of_stale rfl rfl hlow hstale
      · have hlevel : sizeExpect ≤ s.level := Int.not_lt.1 hlow
        exact goesWrong_of_untold (.inl rfl)
          (seen_observe _ (by simp [ElementWaitBuffer.observe]) hlevel)
  | waitStep => exact absurd trivial hno
  | waitTimeout =>
      simp only [Timely, Classical.not_imp] at hno
      obtain ⟨huntold, hreached, -⟩ := hno
      simp only [ElementWaitBuffer.move, Option.ite_none_right_eq_some] at hm
      obtain ⟨hwait, hm⟩ := hm
      obtain rfl := Option.some.inj hm
      have hbit : s.reachLevel = false := by
        rcases huntold with hclear | ⟨-, hbit⟩
        · simp [hwait] at hclear
        · exact hbit
      refine goesWrong_of_ret rfl ?_
      simp [ElementWaitBuffer.observe, waitRet, hbit, hreached, ESP_OK,
        ESP_FAIL]

end Steps

/-! ## The result -/

/-- **Waiting for a level** returns what the ring has held, in every run whose
steps are timely; after any other step a wrong return value can follow. -/
theorem wait_for_buffer_returns {rb : Ringbuf} (hwf : rb.WF)
    {outBufSizeExpect : Int} {reachLevel : Bool} {s : Sys}
    (h : waitMachine.Reaches (fun s a => Succeeds s a ∧ Timely s a)
      (start rb outBufSizeExpect reachLevel) s) :
    Right s ∧ ∀ a t, ¬Timely s a → waitMachine.step s a = some t →
      GoesWrong t := by
  have hinv : Inv s ∧ Seen s := by
    refine h.invariant (I := fun s => Inv s ∧ Seen s)
      ⟨.start hwf outBufSizeExpect reachLevel, nofun⟩ ?_
    rintro u a v ⟨hu, hseen⟩ ⟨hsucceeds, htimely⟩ hs
    exact hu.step hseen hsucceeds htimely hs
  exact ⟨hinv.1.right, fun a t => goesWrong_of_not_timely⟩

/-- The element writes `bytes`, and looks at the level. -/
def outputs (bytes : List Byte) : List Act :=
  [.output bytes .maxDelay, .ring .writeStep, .ring .writeStep, .outputStep,
    .outputStep]

/-- Four bytes are expected, and five are written. -/
theorem wait_for_buffer_more : ∃ rb s, rbCreate 8 1 true = some rb ∧
    waitMachine.runIf (fun s a => Succeeds s a ∧ Timely s a) (start rb 0 false)
      ([.wait 4, .waitStep] ++ outputs [1, 2, 3, 4, 5] ++
        [.outputStep, .waitStep]) = some s ∧
    s.level = 5 ∧ s.ret = some ESP_OK ∧ s.reached = true ∧ Right s := by
  have hring : rbCreate 8 1 true =
      some ((rbCreate 8 1 true).get rfl) := rfl
  have hrun : waitMachine.runIf (fun s a => Succeeds s a ∧ Timely s a)
      (start ((rbCreate 8 1 true).get rfl) 0 false)
      ([.wait 4, .waitStep] ++ outputs [1, 2, 3, 4, 5] ++
        [.outputStep, .waitStep]) = some _ := rfl
  exact ⟨_, _, hring, hrun, rfl, rfl, rfl,
    (wait_for_buffer_returns (rbCreate_wf (by decide) (by decide) hring).1
      (Machine.reaches_of_runIf hrun)).1⟩

/-- Four bytes are expected, and four are written: the wait fails. -/
theorem wait_for_buffer_equal : ∃ rb s, rbCreate 8 1 true = some rb ∧
    waitMachine.runIf Succeeds (start rb 0 false)
      ([.wait 4, .waitStep] ++ outputs [1, 2, 3, 4] ++ [.waitTimeout]) =
        some s ∧
    s.level = 4 ∧ s.outBufSizeExpect = 4 ∧ s.ret = some ESP_FAIL ∧
    ¬Right s := by
  refine ⟨_, _, rfl, rfl, rfl, rfl, rfl, fun hright => ?_⟩
  exact absurd (hright ESP_FAIL rfl) (by decide)

end EspAdf.Ports.ElementWaitBuffer
