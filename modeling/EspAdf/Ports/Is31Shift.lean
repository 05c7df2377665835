import EspAdf.Ports.PeriphIs31fl3216

/-!
# The LEDs that a shift lights

In the state `SHIFT` the LEDs come from the position `i`: `light_num` of them
from `i` on in the mode `SINGLE`, the first `light_num * (i + 1)` in the mode
`ACC`.  The position is not set when a new command comes.  `SINGLE` goes back
to the start when `i` is *equal* to the last place, and `ACC` when *one* bit of
the mask is set; a position from a longer animation passes both.

`shift_lights_iff` proves exactly which commands go wrong, and that afterwards
only one animation can: `ACC` with 16 LEDs at once, whose second step shifts
by 32.
-/

namespace EspAdf.Ports.PeriphIs31fl3216

open EspAdf.Verified

variable (wild : BitVec 32 → Nat → BitVec 32)

/-! ## What a step should light -/

/-- The numbers and the mode of a command, as the callers set them. -/
structure InRange (arg : Arg) : Prop where
  light : 1 ≤ arg.lightNum.toNat
  max : arg.lightNum.toNat ≤ arg.maxLightNum.toNat
  bound : arg.maxLightNum.toNat ≤ 16
  mode : arg.shiftMode ≠ .unknown

/-- `n` LEDs from `lo` on, and no others. -/
def Lights (mask : BitVec 16) (lo n : Nat) : Prop :=
  ∀ j, mask.getLsbD j = decide (lo ≤ j ∧ j < lo + n)

/-- No shift of a step is undefined. -/
def Defined (arg : Arg) (i : Nat) : Prop :=
  match arg.shiftMode with
  | .single => arg.lightNum.toNat < 32 ∧ i < 32
  | .acc => arg.lightNum.toNat * (i + 1) < 32 ∧ arg.maxLightNum.toNat < 32
  | .unknown => True

/-- The mask of a step in the mode of the command. -/
def MaskOk (arg : Arg) (mask : BitVec 16) : Prop :=
  match arg.shiftMode with
  | .single => ∃ lo, lo + arg.lightNum.toNat ≤ arg.maxLightNum.toNat ∧
      Lights mask lo arg.lightNum.toNat
  | .acc => ∃ n ≤ arg.maxLightNum.toNat, Lights mask 0 n
  | .unknown => True

/-- A step of `SHIFT` lights the LEDs that it should. -/
def Shows (led : Led) : Prop :=
  Defined led.arg led.i ∧ ∃ mask rest,
    (animate wild led).log = led.log ++ (shown (255, mask) ++ rest) ∧
    MaskOk led.arg mask

/-- The task when a round comes to its step. -/
def atStep (led : Led) : Act → Option Led
  | .receive =>
      match led.evt with
      | [] => none
      | msg :: evt =>
          if led.taskRun then some (handle { led with evt := evt } msg)
          else none
  | .timeout => if led.taskRun ∧ led.evt = [] then some led else none
  | _ => none

/-- Every step of `SHIFT` lights what it should. -/
def ShiftOk (led : Led) (a : Act) : Prop :=
  ∀ u, atStep led a = some u → u.curState = .shift → Shows wild u

/-- The commands that find or put the task in the state `SHIFT` have their
numbers and mode set. -/
def InRangeAct (led : Led) : Act → Prop
  | .receive =>
      match led.evt with
      | .chgState state :: _ =>
          state = .shift ∨ state = .unknown → InRange led.shared
      | _ => True
  | _ => True

/-- The position that was left fits the command. -/
def Fits (arg : Arg) (i : Nat) : Prop :=
  match arg.shiftMode with
  | .single => i + arg.lightNum.toNat ≤ arg.maxLightNum.toNat
  | .acc => arg.lightNum.toNat * (i + 1) < 32
  | .unknown => True

/-- The animation is not the one that shifts by 32. -/
def GoesOn (led : Led) : Prop :=
  led.curState = .shift →
    ¬(led.arg.shiftMode = .acc ∧ led.arg.lightNum = 16 ∧ led.i = 1)

/-- A command finds a position that fits; another round goes on. -/
def PositionOk (led : Led) : Act → Prop
  | .receive =>
      match led.evt with
      | .chgState state :: _ => led.taskRun →
          state = .shift ∨ state = .unknown ∧ led.curState = .shift →
          Fits led.shared led.i
      | .quit :: _ => led.taskRun → GoesOn led
      | [] => True
  | .timeout => led.taskRun ∧ led.evt = [] → GoesOn led
  | _ => True

/-- What holds of the position between two rounds. -/
structure Placed (led : Led) : Prop where
  range : led.curState = .shift → InRange led.arg
  single : led.curState = .shift → led.arg.shiftMode = .single →
    led.i + led.arg.lightNum.toNat ≤ led.arg.maxLightNum.toNat
  acc : led.curState = .shift → led.arg.shiftMode = .acc →
    led.arg.lightNum.toNat * led.i ≤ led.arg.maxLightNum.toNat

/-! ## The masks -/

/-- The first `n` bits. -/
theorem ones_getLsbD {n : Nat} (hn : n < 32) (j : Nat) :
    (shl wild 1 n - 1).getLsbD j = decide (j < n) := by
  have hvalue : (shl wild 1 n - 1).toNat = 2 ^ n - 1 := by
    have hlt : 2 ^ n < 2 ^ 32 := Nat.pow_lt_pow_right (by decide) hn
    have hpos : 0 < 2 ^ n := Nat.two_pow_pos n
    have hone : (1 : BitVec 32).toNat = 1 := rfl
    rw [shl, if_pos hn, BitVec.toNat_sub, BitVec.toNat_shiftLeft, hone,
      Nat.shiftLeft_eq]
    omega
  rw [BitVec.getLsbD, hvalue, Nat.testBit_two_pow_sub_one]

/-- `n` bits from `i` on; those above the LEDs are cut off. -/
theorem single_getLsbD {n i : Nat} (hn : n < 32) (hi : i < 32) (j : Nat) :
    ((shl wild (shl wild 1 n - 1) i).setWidth 16).getLsbD j =
      decide (j < 16 ∧ i ≤ j ∧ j < i + n) := by
  rw [shl, if_pos hi, BitVec.getLsbD_setWidth, BitVec.getLsbD_shiftLeft,
    ones_getLsbD wild hn]
  rw [Bool.eq_iff_iff]
  simp only [Bool.and_eq_true, Bool.not_eq_true', decide_eq_true_eq,
    decide_eq_false_iff_not]
  omega

theorem prefix_getLsbD {n : Nat} (hn : n < 32) (j : Nat) :
    ((shl wild 1 n - 1).setWidth 16).getLsbD j = decide (j < 16 ∧ j < n) := by
  rw [BitVec.getLsbD_setWidth, ones_getLsbD wild hn, Bool.eq_iff_iff]
  simp only [Bool.and_eq_true, decide_eq_true_eq]

/-- The bit that ends `ACC`. -/
theorem sshr_getLsbD {n k : Nat} (hn : n < 32) (hk : k < 32) :
    (sshr wild (shl wild 1 n - 1) k).getLsbD 0 = decide (k < n) := by
  rw [sshr, if_pos hk, BitVec.getLsbD_sshiftRight, if_pos (by omega),
    ones_getLsbD wild hn]
  rfl

variable {wild}

theorem shiftMask_single {arg : Arg} (hmode : arg.shiftMode = .single)
    (old : BitVec 32) (i : Nat) :
    shiftMask wild arg old i =
      (shl wild (shl wild 1 arg.lightNum.toNat - 1) i,
        if i + arg.lightNum.toNat = arg.maxLightNum.toNat then 0
        else i + 1) := by
  unfold shiftMask
  rw [hmode]
  dsimp only
  by_cases hlast : i + arg.lightNum.toNat = arg.maxLightNum.toNat
  · rw [if_pos (by omega), if_pos hlast]
  · rw [if_neg (by omega), if_neg hlast]

theorem shiftMask_acc {arg : Arg} (hmode : arg.shiftMode = .acc)
    (old : BitVec 32) {i : Nat} (hn : arg.lightNum.toNat * (i + 1) < 32)
    (hmax : arg.maxLightNum.toNat < 32) :
    shiftMask wild arg old i =
      if arg.maxLightNum.toNat < arg.lightNum.toNat * (i + 1) then (0, 0)
      else (shl wild 1 (arg.lightNum.toNat * (i + 1)) - 1, i + 1) := by
  unfold shiftMask
  rw [hmode]
  dsimp only
  rw [sshr_getLsbD wild hn hmax]
  simp only [decide_eq_true_eq]

/-! ## One step -/

/-- The countdown keeps the position, and ends the animation or goes on. -/
theorem countDown_keeps (led : Led) : ∃ rest,
    (countDown led).log = led.log ++ rest ∧ (countDown led).arg = led.arg ∧
    (countDown led).i = led.i ∧ ((countDown led).curState = led.curState ∨
      (countDown led).curState = .unknown) := by
  unfold countDown
  dsimp only
  split_ifs
  · exact ⟨[], (List.append_nil _).symm, rfl, rfl, .inl rfl⟩
  · exact ⟨[.ledsCtrl 0], rfl, rfl, rfl, .inr rfl⟩
  · exact ⟨[], (List.append_nil _).symm, rfl, rfl, .inl rfl⟩

/-- What a step of `SHIFT` shows is its mask. -/
theorem shift_log {led : Led} (h : led.curState = .shift) : ∃ rest,
    (animate wild led).log = led.log ++ (shown (255, (shiftMask wild led.arg
      led.curBitsMask led.i).1.setWidth 16) ++ rest) := by
  obtain ⟨rest, hlog, -⟩ := countDown_keeps (shiftStep wild led)
  rw [animate, h]
  exact ⟨rest, hlog.trans (List.append_assoc _ _ _)⟩

theorem shows_mask {led : Led} (h : led.curState = .shift) :
    Shows wild led ↔ Defined led.arg led.i ∧ MaskOk led.arg ((shiftMask wild
      led.arg led.curBitsMask led.i).1.setWidth 16) := by
  obtain ⟨rest, hlog⟩ := @shift_log wild led h
  refine and_congr_right fun _ => ?_
  constructor
  · rintro ⟨mask, rest', hlog', hmask⟩
    rw [hlog] at hlog'
    obtain ⟨-, htail⟩ := List.cons.inj (List.append_cancel_left hlog')
    obtain rfl : _ = mask := Out.ledsCtrl.inj (List.cons.inj htail).1
    exact hmask
  · exact fun hmask => ⟨_, rest, hlog, hmask⟩

/-- A step lights what it should exactly if the position fits. -/
theorem shows_iff {led : Led} (h : led.curState = .shift)
    (hrange : InRange led.arg) : Shows wild led ↔ Fits led.arg led.i := by
  obtain ⟨hlight, hmax, hbound, hmode⟩ := hrange
  rw [shows_mask h]
  cases hkind : led.arg.shiftMode with
  | unknown => contradiction
  | single =>
      rw [Defined, MaskOk, Fits, hkind, shiftMask_single hkind]
      dsimp only
      constructor
      · rintro ⟨⟨hn, hi⟩, lo, hlo, hlights⟩
        -- the first LED that is lit is at the position
        have hat := hlights lo
        have hpos := hlights led.i
        rw [single_getLsbD wild hn hi] at hat hpos
        simp only [decide_eq_decide] at hat hpos
        omega
      · intro hfits
        have hn : led.arg.lightNum.toNat < 32 := by omega
        have hi : led.i < 32 := by omega
        refine ⟨⟨hn, hi⟩, led.i, hfits, fun j => ?_⟩
        rw [single_getLsbD wild hn hi, decide_eq_decide]
        omega
  | acc =>
      rw [Defined, MaskOk, Fits, hkind]
      dsimp only
      constructor
      · exact fun hshows => hshows.1.1
      · intro hfits
        have hmax' : led.arg.maxLightNum.toNat < 32 := by omega
        refine ⟨⟨hfits, hmax'⟩, ?_⟩
        rw [shiftMask_acc hkind _ hfits hmax']
        split_ifs with hover
        · refine ⟨0, Nat.zero_le _, fun j => ?_⟩
          simp
        · refine ⟨_, Nat.le_of_not_lt hover, fun j => ?_⟩
          rw [prefix_getLsbD wild hfits, decide_eq_decide]
          omega

/-- Between rounds only one animation goes wrong. -/
theorem Placed.fits_iff {led : Led} (h : Placed led)
    (hshift : led.curState = .shift) :
    Fits led.arg led.i ↔ GoesOn led := by
  obtain ⟨hlight, hmax, hbound, hmode⟩ := h.range hshift
  cases hkind : led.arg.shiftMode with
  | unknown => contradiction
  | single =>
      have hsingle := h.single hshift hkind
      rw [Fits, GoesOn, hkind]
      exact iff_of_true hsingle fun _ => nofun
  | acc =>
      have hacc := h.acc hshift hkind
      rw [Fits, GoesOn, hkind]
      dsimp only
      have hmul : led.arg.lightNum.toNat * (led.i + 1) =
          led.arg.lightNum.toNat * led.i + led.arg.lightNum.toNat :=
        Nat.mul_succ _ _
      constructor
      · rintro hlt - ⟨-, hsixteen, hone⟩
        rw [hsixteen, hone] at hlt
        exact absurd hlt (by decide)
      · intro hnot
        by_contra hge
        have hsixteen : led.arg.lightNum.toNat = 16 := by omega
        rw [hsixteen] at hacc hmul hge
        refine hnot hshift ⟨rfl, BitVec.eq_of_toNat_eq hsixteen, by omega⟩

theorem flashStep_state (led : Led) :
    (flashStep led).curState = led.curState := by
  unfold flashStep
  dsimp only
  split_ifs <;> rfl

/-- A step that fits leaves a position that is in place. -/
theorem placed_animate {led : Led}
    (hrange : led.curState = .shift → InRange led.arg)
    (hfits : led.curState = .shift → Fits led.arg led.i) :
    Placed (animate wild led) := by
  by_cases hshift : led.curState = .shift
  · obtain ⟨-, -, harg, hi, -⟩ := countDown_keeps (shiftStep wild led)
    obtain ⟨hlight, hmax, hbound, hmode⟩ := hrange hshift
    have hfits := hfits hshift
    rw [animate, hshift]
    dsimp only
    refine ⟨fun _ => harg ▸ hrange hshift, fun _ hkind => ?_,
      fun _ hkind => ?_⟩
    · rw [harg] at hkind ⊢
      rw [hi]
      show (shiftMask wild led.arg led.curBitsMask led.i).2 +
        led.arg.lightNum.toNat ≤ led.arg.maxLightNum.toNat
      have hkind' : led.arg.shiftMode = .single := hkind
      rw [Fits, hkind'] at hfits
      rw [shiftMask_single hkind']
      dsimp only at hfits ⊢
      split <;> omega
    · rw [harg] at hkind ⊢
      rw [hi]
      show led.arg.lightNum.toNat *
        (shiftMask wild led.arg led.curBitsMask led.i).2 ≤
          led.arg.maxLightNum.toNat
      have hkind' : led.arg.shiftMode = .acc := hkind
      rw [Fits, hkind'] at hfits
      rw [shiftMask_acc hkind' _ hfits (by omega)]
      split
      · exact Nat.zero_le _
      · rename_i hle
        exact Nat.le_of_not_lt hle
  · have hstate : (animate wild led).curState ≠ .shift := by
      cases hcase : led.curState with
      | shift => contradiction
      | flash =>
          obtain ⟨-, -, -, -, hkeep | hend⟩ := countDown_keeps (flashStep led)
          · rw [animate, hcase]
            exact fun heq => hshift
              ((flashStep_state led).symm.trans (hkeep.symm.trans heq))
          · rw [animate, hcase]
            exact hend.trans_ne (by decide)
      | unknown | off | on | byAudio =>
          rw [animate, hcase]
          exact hshift
    exact ⟨fun h => absurd h hstate, fun h => absurd h hstate,
      fun h => absurd h hstate⟩

/-! ## The result -/

/-- The state and the fields after a command. -/
theorem handle_shift {led : Led} {state : LedState} {evt : List Msg}
    (h : (handle { led with evt := evt } (.chgState state)).curState =
      .shift) :
    (state = .shift ∨ state = .unknown ∧ led.curState = .shift) ∧
      (handle { led with evt := evt } (.chgState state)).arg = led.shared ∧
      (handle { led with evt := evt } (.chgState state)).i = led.i := by
  cases state with
  | shift => exact ⟨.inl rfl, rfl, rfl⟩
  | unknown => exact ⟨.inr ⟨rfl, h⟩, rfl, rfl⟩
  | off | on | flash | byAudio => exact nomatch h

/-- A round is what it does with its message, and its step. -/
theorem step_atStep {led t : Led} {a : Act}
    (h : (taskMachine wild).step led a = some t) :
    (∃ u, atStep led a = some u ∧ t = animate wild u) ∨
      t.curState = led.curState ∧ t.arg = led.arg ∧ t.i = led.i := by
  cases a with
  | receive =>
      left
      have hstep : (atStep led .receive).map (animate wild) = some t := by
        rw [← h]
        show _ = step wild led .receive
        unfold atStep step
        cases led.evt with
        | nil => rfl
        | cons msg evt =>
            dsimp only
            split <;> rfl
      obtain ⟨u, hu, rfl⟩ := Option.map_eq_some_iff.1 hstep
      exact ⟨u, hu, rfl⟩
  | timeout =>
      left
      obtain ⟨hrun, ht⟩ := Option.ite_none_right_eq_some.1 h
      exact ⟨led, if_pos hrun, (Option.some.inj ht).symm⟩
  | send msg =>
      right
      obtain rfl := Option.some.inj h
      rw [evtSend]
      split <;> exact ⟨rfl, rfl, rfl⟩
  | setBlinkPattern | setDutyStep | setInterval | setShiftMode
  | setLightOnNum | setActTime =>
      right
      obtain rfl := Option.some.inj h
      exact ⟨rfl, rfl, rfl⟩

/-- Where a round comes to a step of `SHIFT`, the numbers are in range, and
the position fits exactly if the condition on the round is met. -/
theorem Placed.atStep {led u : Led} {a : Act} (h : Placed led)
    (hcmd : InRangeAct led a) (hu : atStep led a = some u)
    (hshift : u.curState = .shift) :
    InRange u.arg ∧ (Fits u.arg u.i ↔ PositionOk led a) := by
  cases a with
  | receive =>
      unfold PeriphIs31fl3216.atStep at hu
      rw [PositionOk]
      cases hevt : led.evt with
      | nil =>
          rw [hevt] at hu
          contradiction
      | cons msg evt =>
          rw [hevt] at hu
          obtain ⟨hrun, hu⟩ := Option.ite_none_right_eq_some.1 hu
          obtain rfl := Option.some.inj hu
          cases msg with
          | chgState state =>
              obtain ⟨hstate, harg, hi⟩ := handle_shift hshift
              rw [harg, hi]
              rw [InRangeAct, hevt] at hcmd
              refine ⟨hcmd (hstate.imp id And.left), ?_⟩
              exact ⟨fun hfits _ _ => hfits, fun hok => hok hrun hstate⟩
          | quit =>
              refine ⟨h.range hshift, (h.fits_iff hshift).trans ?_⟩
              exact ⟨fun hgoes _ => hgoes, fun hok => hok hrun⟩
  | timeout =>
      obtain ⟨hrun, hu⟩ := Option.ite_none_right_eq_some.1 hu
      obtain rfl := Option.some.inj hu
      refine ⟨h.range hshift, (h.fits_iff hshift).trans ?_⟩
      exact ⟨fun hgoes _ => hgoes, fun hok => hok hrun⟩
  | send | setBlinkPattern | setDutyStep | setInterval | setShiftMode
  | setLightOnNum | setActTime => contradiction

/-- The condition only speaks of rounds that come to a step of `SHIFT`. -/
theorem positionOk_of {led : Led} {a : Act}
    (h : ∀ u, atStep led a = some u → u.curState = .shift →
      PositionOk led a) : PositionOk led a := by
  cases a with
  | receive =>
      unfold atStep at h
      rw [PositionOk] at h ⊢
      cases hevt : led.evt with
      | nil => trivial
      | cons msg evt =>
          rw [hevt] at h
          cases msg with
          | chgState state =>
              intro hrun hstate
              refine h _ (if_pos hrun) ?_ hrun hstate
              rcases hstate with rfl | ⟨rfl, hshift⟩
              · rfl
              · exact hshift
          | quit =>
              exact fun hrun hshift => h _ (if_pos hrun) hshift hrun hshift
  | timeout => exact fun hrun hshift => h _ (if_pos hrun) hshift hrun hshift
  | send | setBlinkPattern | setDutyStep | setInterval | setShiftMode
  | setLightOnNum | setActTime => trivial

theorem shiftOk_iff {led : Led} {a : Act} (h : Placed led)
    (hcmd : InRangeAct led a) :
    ShiftOk wild led a ↔ PositionOk led a := by
  constructor
  · intro hshows
    refine positionOk_of fun u hu hshift => ?_
    obtain ⟨hrange, hfits⟩ := h.atStep hcmd hu hshift
    exact hfits.1 ((shows_iff hshift hrange).1 (hshows u hu hshift))
  · intro hok u hu hshift
    obtain ⟨hrange, hfits⟩ := h.atStep hcmd hu hshift
    exact (shows_iff hshift hrange).2 (hfits.2 hok)

theorem Placed.step {led t : Led} {a : Act} (h : Placed led)
    (hcmd : InRangeAct led a) (hok : PositionOk led a)
    (hs : (taskMachine wild).step led a = some t) : Placed t := by
  rcases step_atStep hs with ⟨u, hu, rfl⟩ | ⟨hstate, harg, hi⟩
  · exact placed_animate (fun hshift => (h.atStep hcmd hu hshift).1)
      fun hshift => (h.atStep hcmd hu hshift).2.2 hok
  · refine ⟨fun hshift => ?_, fun hshift hkind => ?_, fun hshift hkind => ?_⟩
    · rw [harg]
      exact h.range (hstate.symm.trans hshift)
    · rw [harg] at hkind ⊢
      rw [hi]
      exact h.single (hstate.symm.trans hshift) hkind
    · rw [harg] at hkind ⊢
      rw [hi]
      exact h.acc (hstate.symm.trans hshift) hkind

theorem Placed.start : Placed start := ⟨nofun, nofun, nofun⟩

/-- **Every step of a shift lights the LEDs that it should** in every run,
exactly if every command finds a position that fits, and no animation of 16
LEDs at once comes to a second step. -/
theorem shift_lights_iff {as : List Act}
    (hcmd : (taskMachine wild).Meets InRangeAct start as) :
    (taskMachine wild).Meets (ShiftOk wild) start as ↔
      (taskMachine wild).Meets PositionOk start as := by
  have hiff : ∀ led a, Placed led → InRangeAct led a →
      (ShiftOk wild led a ↔ PositionOk led a) :=
    fun _ _ h hcmd => shiftOk_iff h hcmd
  have hstep : ∀ led a t, Placed led → InRangeAct led a → PositionOk led a →
      (taskMachine wild).step led a = some t → Placed t :=
    fun _ _ _ h hcmd hok hs => h.step hcmd hok hs
  exact Machine.meets_congr_of hiff hstep Placed.start hcmd

instance (arg : Arg) : Decidable (InRange arg) :=
  decidable_of_iff (1 ≤ arg.lightNum.toNat ∧
      arg.lightNum.toNat ≤ arg.maxLightNum.toNat ∧
      arg.maxLightNum.toNat ≤ 16 ∧ arg.shiftMode ≠ .unknown)
    ⟨fun ⟨hlight, hmax, hbound, hmode⟩ => ⟨hlight, hmax, hbound, hmode⟩,
      fun ⟨hlight, hmax, hbound, hmode⟩ => ⟨hlight, hmax, hbound, hmode⟩⟩

instance (arg : Arg) (i : Nat) : Decidable (Fits arg i) := by
  unfold Fits
  split <;> infer_instance

instance (led : Led) (a : Act) : Decidable (InRangeAct led a) := by
  unfold InRangeAct
  split
  · split <;> infer_instance
  · infer_instance

instance (led : Led) (a : Act) : Decidable (PositionOk led a) := by
  unfold PositionOk GoesOn
  split
  · split <;> infer_instance
  · infer_instance
  · infer_instance

/-- `led_bar_is31x_pattern` while it connects: one LED more every 100 ms. -/
def connecting : List Act :=
  [.setLightOnNum 1 12, .setInterval 100, .setShiftMode .acc,
    .send (.chgState .shift), .receive]

/-- `led_bar_is31x_pattern` when it is connected: two LEDs go round. -/
def connected : List Act :=
  [.setLightOnNum 2 12, .setInterval 150, .setShiftMode .single,
    .setActTime 2500, .send (.chgState .shift), .receive]

/-- After four steps of the one the other starts in the middle, and both light
what they should. -/
theorem shift_connected :
    (taskMachine fun _ _ => 0).Meets (ShiftOk fun _ _ => 0) start
      (connecting ++ List.replicate 3 .timeout ++ connected) := by
  have hrun : ((taskMachine fun _ _ => 0).runIf
      (fun led a => InRangeAct led a ∧ PositionOk led a) start
      (connecting ++ List.replicate 3 .timeout ++ connected)).isSome := by
    decide +kernel
  obtain ⟨t, ht⟩ := Option.isSome_iff_exists.1 hrun
  obtain ⟨hcmd, hok⟩ := (Machine.meets_and _).1 (Machine.meets_of_runIf ht).2
  exact (shift_lights_iff hcmd).2 hok

/-- After twelve steps the position is behind the last LED. -/
theorem shift_connected_late :
    (taskMachine fun _ _ => 0).Meets InRangeAct start
      (connecting ++ List.replicate 11 .timeout ++ connected) ∧
    ¬(taskMachine fun _ _ => 0).Meets (ShiftOk fun _ _ => 0) start
      (connecting ++ List.replicate 11 .timeout ++ connected) := by
  constructor
  · have hrun : ((taskMachine fun _ _ => 0).runIf InRangeAct start
        (connecting ++ List.replicate 11 .timeout ++ connected)).isSome := by
      decide +kernel
    obtain ⟨t, ht⟩ := Option.isSome_iff_exists.1 hrun
    exact (Machine.meets_of_runIf ht).2
  · have hrun : (((taskMachine fun _ _ => 0).run start (connecting ++
        List.replicate 11 .timeout ++ connected.dropLast)).bind fun led =>
          (atStep led .receive).map fun u => decide (u.curState = .shift ∧
            InRange u.arg ∧ ¬Fits u.arg u.i)) = some true := by
      decide +kernel
    obtain ⟨led, hled, hstep⟩ := Option.bind_eq_some_iff.1 hrun
    obtain ⟨u, hu, hlate⟩ := Option.map_eq_some_iff.1 hstep
    obtain ⟨hshift, hrange, hfits⟩ := of_decide_eq_true hlate
    intro hmeets
    have hlast := ((Machine.meets_concat hled .receive).1 hmeets).2
    exact hfits ((shows_iff hshift hrange).1 (hlast u hu hshift))

end EspAdf.Ports.PeriphIs31fl3216
