import EspAdf.Ports.AdcButton

/-!
# `adc_button.c`: debouncing

`get_adc_btn_state` counts the samples in the range of a button, and ignores a
button that is given up after one or two of them.  But it returns before it
gives the button up: the button stays active, and the next sample in its range
goes on counting.  So three samples are a short press, however far apart they
are.

`adc_button_debounced` proves that in the runs in which no such glitch ends
with a sample out of range, the descriptors are those that the last streak of
samples alone makes.
-/

namespace EspAdf.Ports.AdcButton

open EspAdf.Verified

/-! ## The property and the condition -/

/-- The button that is held down after `n` samples in its range, if none was
held before. -/
def heldAfter (judge : Int) (button : Nat) : Nat → Option Press
  | 0 => none
  | n + 1 => (detect judge (heldAfter judge button n) (some button)).2

/-- What a streak makes of a channel at rest. -/
def heldBehind (judge : Int) : Option Streak → Option Press
  | none => none
  | some k => heldAfter judge k.button k.count

/-- A short press was found behind a streak of its button. -/
def Detection.debounced (d : Detection) : Prop :=
  ∃ k, d.streak = some k ∧ d.id = some k.button ∧ 3 ≤ k.count

/-- Every `PRESSED` was found behind three samples of its button, and only what
was found is reported; no event was found for less; and the descriptors do not
remember more than the last streak. -/
structure Debounced (s : Task) : Prop where
  found : ∀ d ∈ s.detected, d.state = .pressed → d.debounced
  pressed : ∀ e ∈ s.events, e.state = .pressed →
    ∃ d ∈ s.detected, d.state = .pressed ∧ d.id = e.id
  glitched : ∀ node ∈ s.nodes, node.history.glitched = false
  forgets : ∀ node ∈ s.nodes, node.btnDscp = descriptors node.info.totalSteps
    (heldBehind (judgeCnt node.info) node.history.streak)

/-- A sample out of range comes behind a counter of two, and a button that is
given up for another one was held for three samples or has reported nothing. -/
def SteadyAt (node : Node) (act : Nat) : Option Nat → Prop
  | none => 2 ≤ (node.btnDscp.getD act rest).clickCnt
  | some id => id ≠ act → ∀ k ∈ node.history.streak, k.count < 3 →
      (node.btnDscp.getD act rest).longClick = false

instance (node : Node) (act : Nat) : ∀ id, Decidable (SteadyAt node act id)
  | none => inferInstanceAs (Decidable (_ ≤ _))
  | some _ => inferInstanceAs (Decidable (_ → _))

/-- No sample ends a glitch in a way that leaves its button active. -/
def Steady (s : Task) (adc : Int) : Prop :=
  s.curState = .adc → ∀ node ∈ s.nodes[s.find]?,
    ∀ act ∈ activeButton node.btnDscp,
      SteadyAt node act (getButtonId node.info adc)

instance (s : Task) (adc : Int) : Decidable (Steady s adc) :=
  inferInstanceAs (Decidable (_ → _))

/-! ## The counter -/

section Counter

variable (judge : Int) (button : Nat)

/-- The first sample of a streak is not counted. -/
theorem heldAfter_succ (n : Nat) : ∃ p,
    heldAfter judge button (n + 1) = some p ∧ p.id = button ∧
      p.clickCnt = (n : Int).bmod (2 ^ 32) := by
  induction n with
  | zero => exact ⟨_, rfl, rfl, rfl⟩
  | succ n ih =>
      obtain ⟨p, hp, rfl, hcnt⟩ := ih
      have hinc : increment p.clickCnt = ((n + 1 : Nat) : Int).bmod (2 ^ 32) := by
        rw [increment, hcnt, Int.bmod_add_bmod]
        rfl
      rw [heldAfter, hp]
      simp only [detect, ne_eq, not_true, if_false]
      split
      · exact ⟨_, rfl, rfl, hinc⟩
      · split <;> exact ⟨_, rfl, rfl, hinc⟩

variable {judge button}

theorem heldAfter_eq {n : Nat} {p : Press}
    (h : heldAfter judge button n = some p) :
    p.id = button ∧ ∃ m, n = m + 1 ∧ p.clickCnt = (m : Int).bmod (2 ^ 32) := by
  cases n with
  | zero => contradiction
  | succ m =>
      obtain ⟨q, hq, hid, hcnt⟩ := heldAfter_succ judge button m
      obtain rfl : q = p := Option.some.inj (hq.symm.trans h)
      exact ⟨hid, m, rfl, hcnt⟩

/-- A counter of two needs three samples. -/
theorem three_le {n : Nat} {p : Press}
    (h : heldAfter judge button n = some p) (hcnt : 2 ≤ p.clickCnt) :
    3 ≤ n := by
  obtain ⟨-, m, rfl, heq⟩ := heldAfter_eq h
  rw [heq, Int.bmod_def] at hcnt
  omega

end Counter

/-! ## The invariant -/

/-- A streak of a button of the channel has seen its long press. -/
def Sane (info : AdcInfo) (streak : Option Streak) : Prop :=
  ∀ k ∈ streak, k.button < info.totalSteps ∧
    ∃ p, heldAfter (judgeCnt info) k.button k.count = some p ∧
      k.found = p.longClick

/-- A task with one channel whose descriptors remember only the last streak. -/
structure Remembers (info : AdcInfo) (s : Task) : Prop where
  one : ∃ streak, Sane info streak ∧
    s = single info (heldBehind (judgeCnt info) streak) ⟨streak, false⟩
      s.curState s.curActId s.events s.detected
  /-- What is about to be reported was found. -/
  found : s.curState = .pressed →
    ∃ d ∈ s.detected, d.state = .pressed ∧ d.id = s.curActId
  debounced : ∀ d ∈ s.detected, d.state = .pressed → d.debounced
  reported : ∀ e ∈ s.events, e.state = .pressed →
    ∃ d ∈ s.detected, d.state = .pressed ∧ d.id = e.id

section Steps

variable {info : AdcInfo} {streak : Option Streak}

theorem Sane.held_lt (h : Sane info streak) :
    ∀ p ∈ heldBehind (judgeCnt info) streak, p.id < info.totalSteps := by
  intro p hp
  cases streak with
  | none => contradiction
  | some k => exact (heldAfter_eq hp).1 ▸ (h k rfl).1

/-- A new streak of a button. -/
theorem sane_fresh {id : Nat} (h : id < info.totalSteps) :
    Sane info (some ⟨id, 1, false⟩) := by
  intro k hk
  obtain rfl := Option.some.inj hk
  exact ⟨h, _, rfl, rfl⟩

/-- A streak goes on. -/
theorem sane_next {k : Streak} (h : Sane info (some k)) {st : BtnState}
    {p q : Press} (hp : heldAfter (judgeCnt info) k.button k.count = some p)
    (hs : Sampled (judgeCnt info) (some p) (some p.id) st (some q))
    (hfound : q.longClick = (p.longClick || decide (st ≠ .idle))) :
    heldAfter (judgeCnt info) k.button (k.count + 1) = some q ∧
      Sane info
        (some ⟨k.button, k.count + 1, k.found || decide (st ≠ .idle)⟩) := by
  have hq : heldAfter (judgeCnt info) k.button (k.count + 1) = some q := by
    rw [heldAfter, hp, ← (heldAfter_eq hp).1, hs.detect_eq]
  refine ⟨hq, fun k' hk' => ?_⟩
  obtain rfl := Option.some.inj hk'
  obtain ⟨hlt, p', hp', hlong⟩ := h k rfl
  obtain rfl : p' = p := Option.some.inj (hp'.symm.trans hp)
  exact ⟨hlt, q, hq, by rw [hfound, hlong]⟩

/-- What a sample does to the streak, if it ends no glitch. -/
theorem sampled_streak (h : Sane info streak) {id : Option Nat}
    (hid : ∀ i ∈ id, i < info.totalSteps) {held held' : Option Press}
    (hheld : held = heldBehind (judgeCnt info) streak)
    (hnone : id = none → ∀ p ∈ held, 2 ≤ p.clickCnt)
    (hslide : ∀ i ∈ id, ∀ p ∈ held, i ≠ p.id → ∀ k ∈ streak, k.count < 3 →
      p.longClick = false)
    {st : BtnState} (hs : Sampled (judgeCnt info) held id st held') :
    (∃ streak', Sane info streak' ∧
      held' = heldBehind (judgeCnt info) streak' ∧
      History.next ⟨streak, false⟩ id (st ≠ .idle) = ⟨streak', false⟩) ∧
    (st = .pressed →
      Detection.debounced ⟨0, held.map Press.id, st, streak⟩) := by
  cases streak with
  | none =>
      obtain rfl : held = none := hheld
      cases hs with
      | nothing => exact ⟨⟨none, nofun, rfl, rfl⟩, nofun⟩
      | @first _ i _ => exact ⟨⟨_, sane_fresh (hid i rfl), rfl, rfl⟩, nofun⟩
  | some k =>
      obtain ⟨-, p, hp, hfound⟩ := h k rfl
      obtain rfl : held = some p := hheld.trans hp
      have hpid : p.id = k.button := (heldAfter_eq hp).1
      -- A press that is over had three samples.
      have hover : 1 < p.clickCnt → ∀ found,
          History.next ⟨some k, false⟩ none found = ⟨none, false⟩ := by
        intro hcnt found
        have hge : ¬k.count < 3 := Nat.not_lt.2 (three_le hp hcnt)
        simp [History.next, hge]
      have hgoes : ∀ found, History.next ⟨some k, false⟩ (some p.id) found =
          ⟨some ⟨k.button, k.count + 1, k.found || found⟩, false⟩ := by
        intro found
        simp [History.next, hpid]
      cases hs with
      | glitch hcnt =>
          have hge := hnone rfl p rfl
          omega
      | pressed hcnt hlt =>
          exact ⟨⟨none, nofun, rfl, hover hcnt _⟩,
            fun _ => ⟨k, rfl, congrArg some hpid, three_le hp hcnt⟩⟩
      | longRelease hcnt hge =>
          exact ⟨⟨none, nofun, rfl, hover hcnt _⟩, nofun⟩
      | @first _ i hne =>
          refine ⟨⟨_, sane_fresh (hid i rfl), rfl, ?_⟩, nofun⟩
          have hi : i ≠ k.button := hpid ▸ hne p rfl
          by_cases hcnt : k.count < 3
          · have hlong := hslide i rfl p rfl (hne p rfl) k rfl hcnt
            simp [History.next, hi, hfound, hlong]
          · simp [History.next, hi, hcnt]
      | longHold hlong =>
          obtain ⟨hq, hsane⟩ := sane_next h hp (.longHold hlong)
            (by simp [hlong])
          exact ⟨⟨_, hsane, hq.symm, hgoes _⟩, nofun⟩
      | longPressed hlong hge =>
          obtain ⟨hq, hsane⟩ := sane_next h hp (.longPressed hlong hge)
            (by simp)
          exact ⟨⟨_, hsane, hq.symm, hgoes _⟩, nofun⟩
      | hold hlong hlt =>
          obtain ⟨hq, hsane⟩ := sane_next h hp (.hold hlong hlt)
            (by simp [hlong])
          exact ⟨⟨_, hsane, hq.symm, hgoes _⟩, nofun⟩

theorem steady_single (hsane : Sane info streak) {act : Option Nat}
    {events : List Event} {detected : List Detection} {adc : Int}
    (h : Steady (single info (heldBehind (judgeCnt info) streak)
      ⟨streak, false⟩ .adc act events detected) adc) :
    ∀ p ∈ heldBehind (judgeCnt info) streak,
      match getButtonId info adc with
      | none => 2 ≤ p.clickCnt
      | some i => i ≠ p.id → ∀ k ∈ streak, k.count < 3 →
          p.longClick = false := by
  intro p hp
  have hlt := hsane.held_lt p hp
  have hactive := activeButton_descriptors (n := info.totalSteps)
    hsane.held_lt
  have hsteady := h rfl _ rfl p.id (by rw [hactive, hp]; rfl)
  rw [hp] at hsteady
  have hget := getD_descriptors hlt
  cases hid : getButtonId info adc with
  | none =>
      simp only [hid, SteadyAt, hget] at hsteady
      exact hsteady
  | some i =>
      simp only [hid, SteadyAt, hget] at hsteady
      exact hsteady

/-- A sample that ends no glitch, in a task with one channel. -/
theorem visit_streak {act : Option Nat} {events : List Event}
    {detected : List Detection} {adc : Int} (hsane : Sane info streak)
    (hsteady : Steady (single info (heldBehind (judgeCnt info) streak)
      ⟨streak, false⟩ .adc act events detected) adc)
    {st : BtnState} {held' : Option Press}
    (hs : Sampled (judgeCnt info) (heldBehind (judgeCnt info) streak)
      (getButtonId info adc) st held') :
    (∃ streak', Sane info streak' ∧
      held' = heldBehind (judgeCnt info) streak' ∧
      History.next ⟨streak, false⟩ (getButtonId info adc) (st ≠ .idle) =
        ⟨streak', false⟩) ∧
    (st = .pressed → Detection.debounced
      ⟨0, (heldBehind (judgeCnt info) streak).map Press.id, st, streak⟩) := by
  have hkept := steady_single hsane hsteady
  refine sampled_streak hsane (fun i hi => getButtonId_lt hi) rfl
    (fun hid p hp => ?_) (fun i hi p hp => ?_) hs
  · simpa [hid] using hkept p hp
  · simpa [Option.mem_def.1 hi] using hkept p hp

/-- One visit. -/
theorem Remembers.visit {s t : Task} (h : Remembers info s) {adc : Int}
    (hsteady : Steady s adc) (hv : visit s adc = some t) :
    Remembers info t := by
  obtain ⟨⟨streak, hsane, hs⟩, hfound, hdebounced, hreported⟩ := h
  rw [hs] at hsteady hv
  cases visits_of_visit hsane.held_lt hv with
  | stuck hst => exact ⟨⟨streak, hsane, rfl⟩, hfound, hdebounced, hreported⟩
  | called hst =>
      -- A callback reports what was found.
      refine ⟨⟨streak, hsane, rfl⟩, fun hnow => ?_, hdebounced,
        fun e he hpressed => ?_⟩
      · rcases hst with ⟨-, rfl⟩ | ⟨-, rfl⟩ <;> exact nomatch hnow
      · rcases List.mem_append.1 he with he | he
        · exact hreported e he hpressed
        · obtain rfl := List.mem_singleton.1 he
          exact hfound hpressed
  | quiet hst hsampled =>
      rw [hst] at hsteady
      obtain ⟨⟨streak', hsane', rfl, hnext⟩, -⟩ :=
        visit_streak hsane hsteady hsampled
      have hnext : History.next ⟨streak, false⟩ (getButtonId info adc) false =
          ⟨streak', false⟩ := hnext
      rw [hnext]
      exact ⟨⟨streak', hsane', rfl⟩, nofun, hdebounced, hreported⟩
  | @found st held' hst hsampled hne =>
      rw [hst] at hsteady
      obtain ⟨⟨streak', hsane', rfl, hnext⟩, hpressed⟩ :=
        visit_streak hsane hsteady hsampled
      rw [decide_eq_true hne] at hnext
      rw [hnext]
      have hold : ∀ {P : Detection → Prop}, (∃ d ∈ s.detected, P d) →
          ∀ l, ∃ d ∈ s.detected ++ l, P d :=
        fun ⟨d, hd, h⟩ l => ⟨d, List.mem_append_left l hd, h⟩
      refine ⟨⟨streak', hsane', rfl⟩, fun hnow => ?_, fun d hd hst' => ?_,
        fun e he hst' => hold (hreported e he hst') _⟩
      · exact ⟨_, List.mem_append_right _ (List.mem_singleton.2 rfl), hnow,
          rfl⟩
      · rcases List.mem_append.1 hd with hd | hd
        · exact hdebounced d hd hst'
        · obtain rfl := List.mem_singleton.1 hd
          exact hpressed hst'

end Steps

/-! ## The result -/

/-- **Debouncing**: a press needs three samples in a row, and shorter glitches
leave nothing behind, in every run in which no glitch leaves its button
active. -/
theorem adc_button_debounced {info : AdcInfo} {s : Task}
    (h : buttonTask.Reaches Steady (start [info]) s) : Debounced s := by
  have hinv : Remembers info s := by
    refine h.invariant (I := Remembers info)
      ⟨⟨none, nofun, rfl⟩, nofun, nofun, nofun⟩ ?_
    intro u a v hu hsteady hv
    exact hu.visit hsteady hv
  obtain ⟨⟨streak, -, hs⟩, -, hdebounced, hreported⟩ := hinv
  refine ⟨hdebounced, hreported, ?_, ?_⟩
  · rw [hs]
    exact fun node hnode => by rw [List.mem_singleton.1 hnode]
  · rw [hs]
    exact fun node hnode => by rw [List.mem_singleton.1 hnode]

/-- Four samples of a button are a short press. -/
theorem adc_button_debounced_short : ∃ s,
    buttonTask.run (start [twoButtons 100]) [300, 300, 300, 300, 3300, 0, 0] =
      some s ∧
    s.events = [⟨3, some 0, .pressed⟩, ⟨3, some 0, .release⟩] ∧
    Debounced s := by
  have hrun : (buttonTask.runIf Steady (start [twoButtons 100])
      [300, 300, 300, 300, 3300, 0, 0]).map Task.events =
        some [⟨3, some 0, .pressed⟩, ⟨3, some 0, .release⟩] := by
    decide +kernel
  obtain ⟨s, hs, hevents⟩ := Option.map_eq_some_iff.1 hrun
  exact ⟨s, (Machine.meets_of_runIf hs).1, hevents,
    adc_button_debounced (Machine.reaches_of_runIf hs)⟩

/-- Three glitches of one sample each make a short press. -/
theorem adc_button_glitches : ∃ s,
    buttonTask.run (start [twoButtons 100])
      [300, 3300, 300, 3300, 300, 3300, 0] = some s ∧
    s.events = [⟨3, some 0, .pressed⟩] ∧ ¬Debounced s := by
  have hrun : (buttonTask.run (start [twoButtons 100])
      [300, 3300, 300, 3300, 300, 3300, 0]).map (fun s =>
        (s.events, s.nodes.map fun node => node.history.glitched)) =
        some ([⟨3, some 0, .pressed⟩], [true]) := by
    decide +kernel
  obtain ⟨s, hs, heq⟩ := Option.map_eq_some_iff.1 hrun
  obtain ⟨hevents, hnodes⟩ := Prod.mk.inj heq
  refine ⟨s, hs, hevents, fun h => ?_⟩
  obtain ⟨node, hnode, hglitched⟩ := List.mem_map.1
    (hnodes ▸ List.mem_singleton.2 rfl :
      true ∈ s.nodes.map fun node => node.history.glitched)
  exact absurd (hglitched.symm.trans (h.glitched node hnode)) (by decide)

end EspAdf.Ports.AdcButton
