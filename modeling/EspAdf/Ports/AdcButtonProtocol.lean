import EspAdf.Ports.AdcButton
import EspAdf.Verified.Protocol

/-!
# `adc_button.c`: the events of a channel

A button of a channel reports `PRESSED` and `RELEASE`, or `LONG_PRESSED` and
`LONG_RELEASE`.  The descriptors know which of them is due, except when the
voltage slides from one button to another: then the first one is given up, and
`get_adc_btn_state` says that it may need to check for a long press.

`adc_button_protocol` proves that the events keep to the protocol in every run
in which no button is given up after its `LONG_PRESSED`, and in which no counter
overflows.
-/

namespace EspAdf.Ports.AdcButton

open EspAdf.Verified
open scoped Computability

/-! ## The protocol -/

/-- The events of one press. -/
def clicks : Language BtnState :=
  {w | w = [.pressed, .release] ∨ w = [.longPressed, .longRelease]}

/-- The states that are reported for a button. -/
def reported (id : Nat) (events : List Event) : List BtnState :=
  events.filterMap fun e => if e.id = some id then some e.state else none

/-- Each button keeps to the protocol, and the next event behind a
`LONG_PRESSED` is its `LONG_RELEASE`. -/
def InOrder (events : List Event) : Prop :=
  (∀ id, reported id events ∈ Prefixed (clicks∗)) ∧
    ∀ x e f y, events = x ++ e :: f :: y → e.state = .longPressed →
      f.state = .longRelease ∧ f.id = e.id

/-- No button is given up for another one after its long press, and no counter
overflows. -/
def Kept (s : Task) (adc : Int) : Prop :=
  s.curState = .adc → ∀ node ∈ s.nodes[s.find]?,
    ∀ act ∈ activeButton node.btnDscp, ∀ id ∈ getButtonId node.info adc,
      if id = act then
        (node.btnDscp.getD act rest).clickCnt + 1 < 2 ^ 31
      else (node.btnDscp.getD act rest).longClick = false

instance (s : Task) (adc : Int) : Decidable (Kept s adc) :=
  inferInstanceAs (Decidable (_ → _))

/-! ## The words of a channel -/

/-- The calls of `btn_callback` for one press of a button. -/
def presses (info : AdcInfo) : Language Event :=
  {w | ∃ id, w = [⟨info.adcCh, id, .pressed⟩, ⟨info.adcCh, id, .release⟩] ∨
    w = [⟨info.adcCh, id, .longPressed⟩, ⟨info.adcCh, id, .longRelease⟩]}

section Words

variable {info : AdcInfo}

theorem pressed_prefixed (info : AdcInfo) (id : Option Nat) :
    [⟨info.adcCh, id, .pressed⟩] ∈ Prefixed (presses info) :=
  ⟨_, ⟨id, .inl rfl⟩, ⟨_, rfl⟩⟩

theorem longPressed_prefixed (info : AdcInfo) (id : Option Nat) :
    [⟨info.adcCh, id, .longPressed⟩] ∈ Prefixed (presses info) :=
  ⟨_, ⟨id, .inr rfl⟩, ⟨_, rfl⟩⟩

theorem nil_prefixed (info : AdcInfo) : [] ∈ Prefixed (presses info) :=
  ⟨_, ⟨none, .inl rfl⟩, List.nil_prefix⟩

theorem reported_press {v : List Event} (hv : v ∈ presses info) (id : Nat) :
    reported id v ∈ clicks∗ := by
  obtain ⟨button, hv⟩ := hv
  by_cases hid : button = some id
  · refine Language.mem_kstar.2 ⟨[reported id v], by simp, fun y hy => ?_⟩
    obtain rfl := List.mem_singleton.1 hy
    rcases hv with rfl | rfl
    · exact .inl (by simp [reported, hid])
    · exact .inr (by simp [reported, hid])
  · have hnil : reported id v = [] := by
      rcases hv with rfl | rfl <;> simp [reported, hid]
    rw [hnil]
    exact Language.nil_mem_kstar _

theorem next_press {v : List Event} (hv : v ∈ presses info) {e : Event}
    (he : e.state = .longPressed) {x y : List Event} (heq : v = x ++ e :: y) :
    ∃ f z, y = f :: z ∧ f.state = .longRelease ∧ f.id = e.id := by
  obtain ⟨button, rfl | rfl⟩ := hv
  · -- No event of a short press is a `LONG_PRESSED`.
    have hmem : e ∈ x ++ e :: y := by simp
    rw [← heq] at hmem
    rcases List.mem_pair.1 hmem with rfl | rfl <;> simp at he
  · cases x with
    | nil =>
        obtain ⟨rfl, rfl⟩ := List.cons.inj heq
        exact ⟨_, [], rfl, rfl, rfl⟩
    | cons a x =>
        have hmem : e ∈ x ++ e :: y := by simp
        rw [List.cons_append] at heq
        rw [← (List.cons.inj heq).2, List.mem_singleton] at hmem
        rw [hmem] at he
        contradiction

/-- The events of a channel that come in whole presses are in order. -/
theorem inOrder_of_presses {events : List Event}
    (h : events ∈ Prefixed ((presses info)∗)) : InOrder events := by
  refine ⟨fun id => prefixed_filterMap _ (fun v hv => reported_press hv id) h,
    fun x e f y heq he => ?_⟩
  exact next_of_prefixed
    (p := fun f => f.state = .longRelease ∧ f.id = e.id)
    (fun v hv x y hv' => next_press hv he hv') h heq

end Words

/-! ## The invariant -/

/-- What has been reported of the button that is held down. -/
def begun (info : AdcInfo) : Option Press → List Event
  | some p =>
      if p.longClick then [⟨info.adcCh, some p.id, .longPressed⟩] else []
  | none => []

/-- The counter of a button counts its samples, and a long press is one with
enough of them. -/
structure Counted (info : AdcInfo) (p : Press) : Prop where
  id : p.id < info.totalSteps
  nonneg : 0 ≤ p.clickCnt
  long : p.longClick = true ↔ judgeCnt info ≤ p.clickCnt

/-- The part of a press that is reported, for each state of the task. -/
def Reports (info : AdcInfo) (held : Option Press) (curState : BtnState)
    (curActId : Option Nat) (events : List Event) : Prop :=
  match curState with
  | .adc => Midway (presses info) events (begun info held)
  | .pressed => held = none ∧ Midway (presses info) events []
  | .release => held = none ∧
      Midway (presses info) events [⟨info.adcCh, curActId, .pressed⟩]
  | .longPressed => ∃ p, held = some p ∧ p.longClick = true ∧
      curActId = some p.id ∧ Midway (presses info) events []
  | .longRelease => held = none ∧
      Midway (presses info) events [⟨info.adcCh, curActId, .longPressed⟩]
  | .idle => False

/-- A task with one channel whose events are in order so far. -/
def Inv (info : AdcInfo) (s : Task) : Prop :=
  ∃ held history,
    s = single info held history s.curState s.curActId s.events s.detected ∧
      (∀ p ∈ held, Counted info p) ∧
      Reports info held s.curState s.curActId s.events

section Steps

variable {info : AdcInfo} {held held' : Option Press} {events : List Event}

theorem reports_prefixed {act : Option Nat} {st : BtnState}
    (h : Reports info held st act events) :
    events ∈ Prefixed ((presses info)∗) := by
  cases st with
  | idle => exact False.elim h
  | adc =>
      refine Midway.prefixed h ?_
      cases held with
      | none => exact nil_prefixed info
      | some p =>
          simp only [begun]
          split
          · exact longPressed_prefixed info _
          · exact nil_prefixed info
  | pressed => exact h.2.prefixed (nil_prefixed info)
  | release => exact h.2.prefixed (pressed_prefixed info act)
  | longPressed =>
      obtain ⟨p, -, -, -, hmid⟩ := h
      exact hmid.prefixed (nil_prefixed info)
  | longRelease => exact h.2.prefixed (longPressed_prefixed info act)

/-- One more sample is counted. -/
theorem Counted.more {p : Press} (h : Counted info p)
    (hlt : p.clickCnt + 1 < 2 ^ 31) {long : Bool}
    (hlong : long = true ↔ judgeCnt info ≤ increment p.clickCnt) :
    ∀ q ∈ some (⟨p.id, increment p.clickCnt, long⟩ : Press),
      Counted info q := by
  intro q hq
  obtain rfl := Option.some.inj hq
  refine ⟨h.id, ?_, hlong⟩
  show 0 ≤ increment p.clickCnt
  rw [increment_of_lt h.nonneg hlt]
  exact Int.add_nonneg h.nonneg Int.one_nonneg

/-- What a sample does that gives up no long press. -/
theorem sampled_reports (act : Option Nat) (hjudge : 2 ≤ judgeCnt info)
    {id : Option Nat}
    (hid : ∀ i ∈ id, i < info.totalSteps)
    (hcounted : ∀ p ∈ held, Counted info p)
    (hkept : ∀ p ∈ held, ∀ i ∈ id,
      if i = p.id then p.clickCnt + 1 < 2 ^ 31 else p.longClick = false)
    (h : Midway (presses info) events (begun info held)) {st : BtnState}
    (hs : Sampled (judgeCnt info) held id st held') :
    (∀ p ∈ held', Counted info p) ∧
      Reports info held' (if st = .idle then .adc else st)
        (if st = .idle then act else held.map Press.id) events := by
  cases hs with
  | nothing => exact ⟨nofun, h⟩
  | glitch hcnt => exact ⟨hcounted, h⟩
  | @pressed p hcnt hlt =>
      have hlong : ¬p.longClick = true := by
        rw [(hcounted p rfl).long]
        omega
      rw [begun, if_neg hlong] at h
      exact ⟨nofun, rfl, h⟩
  | @longRelease p hcnt hge =>
      rw [begun, if_pos ((hcounted p rfl).long.2 hge)] at h
      exact ⟨nofun, rfl, h⟩
  | @first held i hne =>
      refine ⟨fun q hq => ?_, ?_⟩
      · rw [← Option.some.inj hq]
        exact ⟨hid i rfl, Int.le_refl 0, nofun, fun hle => absurd hle (by
          show ¬judgeCnt info ≤ 0
          omega)⟩
      · -- The button that is given up has reported nothing.
        have hnil : begun info held = [] := by
          cases held with
          | none => rfl
          | some p =>
              have hlong : p.longClick = false := by
                simpa [hne p rfl] using hkept p rfl i rfl
              rw [begun, if_neg (by rw [hlong]; decide)]
        rw [hnil] at h
        exact h
  | @longHold p hlong =>
      have hlt : p.clickCnt + 1 < 2 ^ 31 := by simpa using hkept p rfl p.id rfl
      have hp := hcounted p rfl
      refine ⟨hp.more hlt (iff_of_true rfl ?_), ?_⟩
      · have hge := hp.long.1 hlong
        rw [increment_of_lt hp.nonneg hlt]
        omega
      · rw [begun, if_pos hlong] at h
        exact h
  | @longPressed p hlong hge =>
      have hlt : p.clickCnt + 1 < 2 ^ 31 := by simpa using hkept p rfl p.id rfl
      refine ⟨(hcounted p rfl).more hlt (iff_of_true rfl hge), ?_⟩
      rw [begun, if_neg (by rw [hlong]; decide)] at h
      exact ⟨_, rfl, rfl, rfl, h⟩
  | @hold p hlong hbelow =>
      have hlt : p.clickCnt + 1 < 2 ^ 31 := by simpa using hkept p rfl p.id rfl
      refine ⟨(hcounted p rfl).more hlt
        (iff_of_false Bool.false_ne_true (Int.not_le.2 hbelow)), ?_⟩
      rw [begun, if_neg (by rw [hlong]; decide)] at h
      exact h

theorem kept_single {history : History} {act : Option Nat}
    {detected : List Detection} {adc : Int}
    (hcounted : ∀ p ∈ held, Counted info p)
    (h : Kept (single info held history .adc act events detected) adc) :
    ∀ p ∈ held, ∀ i ∈ getButtonId info adc,
      if i = p.id then p.clickCnt + 1 < 2 ^ 31 else p.longClick = false := by
  intro p hp i hi
  have hlt : p.id < info.totalSteps := (hcounted p hp).id
  have hactive := activeButton_descriptors (n := info.totalSteps)
    fun q hq => (hcounted q hq).id
  have hkept := h rfl _ rfl p.id (by rw [hactive, hp]; rfl) i hi
  rw [hp, getD_descriptors hlt] at hkept
  exact hkept

/-- One visit: the descriptors stay those of one press, and the events stay in
order. -/
theorem Inv.visit {s t : Task} (hjudge : 2 ≤ judgeCnt info) (h : Inv info s)
    {adc : Int} (hkept : Kept s adc) (hv : visit s adc = some t) :
    Inv info t := by
  obtain ⟨held, history, hs, hcounted, hreports⟩ := h
  rw [hs] at hkept hv
  cases visits_of_visit (fun p hp => (hcounted p hp).id) hv with
  | stuck hst =>
      rw [hst] at hreports
      exact hreports.elim
  | called hst =>
      -- The event is one more of the press, or ends it.
      refine ⟨held, history, rfl, hcounted, ?_⟩
      rcases hst with ⟨hst, rfl⟩ | ⟨hst | hst | hst, rfl⟩
      · rw [hst] at hreports ⊢
        exact ⟨hreports.1, hreports.2.event _⟩
      · rw [hst] at hreports ⊢
        obtain ⟨p, hp, hlong, hact, hmid⟩ := hreports
        rw [hp, hact]
        show Midway _ _ (begun info (some p))
        rw [begun, if_pos hlong]
        exact hmid.event _
      · rw [hst] at hreports ⊢
        rw [hreports.1]
        exact (hreports.2.event _).done ⟨s.curActId, .inr rfl⟩
      · rw [hst] at hreports ⊢
        rw [hreports.1]
        exact (hreports.2.event _).done ⟨s.curActId, .inl rfl⟩
  | @quiet held' hst hsampled =>
      rw [hst] at hkept hreports
      obtain ⟨hcounted', hreports'⟩ := sampled_reports s.curActId hjudge
        (fun i hi => getButtonId_lt hi) hcounted (kept_single hcounted hkept)
        hreports hsampled
      exact ⟨held', _, rfl, hcounted', hreports'⟩
  | @found st held' hst hsampled hfound =>
      rw [hst] at hkept hreports
      obtain ⟨hcounted', hreports'⟩ := sampled_reports s.curActId hjudge
        (fun i hi => getButtonId_lt hi) hcounted (kept_single hcounted hkept)
        hreports hsampled
      rw [if_neg hfound, if_neg hfound] at hreports'
      exact ⟨held', _, rfl, hcounted', hreports'⟩

end Steps

/-! ## The result -/

theorem judgeCnt_ge {info : AdcInfo} (h : 40 ≤ info.pressJudgeTime) :
    2 ≤ judgeCnt info := by
  rw [judgeCnt, ADC_BTN_DETECT_TIME_MS,
    Int.tdiv_eq_ediv_of_nonneg (by omega)]
  omega

/-- **The events of a channel** keep to the protocol in every run that gives up
no button after its long press. -/
theorem adc_button_protocol {info : AdcInfo} (hjudge : 40 ≤ info.pressJudgeTime)
    {s : Task} (h : buttonTask.Reaches Kept (start [info]) s) :
    InOrder s.events := by
  have hinv : Inv info s := by
    refine h.invariant (I := Inv info) ⟨none, _, rfl, nofun, .nil⟩ ?_
    intro u a v hu hkept hv
    exact hu.visit (judgeCnt_ge hjudge) hkept hv
  obtain ⟨held, -, -, -, hreports⟩ := hinv
  exact inOrder_of_presses (reports_prefixed hreports)

/-- Four samples of a button are a short press. -/
theorem adc_button_short : ∃ s,
    buttonTask.run (start [twoButtons 100]) [300, 300, 300, 300, 3300, 0, 0] =
      some s ∧
    s.events = [⟨3, some 0, .pressed⟩, ⟨3, some 0, .release⟩] ∧
    InOrder s.events := by
  have hrun : (buttonTask.runIf Kept (start [twoButtons 100])
      [300, 300, 300, 300, 3300, 0, 0]).map Task.events =
        some [⟨3, some 0, .pressed⟩, ⟨3, some 0, .release⟩] := by
    decide +kernel
  obtain ⟨s, hs, hevents⟩ := Option.map_eq_some_iff.1 hrun
  exact ⟨s, (Machine.meets_of_runIf hs).1, hevents,
    adc_button_protocol (by decide) (Machine.reaches_of_runIf hs)⟩

/-- From a long press the voltage slides to the other button. -/
theorem adc_button_slide : ∃ s,
    buttonTask.run (start [twoButtons 40])
      [300, 300, 300, 0, 1000, 1000, 1000, 0] = some s ∧
    s.events = [⟨3, some 0, .longPressed⟩, ⟨3, some 1, .longPressed⟩] ∧
    ¬InOrder s.events := by
  have hrun : (buttonTask.run (start [twoButtons 40])
      [300, 300, 300, 0, 1000, 1000, 1000, 0]).map Task.events =
        some [⟨3, some 0, .longPressed⟩, ⟨3, some 1, .longPressed⟩] := by
    decide +kernel
  obtain ⟨s, hs, hevents⟩ := Option.map_eq_some_iff.1 hrun
  refine ⟨s, hs, hevents, fun hinOrder => ?_⟩
  have hnext := hinOrder.2 [] _ _ [] hevents rfl
  exact absurd hnext.1 (by decide)

end EspAdf.Ports.AdcButton
