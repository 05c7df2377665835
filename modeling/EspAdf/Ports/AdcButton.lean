import EspAdf.Verified.Machine

/-!
# `adc_button.c`: the buttons of ADC channels

The buttons of a channel share one ADC input; a button is pressed while the
voltage is between two neighbouring levels.  `button_task` visits one channel
after the other.  A visit either samples the channel and lets
`get_adc_btn_state` look for an event, or calls back with the event that was
found: `cur_state` and `cur_act_id` are shared by all channels.

A channel keeps a descriptor for each button.  `getAdcBtnState_descriptors`
proves that they are always those of at most one button that is held down, and
that `detect` says what a sample does to it.
-/

namespace EspAdf.Ports.AdcButton

open EspAdf.Verified

/-! ## Data -/

def USER_KEY_MAX : Nat := 7

def ADC_BTN_INVALID_ID : Int := -1

def ADC_BTN_DETECT_TIME_MS : Int := 20

/-- `adc_btn_state_t`. -/
inductive BtnState where
  | idle
  | adc
  | pressed
  | release
  | longPressed
  | longRelease
  deriving DecidableEq, Repr

/-- `adc_arr_t`, with a level table that fits `total_steps`. -/
structure AdcInfo where
  adcCh : Int
  adcLevelStep : List Int
  totalSteps : Nat
  pressJudgeTime : Int
  size : adcLevelStep.length = totalSteps + 1
  deriving DecidableEq

/-- `btn_decription`. -/
structure BtnDescription where
  activeId : Int
  clickCnt : Int
  longClick : Bool
  deriving DecidableEq, Repr

/-- A descriptor after `reset_btn`. -/
def rest : BtnDescription := ⟨ADC_BTN_INVALID_ID, 0, false⟩

/-- `reset_btn`. -/
def resetBtn (btnNum : Nat) : List BtnDescription := List.replicate btnNum rest

/-- `get_button_id`: the first two neighbouring levels that enclose the
voltage. -/
def getButtonId (info : AdcInfo) (adc : Int) : Option Nat :=
  (info.adcLevelStep.zip info.adcLevelStep.tail).findIdx? fun step =>
    step.1 < adc && adc ≤ step.2

/-- The number of samples that make a long press. -/
def judgeCnt (info : AdcInfo) : Int :=
  info.pressJudgeTime.tdiv ADC_BTN_DETECT_TIME_MS

/-- `click_cnt++` of an `int`. -/
def increment (clickCnt : Int) : Int := (clickCnt + 1).bmod (2 ^ 32)

theorem increment_of_lt {clickCnt : Int} (h : 0 ≤ clickCnt)
    (hlt : clickCnt + 1 < 2 ^ 31) : increment clickCnt = clickCnt + 1 := by
  rw [increment, Int.bmod_def]
  omega

/-! ## A sample -/

/-- `get_adc_btn_state`; without an active button `act_id` is
`ADC_BTN_INVALID_ACT_ID`. -/
def getAdcBtnState (adcValue : Int) (actId : Option Nat) (info : AdcInfo)
    (btnDscp : List BtnDescription) : BtnState × List BtnDescription :=
  match getButtonId info adcValue, actId with
  | none, none => (.idle, btnDscp)
  | none, some act =>
      let clickCnt := (btnDscp.getD act rest).clickCnt
      if clickCnt ≤ 1 then (.idle, btnDscp)
      else
        (if clickCnt < judgeCnt info then .pressed else .longRelease,
          btnDscp.set act ⟨-1, 0, false⟩)
  | some id, none =>
      (.idle, btnDscp.modify id fun b => { b with activeId := id })
  | some id, some act =>
      if id ≠ act then
        (.idle, (btnDscp.set act ⟨-1, 0, false⟩).modify id
          fun b => { b with activeId := id })
      else
        let b := btnDscp.getD act rest
        let b := { b with clickCnt := increment b.clickCnt }
        if b.longClick then (.idle, btnDscp.set act b)
        else if b.clickCnt ≥ judgeCnt info then
          (.longPressed, btnDscp.set act { b with longClick := true })
        else (.idle, btnDscp.set act b)

/-- The first active button. -/
def activeButton (btnDscp : List BtnDescription) : Option Nat :=
  btnDscp.findIdx? fun b => b.activeId > ADC_BTN_INVALID_ID

/-! ## The task -/

/-- History: the samples in a row that were in the range of one button, and
whether an event was found in them. -/
structure Streak where
  button : Nat
  count : Nat
  found : Bool
  deriving DecidableEq, Repr

/-- History of a channel: the streak up to the last sample, if that was in a
range, and whether an event was ever found for less than three samples. -/
structure History where
  streak : Option Streak
  glitched : Bool
  deriving DecidableEq, Repr

/-- A sample in the range of `id` goes on with a streak or ends it. -/
def History.next (h : History) (id : Option Nat) (found : Bool) : History :=
  let fresh := id.map fun button => ⟨button, 1, found⟩
  match h.streak with
  | none => ⟨fresh, h.glitched⟩
  | some k =>
      if id = some k.button then
        ⟨some ⟨k.button, k.count + 1, k.found || found⟩, h.glitched⟩
      else ⟨fresh, h.glitched || decide (k.count < 3) && (k.found || found)⟩

/-- `adc_btn_list`: one channel. -/
structure Node where
  info : AdcInfo
  btnDscp : List BtnDescription
  history : History
  deriving DecidableEq

/-- What `btn_callback` is called with. -/
structure Event where
  adcCh : Int
  id : Option Nat
  state : BtnState
  deriving DecidableEq, Repr

/-- History: what `get_adc_btn_state` has found, where, and behind which
samples. -/
structure Detection where
  node : Nat
  id : Option Nat
  state : BtnState
  streak : Option Streak
  deriving DecidableEq, Repr

/-- The state of `button_task`. -/
structure Task where
  nodes : List Node
  /-- The node that is visited next. -/
  find : Nat
  curState : BtnState
  curActId : Option Nat
  /-- The calls of `btn_callback`. -/
  events : List Event
  detected : List Detection
  deriving DecidableEq

/-- A channel before its first sample. -/
def Node.start (info : AdcInfo) : Node :=
  ⟨info, resetBtn info.totalSteps, ⟨none, false⟩⟩

/-- `button_task` before its loop. -/
def start (infos : List AdcInfo) : Task :=
  ⟨infos.map Node.start, 0, .adc, none, [], []⟩

/-- `btn_callback` for the channel that is visited. -/
def Task.callback (s : Task) (node : Node) (state next : BtnState) : Task :=
  { s with
    events := s.events ++ [⟨node.info.adcCh, s.curActId, state⟩]
    curState := next }

/-- A channel is sampled. -/
def Task.sample (s : Task) (node : Node) (adc : Int) : Task :=
  let actId := activeButton node.btnDscp
  let found := getAdcBtnState adc actId node.info node.btnDscp
  let s := { s with
    nodes := s.nodes.set s.find { node with
      btnDscp := found.2
      history := node.history.next (getButtonId node.info adc)
        (found.1 ≠ .idle) } }
  if found.1 ≠ .idle then
    { s with
      curActId := actId
      curState := found.1
      detected := s.detected ++
        [⟨s.find, actId, found.1, node.history.streak⟩] }
  else s

/-- The next channel, or the first one after a delay. -/
def Task.advance (s : Task) : Task :=
  { s with find := (s.find + 1) % s.nodes.length }

/-- A visit of a channel, which finds the voltage `adc` if it samples. -/
def visit (s : Task) (adc : Int) : Option Task :=
  s.nodes[s.find]?.map fun node =>
    Task.advance <|
      match s.curState with
      | .adc => s.sample node adc
      | .pressed => s.callback node .pressed .release
      | .longPressed => s.callback node .longPressed .adc
      | .longRelease => s.callback node .longRelease .adc
      | .release => s.callback node .release .adc
      | .idle => s

def buttonTask : Machine Task Int := ⟨visit⟩

/-! ## The button that is held down -/

/-- A button that is held down. -/
structure Press where
  id : Nat
  clickCnt : Int
  longClick : Bool
  deriving DecidableEq, Repr

def Press.description (p : Press) : BtnDescription :=
  ⟨p.id, p.clickCnt, p.longClick⟩

/-- The descriptors while a button is held down. -/
def descriptors (n : Nat) : Option Press → List BtnDescription
  | none => resetBtn n
  | some p => (resetBtn n).set p.id p.description

/-- What a sample does: `id` is the button in whose range it is. -/
def detect (judge : Int) (held : Option Press) (id : Option Nat) :
    BtnState × Option Press :=
  match id, held with
  | none, none => (.idle, none)
  | none, some p =>
      if p.clickCnt ≤ 1 then (.idle, some p)
      else (if p.clickCnt < judge then .pressed else .longRelease, none)
  | some id, none => (.idle, some ⟨id, 0, false⟩)
  | some id, some p =>
      if id ≠ p.id then (.idle, some ⟨id, 0, false⟩)
      else
        let clickCnt := increment p.clickCnt
        if p.longClick then (.idle, some ⟨id, clickCnt, true⟩)
        else if clickCnt ≥ judge then (.longPressed, some ⟨id, clickCnt, true⟩)
        else (.idle, some ⟨id, clickCnt, false⟩)

section Descriptors

variable {n : Nat}

@[simp] theorem length_descriptors (n : Nat) (held : Option Press) :
    (descriptors n held).length = n := by
  cases held <;> simp [descriptors, resetBtn]

theorem getD_descriptors {p : Press} (h : p.id < n) :
    (descriptors n (some p)).getD p.id rest = p.description := by
  simp [descriptors, resetBtn, h]

/-- The active button is given up for another one, or for none. -/
theorem set_descriptors (p : Press) (b : BtnDescription) :
    (descriptors n (some p)).set p.id b = (resetBtn n).set p.id b :=
  List.set_set ..

theorem set_rest (i : Nat) : (resetBtn n).set i ⟨-1, 0, false⟩ = resetBtn n :=
  List.set_replicate_self

theorem activate (id : Nat) :
    (resetBtn n).modify id (fun b => { b with activeId := id }) =
      descriptors n (some ⟨id, 0, false⟩) := by
  refine List.ext_getElem? fun i => ?_
  simp only [descriptors, resetBtn, List.getElem?_modify, List.getElem?_set,
    List.getElem?_replicate, List.length_replicate]
  by_cases hi : id = i
  · subst hi
    by_cases hlt : id < n <;> simp [hlt, Press.description, rest]
  · by_cases hlt : i < n <;> simp [hi, hlt]

theorem activeButton_descriptors {held : Option Press}
    (h : ∀ p ∈ held, p.id < n) :
    activeButton (descriptors n held) = held.map Press.id := by
  cases held with
  | none => simp [activeButton, descriptors, resetBtn, rest]
  | some p =>
      have hlt := h p rfl
      refine List.findIdx?_eq_some_iff_getElem.2
        ⟨by simpa using hlt, ?_, fun j hj => ?_⟩
      · simp only [descriptors, List.getElem_set_self]
        simp [Press.description, ADC_BTN_INVALID_ID]
        omega
      · have hne : p.id ≠ j := Nat.ne_of_gt hj
        simp [descriptors, resetBtn, hne, rest]

/-- **The descriptors** are those of the button that is held down, before a
sample and behind it. -/
theorem getAdcBtnState_descriptors {held : Option Press} {info : AdcInfo}
    (h : ∀ p ∈ held, p.id < n) (adc : Int) :
    getAdcBtnState adc (held.map Press.id) info (descriptors n held) =
      ((detect (judgeCnt info) held (getButtonId info adc)).1,
        descriptors n (detect (judgeCnt info) held (getButtonId info adc)).2)
          := by
  cases held with
  | none =>
      cases hid : getButtonId info adc with
      | none => simp [getAdcBtnState, detect, hid]
      | some id => simp only [getAdcBtnState, detect, hid, Option.map_none,
          descriptors, activate]
  | some p =>
      have hget := getD_descriptors (h p rfl)
      cases hid : getButtonId info adc with
      | none =>
          simp only [getAdcBtnState, detect, hid, Option.map_some, hget]
          by_cases hcnt : p.clickCnt ≤ 1
          · simp [Press.description, hcnt]
          · simp only [Press.description, hcnt, if_false]
            rw [set_descriptors, set_rest]
            rfl
      | some id =>
          simp only [getAdcBtnState, detect, hid, Option.map_some, hget]
          by_cases hne : id = p.id
          · subst hne
            simp only [Press.description, ne_eq, not_true, if_false,
              set_descriptors]
            split
            · rename_i hlong
              rw [hlong]
              rfl
            · rename_i hlong
              rw [Bool.not_eq_true] at hlong
              rw [hlong]
              split <;> rfl
          · simp only [ne_eq, hne, not_false_iff, if_true, set_descriptors,
              set_rest, activate]

end Descriptors

/-- A button that is found is one of the channel. -/
theorem getButtonId_lt {info : AdcInfo} {adc : Int} {id : Nat}
    (h : getButtonId info adc = some id) : id < info.totalSteps := by
  have hlt := (List.findIdx?_eq_some_iff_getElem.1 h).1
  have hsize := info.size
  rw [List.length_zip, List.length_tail] at hlt
  omega

/-- All that a sample can do. -/
inductive Sampled (judge : Int) :
    Option Press → Option Nat → BtnState → Option Press → Prop
  | nothing : Sampled judge none none .idle none
  | glitch {p : Press} (h : p.clickCnt ≤ 1) :
      Sampled judge (some p) none .idle (some p)
  | pressed {p : Press} (h : 1 < p.clickCnt) (hjudge : p.clickCnt < judge) :
      Sampled judge (some p) none .pressed none
  | longRelease {p : Press} (h : 1 < p.clickCnt)
      (hjudge : judge ≤ p.clickCnt) :
      Sampled judge (some p) none .longRelease none
  | first {held : Option Press} {id : Nat} (h : ∀ p ∈ held, id ≠ p.id) :
      Sampled judge held (some id) .idle (some ⟨id, 0, false⟩)
  | longHold {p : Press} (h : p.longClick = true) :
      Sampled judge (some p) (some p.id) .idle
        (some ⟨p.id, increment p.clickCnt, true⟩)
  | longPressed {p : Press} (h : p.longClick = false)
      (hjudge : judge ≤ increment p.clickCnt) :
      Sampled judge (some p) (some p.id) .longPressed
        (some ⟨p.id, increment p.clickCnt, true⟩)
  | hold {p : Press} (h : p.longClick = false)
      (hjudge : increment p.clickCnt < judge) :
      Sampled judge (some p) (some p.id) .idle
        (some ⟨p.id, increment p.clickCnt, false⟩)

theorem detect_sampled (judge : Int) (held : Option Press) (id : Option Nat) :
    Sampled judge held id (detect judge held id).1
      (detect judge held id).2 := by
  cases id with
  | none =>
      cases held with
      | none => exact .nothing
      | some p =>
          simp only [detect]
          by_cases hcnt : p.clickCnt ≤ 1
          · rw [if_pos hcnt]
            exact .glitch hcnt
          · rw [if_neg hcnt]
            by_cases hjudge : p.clickCnt < judge
            · rw [if_pos hjudge]
              exact .pressed (Int.not_le.1 hcnt) hjudge
            · rw [if_neg hjudge]
              exact .longRelease (Int.not_le.1 hcnt) (Int.not_lt.1 hjudge)
  | some id =>
      cases held with
      | none => exact .first nofun
      | some p =>
          simp only [detect]
          by_cases hid : id = p.id
          · subst hid
            rw [if_neg (not_not.2 rfl)]
            cases hlong : p.longClick with
            | true => exact .longHold hlong
            | false =>
                rw [if_neg (by decide)]
                by_cases hjudge : increment p.clickCnt ≥ judge
                · rw [if_pos hjudge]
                  exact .longPressed hlong hjudge
                · rw [if_neg hjudge]
                  exact .hold hlong (Int.not_le.1 hjudge)
          · rw [if_pos hid]
            exact .first fun q hq => Option.some.inj hq ▸ hid

/-- The cases say all of it. -/
theorem Sampled.detect_eq {judge : Int} {held held' : Option Press}
    {id : Option Nat} {st : BtnState} (h : Sampled judge held id st held') :
    detect judge held id = (st, held') := by
  cases h with
  | nothing => rfl
  | glitch hcnt => simp [detect, hcnt]
  | pressed hcnt hlt => simp [detect, Int.not_le.2 hcnt, hlt]
  | longRelease hcnt hge =>
      simp [detect, Int.not_le.2 hcnt, Int.not_lt.2 hge]
  | @first held id hne =>
      cases held with
      | none => rfl
      | some p => simp [detect, hne p rfl]
  | longHold hlong => simp [detect, hlong]
  | longPressed hlong hge => simp [detect, hlong, hge]
  | hold hlong hlt => simp [detect, hlong, Int.not_le.2 hlt]

/-! ## One channel -/

/-- A task with one channel, whose descriptors are those of `held`. -/
def single (info : AdcInfo) (held : Option Press) (history : History)
    (curState : BtnState) (curActId : Option Nat) (events : List Event)
    (detected : List Detection) : Task :=
  ⟨[⟨info, descriptors info.totalSteps held, history⟩], 0, curState, curActId,
    events, detected⟩

section Single

variable {info : AdcInfo} {held : Option Press} {history : History}
  {state : BtnState} {act : Option Nat} {events : List Event}
  {detected : List Detection}

/-- All that a visit can do in a state of the task. -/
inductive Visits (info : AdcInfo) (held : Option Press) (history : History)
    (state : BtnState) (act : Option Nat) (events : List Event)
    (detected : List Detection) (adc : Int) : Task → Prop
  /-- A callback. -/
  | called {next : BtnState}
      (hst : state = .pressed ∧ next = .release ∨
        (state = .longPressed ∨ state = .longRelease ∨ state = .release) ∧
          next = .adc) :
      Visits info held history state act events detected adc
        (single info held history next act
          (events ++ [⟨info.adcCh, act, state⟩]) detected)
  /-- The default case. -/
  | stuck (hst : state = .idle) :
      Visits info held history state act events detected adc
        (single info held history state act events detected)
  /-- A sample without an event. -/
  | quiet {held' : Option Press} (hst : state = .adc)
      (h : Sampled (judgeCnt info) held (getButtonId info adc) .idle held') :
      Visits info held history state act events detected adc
        (single info held' (history.next (getButtonId info adc) false) .adc act
          events detected)
  | found {st : BtnState} {held' : Option Press} (hst : state = .adc)
      (h : Sampled (judgeCnt info) held (getButtonId info adc) st held')
      (hfound : st ≠ .idle) :
      Visits info held history state act events detected adc
        (single info held' (history.next (getButtonId info adc) true) st
          (held.map Press.id) events
          (detected ++ [⟨0, held.map Press.id, st, history.streak⟩]))

/-- A visit that calls back. -/
theorem visit_callback {next : BtnState} (adc : Int)
    (h : state = .pressed ∧ next = .release ∨
      (state = .longPressed ∨ state = .longRelease ∨ state = .release) ∧
        next = .adc) :
    visit (single info held history state act events detected) adc =
      some (single info held history next act
        (events ++ [⟨info.adcCh, act, state⟩]) detected) := by
  rcases h with ⟨rfl, rfl⟩ | ⟨rfl | rfl | rfl, rfl⟩ <;>
    simp [visit, single, Task.callback, Task.advance]

theorem visits_of_visit (h : ∀ p ∈ held, p.id < info.totalSteps) {adc : Int}
    {t : Task}
    (hv : visit (single info held history state act events detected) adc =
      some t) :
    Visits info held history state act events detected adc t := by
  have hcallback : ∀ {next : BtnState},
      (state = .pressed ∧ next = .release ∨
        (state = .longPressed ∨ state = .longRelease ∨ state = .release) ∧
          next = .adc) →
      Visits info held history state act events detected adc t := by
    intro next hst
    rw [visit_callback adc hst] at hv
    exact Option.some.inj hv ▸ .called hst
  cases state with
  | idle =>
      have ht : t = single info held history .idle act events detected := by
        simpa [visit, single, Task.advance] using hv.symm
      exact ht ▸ .stuck rfl
  | pressed => exact hcallback (.inl ⟨rfl, rfl⟩)
  | release => exact hcallback (.inr ⟨.inr (.inr rfl), rfl⟩)
  | longPressed => exact hcallback (.inr ⟨.inl rfl, rfl⟩)
  | longRelease => exact hcallback (.inr ⟨.inr (.inl rfl), rfl⟩)
  | adc =>
      have hfound : getAdcBtnState adc (held.map Press.id) info
          (descriptors info.totalSteps held) = _ :=
        getAdcBtnState_descriptors h adc
      have hsampled := detect_sampled (judgeCnt info) held
        (getButtonId info adc)
      by_cases hst : (detect (judgeCnt info) held
          (getButtonId info adc)).1 = .idle
      · have ht : t = single info
            (detect (judgeCnt info) held (getButtonId info adc)).2
            (history.next (getButtonId info adc) false) .adc act events
            detected := by
          simpa [visit, single, Task.sample, Task.advance,
            activeButton_descriptors h, hfound, hst] using hv.symm
        rw [hst] at hsampled
        exact ht ▸ .quiet rfl hsampled
      · have ht : t = single info
            (detect (judgeCnt info) held (getButtonId info adc)).2
            (history.next (getButtonId info adc) true)
            (detect (judgeCnt info) held (getButtonId info adc)).1
            (held.map Press.id) events (detected ++ [⟨0, held.map Press.id,
              (detect (judgeCnt info) held (getButtonId info adc)).1,
              history.streak⟩]) := by
          simpa [visit, single, Task.sample, Task.advance,
            activeButton_descriptors h, hfound, hst] using hv.symm
        exact ht ▸ .found rfl hsampled hst

end Single

/-- Two buttons on channel 3, with the first of the default levels. -/
def twoButtons (pressJudgeTime : Int) : AdcInfo :=
  ⟨3, [0, 683, 1193], 2, pressJudgeTime, rfl⟩

end EspAdf.Ports.AdcButton
