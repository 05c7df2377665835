import EspAdf.Ports.AdcButton

/-!
# `adc_button.c`: several channels

`button_task` finds an event on one channel and calls back on the visits that
follow, which are visits of the next channels in the list.  The callback gets
the button id of the detection, but the ADC channel of the visit.

`adc_button_channels` proves that each event is delivered exactly once and with
its own channel in every run in which the channels that are visited next have
the number of the one on which the event was found.
-/

namespace EspAdf.Ports.AdcButton

open EspAdf.Verified

/-! ## The property and the condition -/

/-- The numbers of the channels. -/
def Task.channels (s : Task) : List Int := s.nodes.map fun node => node.info.adcCh

/-- The events that are due for a detection: `RELEASE` follows `PRESSED`. -/
def Detection.due (channels : List Int) (d : Detection) : List Event :=
  match channels[d.node]? with
  | none => []
  | some adcCh =>
      match d.state with
      | .pressed => [⟨adcCh, d.id, .pressed⟩, ⟨adcCh, d.id, .release⟩]
      | st => [⟨adcCh, d.id, st⟩]

/-- The events that are due for all detections. -/
def Task.due (s : Task) : List Event :=
  s.detected.flatMap (Detection.due s.channels)

/-- The events are those that are due, in their order and with their channels,
and none is missing when a channel is sampled again. -/
def Delivered (s : Task) : Prop :=
  s.events <+: s.due ∧ (s.curState = .adc → s.events = s.due)

/-- Behind a detection, the channels of the callbacks are the one on which it
was made. -/
def SameChannel (s : Task) (adc : Int) : Prop :=
  s.curState = .adc → ∀ node ∈ s.nodes[s.find]?,
    let st := (getAdcBtnState adc (activeButton node.btnDscp) node.info
      node.btnDscp).1
    (st ≠ .idle → s.channels[(s.find + 1) % s.nodes.length]? =
      some node.info.adcCh) ∧
    (st = .pressed → s.channels[(s.find + 1 + 1) % s.nodes.length]? =
      some node.info.adcCh)

instance (s : Task) (adc : Int) : Decidable (SameChannel s adc) :=
  inferInstanceAs (Decidable (_ → _))

/-! ## A visit -/

/-- `get_adc_btn_state` finds nothing, a press, or a long press or its end. -/
theorem getAdcBtnState_cases (adc : Int) (actId : Option Nat) (info : AdcInfo)
    (btnDscp : List BtnDescription) :
    (getAdcBtnState adc actId info btnDscp).1 = .idle ∨
      (getAdcBtnState adc actId info btnDscp).1 = .pressed ∨
      (getAdcBtnState adc actId info btnDscp).1 = .longPressed ∨
      (getAdcBtnState adc actId info btnDscp).1 = .longRelease := by
  unfold getAdcBtnState
  split
  · exact .inl rfl
  · simp only
    split
    · exact .inl rfl
    · simp only
      split
      · exact .inr (.inl rfl)
      · exact .inr (.inr (.inr rfl))
  · exact .inl rfl
  · split
    · exact .inl rfl
    · simp only
      split
      · exact .inl rfl
      · split
        · exact .inr (.inr (.inl rfl))
        · exact .inl rfl

section Visit

variable {s t : Task} {adc : Int}

/-- All that a visit can do. -/
inductive Visited (s : Task) (adc : Int) : Task → Prop
  /-- A sample without an event. -/
  | quiet {nodes : List Node} (hst : s.curState = .adc) :
      Visited s adc { s with
        nodes := nodes, find := (s.find + 1) % s.nodes.length }
  | detected {nodes : List Node} {node : Node} {st : BtnState}
      (hnode : s.nodes[s.find]? = some node)
      (hst : s.curState = .adc)
      (hfound : st = (getAdcBtnState adc (activeButton node.btnDscp) node.info
        node.btnDscp).1)
      (hevent : st = .pressed ∨ st = .longPressed ∨ st = .longRelease) :
      Visited s adc { s with
        nodes := nodes, find := (s.find + 1) % s.nodes.length
        curState := st, curActId := activeButton node.btnDscp
        detected := s.detected ++
          [⟨s.find, activeButton node.btnDscp, st, node.history.streak⟩] }
  | called {adcCh : Int} {next : BtnState}
      (hnode : s.channels[s.find]? = some adcCh)
      (hst : s.curState = .pressed ∧ next = .release ∨
        (s.curState = .longPressed ∨ s.curState = .longRelease ∨
          s.curState = .release) ∧ next = .adc) :
      Visited s adc { s with
        find := (s.find + 1) % s.nodes.length
        curState := next
        events := s.events ++ [⟨adcCh, s.curActId, s.curState⟩] }
  | stuck (hst : s.curState = .idle) :
      Visited s adc { s with find := (s.find + 1) % s.nodes.length }

/-- A sample leaves the number of a channel as it is. -/
theorem channels_set {node : Node} (h : s.nodes[s.find]? = some node)
    (btnDscp : List BtnDescription) (history : History) :
    (s.nodes.set s.find
      { node with btnDscp := btnDscp, history := history }).map
        (fun node => node.info.adcCh) = s.channels := by
  rw [List.map_set, Task.channels]
  refine List.ext_getElem? fun i => ?_
  rw [List.getElem?_set]
  split
  · rename_i hi
    subst hi
    obtain ⟨hlt, -⟩ := List.getElem?_eq_some_iff.1 h
    rw [List.length_map, if_pos hlt, List.getElem?_map, h]
    rfl
  · rfl

theorem visit_cases (h : visit s adc = some t) :
    Visited s adc t ∧ t.channels = s.channels := by
  obtain ⟨node, hnode, rfl⟩ := Option.map_eq_some_iff.1 h
  have hch : s.channels[s.find]? = some node.info.adcCh := by
    rw [Task.channels, List.getElem?_map, hnode]
    rfl
  have hcallback : ∀ {state next : BtnState}, s.curState = state →
      (state = .pressed ∧ next = .release ∨
        (state = .longPressed ∨ state = .longRelease ∨ state = .release) ∧
          next = .adc) →
      Visited s adc (s.callback node state next).advance ∧
        (s.callback node state next).advance.channels = s.channels := by
    rintro state next rfl hst
    exact ⟨.called hch hst, rfl⟩
  cases hst : s.curState with
  | idle => exact ⟨.stuck hst, rfl⟩
  | pressed => exact hcallback hst (.inl ⟨rfl, rfl⟩)
  | release => exact hcallback hst (.inr ⟨.inr (.inr rfl), rfl⟩)
  | longPressed => exact hcallback hst (.inr ⟨.inl rfl, rfl⟩)
  | longRelease => exact hcallback hst (.inr ⟨.inr (.inl rfl), rfl⟩)
  | adc =>
      have hset := channels_set hnode
        (getAdcBtnState adc (activeButton node.btnDscp) node.info
          node.btnDscp).2
        (node.history.next (getButtonId node.info adc)
          ((getAdcBtnState adc (activeButton node.btnDscp) node.info
            node.btnDscp).1 ≠ .idle))
      have hevent := getAdcBtnState_cases adc (activeButton node.btnDscp)
        node.info node.btnDscp
      simp only [Task.sample, Task.advance]
      by_cases hidle : (getAdcBtnState adc (activeButton node.btnDscp)
          node.info node.btnDscp).1 = .idle
      · simp only [hidle, ne_eq, not_true, if_false, List.length_set] at hset ⊢
        exact ⟨.quiet hst, hset⟩
      · simp only [hidle, ne_eq, not_false_iff, if_true, List.length_set]
          at hset ⊢
        exact ⟨.detected hnode hst rfl (hevent.resolve_left hidle), hset⟩

end Visit

/-! ## The invariant -/

/-- The events that are not delivered yet, and the channels of the visits that
deliver them. -/
def Owed (s : Task) : List Event → Prop :=
  match s.curState with
  | .adc => fun rest => rest = []
  | .pressed => fun rest => ∃ adcCh,
      rest = [⟨adcCh, s.curActId, .pressed⟩, ⟨adcCh, s.curActId, .release⟩] ∧
      s.channels[s.find]? = some adcCh ∧
      s.channels[(s.find + 1) % s.nodes.length]? = some adcCh
  | st => fun rest => ∃ adcCh, rest = [⟨adcCh, s.curActId, st⟩] ∧
      s.channels[s.find]? = some adcCh

section Owed

variable {s : Task} {rest : List Event}

theorem owed_adc (h : s.curState = .adc) : Owed s rest ↔ rest = [] := by
  rw [Owed, h]

theorem owed_pressed (h : s.curState = .pressed) : Owed s rest ↔ ∃ adcCh,
    rest = [⟨adcCh, s.curActId, .pressed⟩, ⟨adcCh, s.curActId, .release⟩] ∧
    s.channels[s.find]? = some adcCh ∧
    s.channels[(s.find + 1) % s.nodes.length]? = some adcCh := by
  rw [Owed, h]

theorem owed_last {st : BtnState} (h : s.curState = st)
    (hst : st = .longPressed ∨ st = .longRelease ∨ st = .release) :
    Owed s rest ↔ ∃ adcCh, rest = [⟨adcCh, s.curActId, st⟩] ∧
      s.channels[s.find]? = some adcCh := by
  rcases hst with rfl | rfl | rfl <;> rw [Owed, h]

end Owed

/-- What is delivered and what is owed are what is due. -/
def Balanced (s : Task) : Prop :=
  s.curState ≠ .idle ∧ ∃ rest, Owed s rest ∧ s.events ++ rest = s.due

theorem Balanced.delivered {s : Task} (h : Balanced s) : Delivered s := by
  obtain ⟨-, rest, howed, hdue⟩ := h
  refine ⟨⟨rest, hdue⟩, fun hst => ?_⟩
  rw [Owed, hst] at howed
  obtain rfl : rest = [] := howed
  rw [← hdue, List.append_nil]

section Steps

variable {s t : Task} {adc : Int}

/-- Nothing is detected: what is due stays. -/
theorem due_of_detected (hch : t.channels = s.channels)
    (h : t.detected = s.detected) : t.due = s.due := by
  rw [Task.due, Task.due, hch, h]

theorem due_of_detection {d : Detection} (hch : t.channels = s.channels)
    (h : t.detected = s.detected ++ [d]) :
    t.due = s.due ++ d.due s.channels := by
  rw [Task.due, hch, h, List.flatMap_append, List.flatMap_singleton, Task.due]

/-- One visit: a detection is owed at the channels that follow, and a callback
pays the first of what is owed. -/
theorem Balanced.visit (h : Balanced s) (hsame : SameChannel s adc)
    (hv : visit s adc = some t) : Balanced t := by
  obtain ⟨hidle, rest, howed, hdue⟩ := h
  obtain ⟨hvisited, hch⟩ := visit_cases hv
  have hlen : t.nodes.length = s.nodes.length := by
    have hmap := congrArg List.length hch
    rwa [Task.channels, Task.channels, List.length_map, List.length_map] at hmap
  cases hvisited with
  | stuck hst => contradiction
  | quiet hst =>
      rw [owed_adc hst] at howed
      refine ⟨hidle, rest, (owed_adc ?_).2 howed, ?_⟩
      · exact hst
      · rw [due_of_detected hch rfl]
        exact hdue
  | @detected nodes node st hnode hst hfound hevent =>
      obtain rfl := (owed_adc hst).1 howed
      rw [List.append_nil] at hdue
      obtain ⟨hnext, hlast⟩ := hsame hst node hnode
      rw [← hfound] at hnext hlast
      have hhere : s.channels[s.find]? = some node.info.adcCh := by
        rw [Task.channels, List.getElem?_map, hnode]
        rfl
      rcases hevent with rfl | hlong
      · refine ⟨nofun, _, (owed_pressed rfl).2
          ⟨node.info.adcCh, rfl, ?_, ?_⟩, ?_⟩
        · rw [hch]
          exact hnext nofun
        · rw [hch, hlen, Nat.mod_add_mod]
          exact hlast rfl
        · rw [due_of_detection hch rfl, ← hdue, Detection.due, hhere]
      · refine ⟨?_, _, (owed_last rfl (by tauto)).2
          ⟨node.info.adcCh, rfl, ?_⟩, ?_⟩
        · rcases hlong with rfl | rfl <;> nofun
        · rw [hch]
          exact hnext (by rcases hlong with rfl | rfl <;> nofun)
        · rw [due_of_detection hch rfl, ← hdue, Detection.due, hhere]
          rcases hlong with rfl | rfl <;> rfl
  | @called adcCh next hnode hst =>
      rcases hst with ⟨hst, rfl⟩ | ⟨hst, rfl⟩
      · obtain ⟨ch, rfl, hfirst, hlast⟩ := (owed_pressed hst).1 howed
        obtain rfl := Option.some.inj (hnode.symm.trans hfirst)
        refine ⟨nofun, _, (owed_last rfl (.inr (.inr rfl))).2
          ⟨adcCh, rfl, ?_⟩, ?_⟩
        · rw [hch]
          exact hlast
        · rw [due_of_detected hch rfl, ← hdue, hst, List.append_assoc]
          rfl
      · obtain ⟨ch, rfl, hfirst⟩ := (owed_last rfl hst).1 howed
        obtain rfl := Option.some.inj (hnode.symm.trans hfirst)
        refine ⟨nofun, [], (owed_adc rfl).2 rfl, ?_⟩
        rw [due_of_detected hch rfl, ← hdue, List.append_nil]

end Steps

/-! ## The result -/

/-- **Each event is delivered once and with its own channel** in every run in
which the channels behind a detection have the number of its own. -/
theorem adc_button_channels {infos : List AdcInfo} {s : Task}
    (h : buttonTask.Reaches SameChannel (start infos) s) : Delivered s := by
  refine Balanced.delivered (h.invariant (I := Balanced)
    ⟨nofun, [], (owed_adc rfl).2 rfl, rfl⟩ ?_)
  intro u a v hu hsame hv
  exact hu.visit hsame hv

/-- A list of one channel delivers a short press. -/
theorem adc_button_channels_one : ∃ s,
    buttonTask.run (start [twoButtons 100]) [300, 300, 300, 300, 3300, 0, 0] =
      some s ∧
    s.events = [⟨3, some 0, .pressed⟩, ⟨3, some 0, .release⟩] ∧
    Delivered s := by
  have hrun : (buttonTask.runIf SameChannel (start [twoButtons 100])
      [300, 300, 300, 300, 3300, 0, 0]).map Task.events =
        some [⟨3, some 0, .pressed⟩, ⟨3, some 0, .release⟩] := by
    decide +kernel
  obtain ⟨s, hs, hevents⟩ := Option.map_eq_some_iff.1 hrun
  exact ⟨s, (Machine.meets_of_runIf hs).1, hevents,
    adc_button_channels (Machine.reaches_of_runIf hs)⟩

/-- A press of a button on channel 3 is delivered as one on channel 6. -/
theorem adc_button_wrong_channel : ∃ s,
    buttonTask.run (start [twoButtons 100, { twoButtons 100 with adcCh := 6 }])
      [300, 3300, 300, 3300, 300, 3300, 300, 3300, 3300, 0, 0] = some s ∧
    s.events = [⟨6, some 0, .pressed⟩, ⟨3, some 0, .release⟩] ∧
    ¬Delivered s := by
  have hrun : (buttonTask.run
      (start [twoButtons 100, { twoButtons 100 with adcCh := 6 }])
      [300, 3300, 300, 3300, 300, 3300, 300, 3300, 3300, 0, 0]).map
        (fun s => (s.events, s.due)) =
      some ([⟨6, some 0, .pressed⟩, ⟨3, some 0, .release⟩],
        [⟨3, some 0, .pressed⟩, ⟨3, some 0, .release⟩]) := by
    decide +kernel
  obtain ⟨s, hs, heq⟩ := Option.map_eq_some_iff.1 hrun
  obtain ⟨hevents, hdue⟩ := Prod.mk.inj heq
  refine ⟨s, hs, hevents, fun h => ?_⟩
  have hle := h.1
  rw [hevents, hdue] at hle
  exact absurd hle (by decide)

end EspAdf.Ports.AdcButton
