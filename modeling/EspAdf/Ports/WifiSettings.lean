import EspAdf.Ports.WifiService

/-!
# `wifi_service.c`: which settings are stopped and torn down

`wifi_task` keeps a flag `running` for every setting, and `is_setting` for all
of them.  `WIFI_SERV_CMD_SETTING_START` sets both.  `WIFI_SERV_CMD_SETTING_STOP`
clears `is_setting` only, whichever setting it stops, and
`WIFI_SERV_EVENT_SETTING_TIMEOUT` clears neither.  `WIFI_SERV_EVENT_CONNECTED`
tears down what is `running`, but only if `is_setting`.

The history keeps the phase of every setting by the calls that are made for
it, and whether the last of the two commands was a start.  `running` says that
a setting is not idle, and `is_setting` repeats the command, whatever is
handled.  `settings_accurate_iff` says from that when the calls are right.
-/

namespace EspAdf.Ports.WifiSettings

open EspAdf.Verified
open EspAdf.Ports.WifiService

/-! ## Calls -/

/-- `esp_wifi_setting_start`, `esp_wifi_setting_stop` and
`esp_wifi_setting_teardown`. -/
inductive Call where
  | start
  | stop
  | teardown
  deriving DecidableEq, Repr

/-- The items that the loops of `WIFI_SERV_CMD_SETTING_START` and
`WIFI_SERV_CMD_SETTING_STOP` call `call` for. -/
def picked (call : Call) (idx : Int) : List SettingItem → List (Option Call)
  | [] => []
  | item :: items =>
      if idx = 0 then some call :: picked call idx items
      else if item.index = idx then some call :: items.map fun _ => none
      else none :: picked call idx items

/-- The items that are running. -/
def running (call : Call) (items : List SettingItem) : List (Option Call) :=
  items.map fun item => if item.running then some call else none

/-- What `wifi_task` calls for each item when it handles a message. -/
def calls (serv : Serv) : Msg → List (Option Call)
  | .settingStart idx => picked .start idx serv.settingList
  | .settingStop idx => picked .stop idx serv.settingList
  | .settingTimeout => running .stop serv.settingList
  | .connected =>
      if serv.isSetting then running .teardown serv.settingList
      else serv.settingList.map fun _ => none
  | .connect => serv.settingList.map fun _ => none
  | .disconnect _ => serv.settingList.map fun _ => none
  | .destroy => serv.settingList.map fun _ => none
  | .disconnected => serv.settingList.map fun _ => none

/-! ## The history -/

/-- What was called for a setting last. -/
inductive Phase where
  /-- It was never started, or torn down. -/
  | idle
  /-- It was started. -/
  | active
  /-- It was stopped after that, by the command or the timeout. -/
  | ended
  deriving DecidableEq, Repr

def Phase.after : Phase → Option Call → Phase
  | phase, none => phase
  | _, some .start => .active
  | .active, some .stop => .ended
  | .ended, some .stop => .ended
  | .idle, some .stop => .idle
  | _, some .teardown => .idle

structure Sys where
  serv : Serv
  /-- History: the phase of every setting. -/
  phases : List Phase
  /-- History: the last of `WIFI_SERV_CMD_SETTING_START` and
  `WIFI_SERV_CMD_SETTING_STOP` was a start. -/
  opened : Bool
  deriving DecidableEq, Repr

inductive Act where
  | registerSettingHandle
  | handle (msg : Msg)
  deriving DecidableEq, Repr

/-- The last command of the two. -/
def opens (opened : Bool) : Msg → Bool
  | .settingStart _ => true
  | .settingStop _ => false
  | _ => opened

def step (s : Sys) : Act → Option Sys
  | .registerSettingHandle => some { s with
      serv := s.serv.registerSettingHandle
      phases := s.phases ++ [.idle] }
  | .handle msg =>
      if s.serv.taskRun then some
        { serv := s.serv.handle msg
          phases := List.zipWith Phase.after s.phases (calls s.serv msg)
          opened := opens s.opened msg }
      else none

def settingsMachine : Machine Sys Act := ⟨step⟩

def start : Sys := ⟨WifiService.start.serv, [], false⟩

/-! ## The property and the condition -/

/-- `call` for every setting that was started and not ended since. -/
def forActive (call : Call) (phases : List Phase) : List (Option Call) :=
  phases.map fun phase => if phase = .active then some call else none

/-- A message that ends settings calls for those that are active. -/
def Accurate (s : Sys) : Act → Prop
  | .handle .connected =>
      calls s.serv .connected = forActive .teardown s.phases
  | .handle .settingTimeout =>
      calls s.serv .settingTimeout = forActive .stop s.phases
  | _ => True

/-- The condition on a step: a timeout, and a connection behind a start, finds
no setting that was stopped and not started again; a connection behind a stop
finds no active one. -/
def StepOk (s : Sys) : Act → Prop
  | .handle .connected =>
      if s.opened then .ended ∉ s.phases else .active ∉ s.phases
  | .handle .settingTimeout => .ended ∉ s.phases
  | _ => True

/-! ## What the flags mean -/

/-- `running` of an item in a phase. -/
def Runs (item : SettingItem) (phase : Phase) : Prop :=
  item.running = decide (phase ≠ .idle)

/-- The flags of the code, by the history. -/
structure Inv (s : Sys) : Prop where
  running : List.Forall₂ Runs s.serv.settingList s.phases
  isSetting : s.serv.isSetting = s.opened

theorem Inv.start : Inv start := ⟨.nil, rfl⟩

section Settings

variable {items : List SettingItem} {phases : List Phase}

theorem after_none (h : List.Forall₂ Runs items phases) :
    List.zipWith Phase.after phases (items.map fun _ => none) = phases := by
  induction h with
  | nil => rfl
  | cons hab h ih => rw [List.map_cons, List.zipWith_cons_cons, ih]; rfl

/-- A start sets the flag of the items that it calls for. -/
theorem runs_start (h : List.Forall₂ Runs items phases) (idx : Int) :
    List.Forall₂ Runs (startSettings idx items)
      (List.zipWith Phase.after phases (picked .start idx items)) := by
  induction h with
  | nil => exact .nil
  | @cons item phase items phases hrun h ih =>
      rw [startSettings, picked]
      by_cases hall : idx = 0
      · rw [if_pos hall, if_pos hall]
        exact .cons rfl ih
      · rw [if_neg hall, if_neg hall]
        by_cases hitem : item.index = idx
        · rw [if_pos hitem, if_pos hitem, List.zipWith_cons_cons, after_none h]
          exact .cons rfl h
        · rw [if_neg hitem, if_neg hitem]
          exact .cons hrun ih

/-- A stop leaves it alone, as it leaves an idle setting idle. -/
theorem runs_stop (h : List.Forall₂ Runs items phases)
    {cs : List (Option Call)} (hlength : cs.length = items.length)
    (hcs : ∀ c ∈ cs, c = none ∨ c = some .stop) :
    List.Forall₂ Runs items (List.zipWith Phase.after phases cs) := by
  induction h generalizing cs with
  | nil =>
      rw [List.zipWith_nil_left]
      exact .nil
  | @cons item phase items phases hrun h ih =>
      obtain ⟨c, cs, rfl⟩ := List.exists_cons_of_length_eq_add_one hlength
      refine .cons ?_ (ih (Nat.succ.inj hlength) fun c hc =>
        hcs c (List.mem_cons_of_mem _ hc))
      rcases hcs c List.mem_cons_self with rfl | rfl
      · exact hrun
      · rw [Runs, hrun]
        cases phase <;> rfl

theorem length_picked (call : Call) (idx : Int) (items : List SettingItem) :
    (picked call idx items).length = items.length := by
  induction items with
  | nil => rfl
  | cons item items ih =>
      rw [picked]
      split
      · rw [List.length_cons, ih, List.length_cons]
      · split
        · rw [List.length_cons, List.length_map, List.length_cons]
        · rw [List.length_cons, ih, List.length_cons]

theorem mem_picked {call : Call} {idx : Int} {items : List SettingItem}
    {c : Option Call} (h : c ∈ picked call idx items) :
    c = none ∨ c = some call := by
  induction items with
  | nil => contradiction
  | cons item items ih =>
      rw [picked] at h
      split at h
      · rcases List.mem_cons.1 h with rfl | h
        · exact .inr rfl
        · exact ih h
      · split at h
        · rcases List.mem_cons.1 h with rfl | h
          · exact .inr rfl
          · exact .inl (List.mem_map.1 h).choose_spec.2.symm
        · rcases List.mem_cons.1 h with rfl | h
          · exact .inl rfl
          · exact ih h

theorem mem_running {call : Call} {items : List SettingItem}
    {c : Option Call} (h : c ∈ running call items) :
    c = none ∨ c = some call := by
  obtain ⟨item, -, rfl⟩ := List.mem_map.1 h
  cases item.running
  · exact .inl rfl
  · exact .inr rfl

/-- A teardown clears the flag of what it calls for. -/
theorem runs_teardown (h : List.Forall₂ Runs items phases) :
    List.Forall₂ Runs
      (items.map fun item => { item with running := false })
      (List.zipWith Phase.after phases (running .teardown items)) := by
  induction h with
  | nil => exact .nil
  | @cons item phase items phases hrun h ih =>
      refine .cons ?_ ih
      show false = decide (phase.after
        (if item.running then some .teardown else none) ≠ .idle)
      rw [hrun]
      cases phase <;> rfl

/-- Calls chosen by the items are those chosen by the phases if they are so
setting by setting. -/
theorem calls_eq_iff {f : SettingItem → Option Call}
    {g : Phase → Option Call} {q : Phase → Prop}
    (hfg : ∀ item phase, Runs item phase → (f item = g phase ↔ q phase))
    (h : List.Forall₂ Runs items phases) :
    items.map f = phases.map g ↔ ∀ phase ∈ phases, q phase := by
  induction h with
  | nil => exact iff_of_true rfl (by simp)
  | cons hrun h ih =>
      rw [List.map_cons, List.map_cons, List.cons.injEq, hfg _ _ hrun, ih,
        List.forall_mem_cons]

theorem running_eq_iff (call : Call) (h : List.Forall₂ Runs items phases) :
    running call items = forActive call phases ↔ .ended ∉ phases := by
  rw [running, forActive, calls_eq_iff (q := fun phase => phase ≠ .ended) _ h]
  · exact ⟨fun hall hin => hall _ hin rfl, fun hout phase hin heq =>
      hout (heq ▸ hin)⟩
  · intro item phase hrun
    rw [hrun]
    cases phase <;> simp

theorem none_eq_iff (call : Call) (h : List.Forall₂ Runs items phases) :
    (items.map fun _ => none) = forActive call phases ↔
      .active ∉ phases := by
  rw [forActive, calls_eq_iff (q := fun phase => phase ≠ .active) _ h]
  · exact ⟨fun hall hin => hall _ hin rfl, fun hout phase hin heq =>
      hout (heq ▸ hin)⟩
  · intro item phase _
    cases phase <;> simp

end Settings

/-! ## Every message -/

theorem Inv.handle {s : Sys} (h : Inv s) (msg : Msg) :
    Inv
      { serv := s.serv.handle msg
        phases := List.zipWith Phase.after s.phases (calls s.serv msg)
        opened := opens s.opened msg } := by
  have hnone : List.Forall₂ Runs s.serv.settingList (List.zipWith Phase.after
      s.phases (s.serv.settingList.map fun _ => none)) := by
    rw [after_none h.running]
    exact h.running
  cases msg with
  | connect => exact ⟨hnone, h.isSetting⟩
  | disconnect asked => exact ⟨hnone, h.isSetting⟩
  | destroy => exact ⟨hnone, h.isSetting⟩
  | settingStart idx => exact ⟨runs_start h.running idx, rfl⟩
  | settingStop idx =>
      exact ⟨runs_stop h.running (length_picked _ _ _) fun _ => mem_picked,
        rfl⟩
  | settingTimeout =>
      exact ⟨runs_stop h.running (List.length_map _) fun _ => mem_running,
        h.isSetting⟩
  | connected =>
      have hset := h.isSetting
      simp only [Serv.handle, Serv.connected, calls]
      cases hopen : s.serv.isSetting with
      | true => exact ⟨runs_teardown h.running, hopen.symm.trans hset⟩
      | false => exact ⟨hnone, hopen.symm.trans hset⟩
  | disconnected =>
      have hkeep : (s.serv.handle .disconnected).settingList =
          s.serv.settingList ∧
          (s.serv.handle .disconnected).isSetting = s.serv.isSetting := by
        simp only [Serv.handle, Serv.disconnected]
        split
        · split
          · exact ⟨rfl, rfl⟩
          · exact ⟨rfl, rfl⟩
        · exact ⟨rfl, rfl⟩
      exact ⟨hkeep.1.symm ▸ hnone, hkeep.2.trans h.isSetting⟩

theorem Inv.step {s t : Sys} {a : Act} (h : Inv s)
    (hs : settingsMachine.step s a = some t) : Inv t := by
  cases a with
  | registerSettingHandle =>
      cases hs
      exact ⟨List.rel_append h.running (.cons rfl .nil), h.isSetting⟩
  | handle msg =>
      obtain ⟨-, hs⟩ := Option.ite_none_right_eq_some.1 hs
      cases hs
      exact h.handle msg

/-- One message makes the right calls exactly when it meets the condition. -/
theorem accurate_iff {s : Sys} (h : Inv s) (a : Act) :
    Accurate s a ↔ StepOk s a := by
  cases a with
  | registerSettingHandle => exact Iff.rfl
  | handle msg =>
      cases msg with
      | connected =>
          rw [Accurate, StepOk, calls, h.isSetting]
          cases s.opened with
          | true => exact running_eq_iff .teardown h.running
          | false => exact none_eq_iff .teardown h.running
      | settingTimeout => exact running_eq_iff .stop h.running
      | _ => exact Iff.rfl

/-- **`esp_wifi_setting_teardown` and `esp_wifi_setting_stop` are called for
exactly the active settings**, in every sequence of messages that meets the
condition and in no other. -/
theorem settings_accurate_iff (as : List Act) :
    settingsMachine.Meets Accurate start as ↔
      settingsMachine.Meets StepOk start as :=
  Machine.meets_congr (fun _ a h => accurate_iff h a)
    (fun _ _ _ h _ hs => h.step hs) Inv.start as

/-- Two settings are started one after the other, the first is stopped in
between, and both are torn down. -/
theorem stopped_setting_torn_down : ∃ s,
    settingsMachine.run start
      [.registerSettingHandle, .registerSettingHandle,
        .handle (.settingStart 1), .handle (.settingStop 1),
        .handle (.settingStart 2)] = some s ∧
    s.phases = [.ended, .active] ∧
    calls s.serv .connected = [some .teardown, some .teardown] ∧
    ¬Accurate s (.handle .connected) := by
  refine ⟨_, rfl, by decide, by decide, ?_⟩
  show ¬calls _ .connected = _
  decide

end EspAdf.Ports.WifiSettings
