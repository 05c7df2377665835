import EspAdf.Ports.WifiSettings

/-!
# `wifi_service.c`: the index of a setting

`wifi_service_register_setting_handle` hands out `setting_index` and counts it
up, but the number it keeps in the item is the one *after* that.  The commands
look for the number that is kept, and take 0 for all settings.  So the index
that the first caller gets starts and stops all settings, and that of any
other the setting before.

`setting_index_iff` proves that an index addresses its setting exactly while
there is no other.
-/

namespace EspAdf.Ports.WifiSettingIndex

open EspAdf.Verified
open EspAdf.Ports.WifiService
open EspAdf.Ports.WifiSettings (Call picked calls)

/-! ## Registrations -/

def ESP_OK : Int := 0
def ESP_FAIL : Int := -1

/-- `wifi_service_register_setting_handle`: the result, `*out_index` if it is
set, and the service.  `alloc` says whether the item can be allocated. -/
def registerSettingHandle (serv : Serv) (alloc : Bool) :
    Int × Option Int × Serv :=
  if alloc then
    (ESP_OK, some serv.settingIndex, serv.registerSettingHandle)
  else (ESP_FAIL, none, serv)

structure Sys where
  serv : Serv
  /-- History: what `*out_index` was set to, call by call. -/
  outIndex : List Int
  deriving DecidableEq, Repr

inductive Act where
  | registerSettingHandle (alloc : Bool)
  | handle (msg : Msg)
  deriving DecidableEq, Repr

def step (s : Sys) : Act → Option Sys
  | .registerSettingHandle alloc =>
      let r := registerSettingHandle s.serv alloc
      some { serv := r.2.2, outIndex := s.outIndex ++ r.2.1.toList }
  | .handle msg =>
      if s.serv.taskRun then some { s with serv := s.serv.handle msg }
      else none

def indexMachine : Machine Sys Act := ⟨step⟩

def start : Sys := ⟨WifiService.start.serv, []⟩

/-! ## The property -/

/-- `call` for the setting `j` of `n`, and for no other. -/
def only (call : Call) (j n : Nat) : List (Option Call) :=
  (List.range n).map fun i => if i = j then some call else none

/-- The commands with the index `idx` start and stop the setting `j`, and no
other. -/
def Addresses (serv : Serv) (idx : Int) (j : Nat) : Prop :=
  calls serv (.settingStart idx) = only .start j serv.settingList.length ∧
    calls serv (.settingStop idx) = only .stop j serv.settingList.length

/-! ## The numbers -/

/-- The numbers `n, n + 1, ..` of the items. -/
def Numbered : Nat → List SettingItem → Prop
  | _, [] => True
  | n, item :: items => item.index = n ∧ Numbered (n + 1) items

theorem numbered_append {n : Nat} {items : List SettingItem}
    (h : Numbered n items) {item : SettingItem}
    (hitem : item.index = (n + items.length : Nat)) :
    Numbered n (items ++ [item]) := by
  induction items generalizing n with
  | nil => exact ⟨hitem, trivial⟩
  | cons first items ih =>
      refine ⟨h.1, ih h.2 ?_⟩
      rw [hitem, List.length_cons]
      congr 1
      omega

/-- The numbers are all that matters. -/
theorem numbered_congr {n : Nat} {items items' : List SettingItem}
    (h : items'.map SettingItem.index = items.map SettingItem.index) :
    Numbered n items' ↔ Numbered n items := by
  induction items generalizing n items' with
  | nil =>
      obtain rfl := List.map_eq_nil_iff.1 h
      exact Iff.rfl
  | cons item items ih =>
      obtain ⟨item', items', rfl, hitem, hitems⟩ :=
        List.map_eq_cons_iff.1 h
      rw [Numbered, Numbered, ih hitems, hitem]

/-- Zero picks all settings. -/
theorem picked_zero (call : Call) (items : List SettingItem) :
    picked call 0 items = items.map fun _ => some call := by
  induction items with
  | nil => rfl
  | cons item items ih => rw [picked, if_pos rfl, ih, List.map_cons]

/-- Another number picks the setting that has it. -/
theorem picked_number (call : Call) {n : Nat} (hn : 0 < n)
    {items : List SettingItem} (h : Numbered n items) (j : Nat) :
    picked call ((n + j : Nat) : Int) items = only call j items.length := by
  induction items generalizing n j with
  | nil => rfl
  | cons item items ih =>
      have hne : ((n + j : Nat) : Int) ≠ 0 := by omega
      rw [picked, if_neg hne, h.1, only, List.length_cons,
        List.range_succ_eq_map, List.map_cons, List.map_map]
      cases j with
      | zero =>
          rw [if_pos rfl, if_pos (show (n : Int) = (n + 0 : Nat) from rfl)]
          have hnone : (List.range items.length).map
              ((fun i => if i = 0 then some call else none) ∘ Nat.succ) =
                (List.range items.length).map fun _ => none := by
            refine List.map_congr_left fun i _ => ?_
            show (if i + 1 = 0 then some call else none) = none
            exact if_neg (Nat.succ_ne_zero i)
          rw [hnone, List.map_const', List.map_const', List.length_range]
      | succ j =>
          rw [if_neg (by omega), if_neg (Nat.succ_ne_zero j).symm]
          have hshift : n + (j + 1) = n + 1 + j := by omega
          rw [hshift, ih (Nat.succ_pos n) h.2 j]
          refine congrArg _ (List.map_congr_left fun i _ => ?_)
          show _ = if i + 1 = j + 1 then some call else none
          simp only [Nat.add_right_cancel_iff]

/-! ## Between the calls -/

/-- What holds of the numbers. -/
structure Inv (s : Sys) : Prop where
  settingIndex : s.serv.settingIndex = (s.serv.settingList.length : Nat)
  /-- The items have the numbers from 1 on. -/
  numbered : Numbered 1 s.serv.settingList
  /-- The callers have got those from 0 on. -/
  outIndex : s.outIndex =
    (List.range s.serv.settingList.length).map fun i : Nat => (i : Int)

theorem Inv.start : Inv start := ⟨rfl, trivial, rfl⟩

theorem index_startSettings (idx : Int) (items : List SettingItem) :
    (startSettings idx items).map SettingItem.index =
      items.map SettingItem.index := by
  induction items with
  | nil => rfl
  | cons item items ih =>
      rw [startSettings]
      split
      · rw [List.map_cons, List.map_cons, ih]
      · split
        · rfl
        · rw [List.map_cons, List.map_cons, ih]

/-- No message changes a number. -/
theorem handle_numbers (serv : Serv) (msg : Msg) :
    (serv.handle msg).settingIndex = serv.settingIndex ∧
      (serv.handle msg).settingList.map SettingItem.index =
        serv.settingList.map SettingItem.index := by
  cases msg with
  | connect => exact ⟨rfl, rfl⟩
  | disconnect asked => exact ⟨rfl, rfl⟩
  | settingStart idx => exact ⟨rfl, index_startSettings idx _⟩
  | settingStop idx => exact ⟨rfl, rfl⟩
  | destroy => exact ⟨rfl, rfl⟩
  | settingTimeout => exact ⟨rfl, rfl⟩
  | connected =>
      rw [Serv.handle, Serv.connected]
      dsimp only
      split
      · refine ⟨rfl, ?_⟩
        dsimp only
        rw [List.map_map]
        rfl
      · exact ⟨rfl, rfl⟩
  | disconnected =>
      rw [Serv.handle, Serv.disconnected]
      split
      · split
        · exact ⟨rfl, rfl⟩
        · exact ⟨rfl, rfl⟩
      · exact ⟨rfl, rfl⟩

theorem Inv.step {s t : Sys} {a : Act} (h : Inv s)
    (hs : indexMachine.step s a = some t) : Inv t := by
  cases a with
  | registerSettingHandle alloc =>
      obtain rfl := Option.some.inj hs
      cases alloc with
      | false =>
          refine ⟨h.settingIndex, h.numbered, ?_⟩
          exact (List.append_nil _).trans h.outIndex
      | true =>
          have hlength : (s.serv.settingList ++
              [(⟨s.serv.settingIndex + 1, false⟩ : SettingItem)]).length =
                s.serv.settingList.length + 1 := List.length_append
          refine ⟨?_, numbered_append h.numbered ?_, ?_⟩
          · refine Eq.trans ?_ (congrArg Nat.cast hlength).symm
            show s.serv.settingIndex + 1 = _
            rw [h.settingIndex]
            rfl
          · show s.serv.settingIndex + 1 = _
            rw [h.settingIndex]
            omega
          · refine Eq.trans ?_ (congrArg (fun n =>
              (List.range n).map fun i : Nat => (i : Int)) hlength).symm
            show s.outIndex ++ [s.serv.settingIndex] = _
            rw [List.range_succ, List.map_append, ← h.outIndex,
              h.settingIndex]
            rfl
  | handle msg =>
      obtain ⟨-, hs⟩ := Option.ite_none_right_eq_some.1 hs
      obtain rfl := Option.some.inj hs
      obtain ⟨hindex, hitems⟩ := handle_numbers s.serv msg
      have hlength : (s.serv.handle msg).settingList.length =
          s.serv.settingList.length := by
        have := congrArg List.length hitems
        rwa [List.length_map, List.length_map] at this
      refine ⟨?_, (numbered_congr hitems).2 h.numbered, ?_⟩
      · show (s.serv.handle msg).settingIndex = _
        rw [hindex, h.settingIndex, hlength]
      · rw [hlength]
        exact h.outIndex

/-! ## The result -/

theorem only_getElem? (call : Call) (j : Nat) {i n : Nat} (hi : i < n) :
    (only call j n)[i]? = some (if i = j then some call else none) := by
  rw [only, List.getElem?_map, List.getElem?_range hi, Option.map_some]

theorem only_inj {call : Call} {i j n : Nat} (hi : i < n)
    (h : only call i n = only call j n) : i = j := by
  by_contra hne
  have hat := only_getElem? call j hi
  rw [← h, only_getElem? call i hi, if_pos rfl, if_neg hne] at hat
  exact nomatch Option.some.inj hat

/-- All settings are one setting exactly if there is one. -/
theorem all_eq_only_iff (call : Call) {items : List SettingItem}
    (h : items ≠ []) :
    (items.map fun _ => some call) = only call 0 items.length ↔
      items.length = 1 := by
  match items, h with
  | [item], _ => exact iff_of_true rfl rfl
  | first :: second :: items, _ =>
      refine iff_of_false (fun heq => ?_) (by simp)
      have hat := only_getElem? call 0
        (show 1 < (first :: second :: items).length by simp)
      rw [← heq] at hat
      exact nomatch Option.some.inj hat

/-- **An index addresses its setting** exactly while one setting is
registered, in every state that is reached. -/
theorem setting_index_iff {as : List Act} {s : Sys}
    (h : indexMachine.run start as = some s) {j : Nat} {idx : Int}
    (hj : s.outIndex[j]? = some idx) :
    Addresses s.serv idx j ↔ s.serv.settingList.length = 1 := by
  have hinv : Inv s :=
    (Machine.reachable_of_run h).invariant Inv.start fun _ _ _ h hs =>
      h.step hs
  rw [hinv.outIndex, List.getElem?_map, Option.map_eq_some_iff] at hj
  obtain ⟨i, hi, rfl⟩ := hj
  obtain ⟨hlt, rfl⟩ := List.getElem?_eq_some_iff.1 hi
  rw [List.length_range] at hlt
  rw [List.getElem_range, Addresses, calls, calls]
  cases j with
  | zero =>
      have hne := List.ne_nil_of_length_pos hlt
      rw [Nat.cast_zero, picked_zero, picked_zero, all_eq_only_iff _ hne,
        all_eq_only_iff _ hne, and_self]
  | succ j =>
      -- the number of this setting is kept by the one behind it
      have hnumber : j + 1 = 1 + j := Nat.add_comm j 1
      refine iff_of_false (fun haddresses => ?_) (by omega)
      have hstart := haddresses.1
      rw [hnumber, picked_number .start Nat.one_pos hinv.numbered j] at hstart
      have := only_inj (Nat.lt_of_succ_lt hlt) hstart
      omega

/-- One setting, started and stopped by its index. -/
theorem setting_index_one : ∃ s,
    indexMachine.run start [.registerSettingHandle true] = some s ∧
    s.outIndex = [0] ∧ Addresses s.serv 0 0 :=
  ⟨_, rfl, rfl, (@setting_index_iff [.registerSettingHandle true] _ rfl 0 0
    rfl).2 rfl⟩

/-- Of two settings, the index of the second starts the first. -/
theorem setting_index_two : ∃ s,
    indexMachine.run start
      [.registerSettingHandle true, .registerSettingHandle true] = some s ∧
    s.outIndex = [0, 1] ∧
    calls s.serv (.settingStart 1) = [some .start, none] ∧
    ¬Addresses s.serv 1 1 := by
  refine ⟨_, rfl, rfl, rfl, fun haddresses => ?_⟩
  exact absurd haddresses.1 (by decide)

end EspAdf.Ports.WifiSettingIndex
