import EspAdf.Ports.PeriphTouch
import EspAdf.Verified.Presses

/-!
# `touch.c`: the events of touch pads

`esp_touch_init` makes an item for each pad of a mask, and `esp_touch_read`
goes through all of them with one reading of the clock.  `touch_get_state`
reads a pad only every so often, adapts the threshold, and then looks whether
the pad is tapped: `last_tap_tick` is the time of the tap, and zero stands for a
pad that is not tapped.

`touch_protocol` proves that the events of each pad are presses in the sense of
`Verified.Presses`, for any readings, errors, and any clock that is positive
and does not run back.
-/

namespace EspAdf.Ports.TouchRead

open EspAdf.Verified
open EspAdf.Verified.Bank
open EspAdf.Verified.Presses
open EspAdf.Ports.PeriphTouch
open scoped Computability

/-! ## `esp_touch_init` -/

/-- `touch_config_t`, without the interrupt handler; the mask is an `int`. -/
structure TouchConfig where
  longTapTimeMs : Int
  touchMask : Int
  tapThresholdPercent : Int
  size : touchMask < 2 ^ MASK_BITS

def DEFAULT_LONG_TAP_TIME_MS : Int := 2 * 1000

def DEFAULT_TOUCH_THRESHOLD_PERCENT : Int := 70

/-- `struct esp_touch`. -/
structure EspTouch where
  settings : Touch
  touchMask : Int
  touchList : List TouchItem
  deriving DecidableEq

/-- A new item; `calloc` clears it. -/
def newTouch (touchNum : Nat) (lastReadTick : Int) : TouchItem :=
  ⟨touchNum, 0, 0, lastReadTick, 0, 0, 0, false, false⟩

/-- The loop over the bits of a mask; `calloc` says for which pads there is
memory, and `tick` what `tick_get` returns. -/
def initList (calloc : Nat → Bool) (tick : Nat → Int) :
    (rounds : Nat) → (touchMask touchNum touchIndex : Nat) →
      Option (List TouchItem)
  | 0, _, _, _ => some []
  | n + 1, touchMask, touchNum, touchIndex =>
      if touchMask = 0 then some []
      else if touchMask &&& 1 = 1 then
        if calloc touchNum = false then none
        else (initList calloc tick n (touchMask >>> 1) (touchNum + 1)
            (touchIndex + 1)).map
          fun rest => newTouch touchNum (tick touchNum + touchIndex * 10) :: rest
      else initList calloc tick n (touchMask >>> 1) (touchNum + 1) touchIndex

/-- The settings, with their defaults. -/
def TouchConfig.settings (config : TouchConfig) : Touch where
  longTapTimeMs :=
    if config.longTapTimeMs = 0 then DEFAULT_LONG_TAP_TIME_MS
    else config.longTapTimeMs
  tapThresholdPercent :=
    if config.tapThresholdPercent = 0 then DEFAULT_TOUCH_THRESHOLD_PERCENT
    else config.tapThresholdPercent

/-- `esp_touch_init`; `padInit` says whether `touch_pad_init` succeeds. -/
def espTouchInit (callocTouch padInit : Bool) (calloc : Nat → Bool)
    (tick : Nat → Int) (config : TouchConfig) : Option EspTouch :=
  if callocTouch = false then none
  else if config.touchMask ≤ 0 then none
  else if padInit = false then none
  else (initList calloc tick MASK_BITS config.touchMask.toNat 0 0).map
    fun touchList => ⟨config.settings, config.touchMask, touchList⟩

/-! ## `esp_touch_read` -/

/-- What a pad finds: the time at the start of the call, that of its own
`tick_get`, and what `touch_pad_read_filtered` returns. -/
structure Look where
  tick : Int
  now : Int
  read : Option UInt16
  deriving DecidableEq

/-- `touch_get_state` with what the pad finds. -/
def getState (touch : Touch) (item : TouchItem) (look : Look) :
    TouchItem × Option Event :=
  touchGetState touch item look.tick look.now (look.read.map UInt16.toNat)

/-- A call of `esp_touch_read` reads the clock, and then finds something for
each pad. -/
structure Call where
  tick : Int
  now : Nat → Int
  read : Nat → Option UInt16

def Call.look (call : Call) (touchNum : Nat) : Look :=
  ⟨call.tick, call.now touchNum, call.read touchNum⟩

/-- The loop of `esp_touch_read`. -/
def readList (touch : Touch) (call : Call) :
    List TouchItem → TouchResult → Bool → List TouchItem × TouchResult × Bool
  | [], result, changed => ([], result, changed)
  | item :: rest, result, changed =>
      let r := getState touch item (call.look item.touchNum)
      let rest := readList touch call rest (result.record item.touchNum r.2)
        (changed || r.2.isSome)
      (r.1 :: rest.1, rest.2)

/-- `esp_touch_read`. -/
def espTouchRead (touch : EspTouch) (call : Call) :
    EspTouch × TouchResult × Bool :=
  let r := readList touch.settings call touch.touchList ⟨0, 0, 0, 0⟩ false
  ({ touch with touchList := r.1 }, r.2)

/-- The results of a sequence of calls. -/
def results : EspTouch → List Call → List TouchResult
  | _, [] => []
  | touch, call :: calls =>
      (espTouchRead touch call).2.1 ::
        results (espTouchRead touch call).1 calls

/-! ## The property -/

/-- The names of the events in a tap. -/
def names : Names Event := ⟨.tap, .release, .longTap, .longRelease⟩

/-- The events of a pad. -/
def events (touchNum : Nat) (results : List TouchResult) : List Event :=
  results.flatMap fun result =>
    touchRun.filter fun e => (result.mask e).testBit touchNum

/-- The clock is positive and does not run back, within a call and from one
call to the next. -/
def Clock (touchNums : List Nat) (calls : List Call) : Prop :=
  let readings := calls.flatMap fun call =>
    call.tick :: touchNums.map call.now
  readings.Pairwise (· ≤ ·) ∧ ∀ t ∈ readings, 0 < t

/-! ## The pads of a mask -/

theorem initList_pads {calloc : Nat → Bool} {tick : Nat → Int} (n : Nat) :
    ∀ {touchMask touchNum touchIndex : Nat} {items : List TouchItem},
    initList calloc tick n touchMask touchNum touchIndex = some items →
    items.map TouchItem.touchNum = sendLoop n touchMask touchNum ∧
      ∀ item ∈ items, item.lastTapTick = 0 := by
  induction n with
  | zero =>
      intro touchMask touchNum touchIndex items h
      obtain rfl := Option.some.inj h
      exact ⟨rfl, nofun⟩
  | succ n ih =>
      intro touchMask touchNum touchIndex items h
      rw [initList] at h
      rw [sendLoop]
      split at h
      · rename_i hzero
        obtain rfl := Option.some.inj h
        rw [if_pos hzero]
        exact ⟨rfl, nofun⟩
      · rename_i hzero
        rw [if_neg hzero]
        split at h
        · rename_i hbit
          rw [if_pos hbit]
          split at h
          · contradiction
          · obtain ⟨rest, hrest, rfl⟩ := Option.map_eq_some_iff.1 h
            obtain ⟨hnums, hfresh⟩ := ih hrest
            exact ⟨congrArg (touchNum :: ·) hnums,
              List.forall_mem_cons.2 ⟨rfl, hfresh⟩⟩
        · rename_i hbit
          rw [if_neg hbit, List.nil_append]
          exact ih h

/-- The items are the pads of the mask, and none is tapped. -/
theorem espTouchInit_pads {callocTouch padInit : Bool} {calloc : Nat → Bool}
    {tick : Nat → Int} {config : TouchConfig} {touch : EspTouch}
    (h : espTouchInit callocTouch padInit calloc tick config = some touch) :
    touch.touchList.map TouchItem.touchNum = pads config.touchMask.toNat ∧
      ∀ item ∈ touch.touchList, item.lastTapTick = 0 := by
  rw [espTouchInit] at h
  split at h
  · contradiction
  · split at h
    · contradiction
    · split at h
      · contradiction
      · obtain ⟨items, hitems, rfl⟩ := Option.map_eq_some_iff.1 h
        exact initList_pads MASK_BITS hitems

/-! ## The bank of pads -/

/-- `esp_touch_item_t` as one of many. -/
def kind (touch : Touch) : Kind TouchItem Look Event where
  key := TouchItem.touchNum
  step := getState touch
  key_step _ _ := touchNum_touchGetState ..

/-- The tap of a pad. -/
def tap (item : TouchItem) : Press := ⟨item.lastTapTick, item.longTapped⟩

theorem tap_calibrate (touch : Touch) (item : TouchItem) :
    tap (calibrate touch item) = tap item := by
  rw [calibrate]
  split <;> rfl

theorem tap_updateTapped (item : TouchItem) :
    tap (updateTapped item) = tap item := by
  rw [updateTapped]
  split
  · rfl
  · split <;> rfl

theorem tap_updateThreshold (touch : Touch) (tick : Int) (item : TouchItem) :
    tap (updateThreshold touch tick item) = tap item := by
  rw [updateThreshold]
  split <;> rfl

/-- The end of `touch_get_state` is a look at the pad, held or not. -/
theorem look_tap (touch : Touch) (now : Int) (item : TouchItem) :
    (tap item).look names touch.longTapTimeMs now item.tapped =
      (tap (classify touch now item).1, (classify touch now item).2) := by
  unfold Press.look classify
  by_cases hzero : item.lastTapTick = 0
  · cases htapped : item.tapped <;> simp [tap, names, hzero]
  · by_cases hlimit : now - item.lastTapTick > touch.longTapTimeMs
    · cases htapped : item.tapped <;> cases hlong : item.longTapped <;>
        simp [tap, names, hzero, hlimit, hlong]
    · cases htapped : item.tapped <;> simp [tap, names, hzero, hlimit]

/-- `touch_get_state` is a look, or leaves the tap alone. -/
theorem kind_looks (touch : Touch) :
    Looks (kind touch) names touch.longTapTimeMs tap Look.now := by
  refine ⟨fun item look => ?_⟩
  simp only [kind, getState, touchGetState]
  split
  · exact .inr ⟨rfl, rfl⟩
  · cases hread : look.read with
    | none => exact .inr ⟨rfl, rfl⟩
    | some value =>
        have hlook := look_tap touch look.now (updateThreshold touch look.tick
          (updateTapped (calibrate touch { item with
            lastReadTick := look.tick
            lastReadValue := value.toNat })))
        rw [tap_updateThreshold, tap_updateTapped, tap_calibrate] at hlook
        exact .inl ⟨_, hlook⟩

/-! ## The results -/

theorem testBit_add (r : TouchResult) (e : Event) (j : Nat) (e' : Event)
    (k : Nat) :
    ((r.add e j).mask e').testBit k = true ↔
      (r.mask e').testBit k = true ∨ True ∧ k = j ∧ e' = e := by
  by_cases he : e' = e
  · subst he
    rw [mask_add_self, testBit_setBit, Bool.or_eq_true, decide_eq_true_iff,
      eq_comm (a := j)]
    simp
  · rw [mask_add_ne r he]
    simp [he]

/-- The masks of a result. -/
def board : Board TouchResult Event where
  empty := ⟨0, 0, 0, 0⟩
  add := TouchResult.add
  marked result e touchNum := (result.mask e).testBit touchNum
  fits _ := True
  marked_empty e k := by rw [mask_zero, Nat.zero_testBit]
  marked_add := testBit_add

/-- The loop lets every item make its step, and collects what is heard. -/
theorem readList_eq (touch : Touch) (call : Call) (items : List TouchItem) :
    ∀ (result : TouchResult) (changed : Bool),
    (readList touch call items result changed).1 =
        (kind touch).round items call.look ∧
      (readList touch call items result changed).2.1 =
        ((kind touch).heard items call.look).foldl
          (fun r e => board.add r e.2 e.1) result := by
  induction items with
  | nil => exact fun _ _ => ⟨rfl, rfl⟩
  | cons item rest ih =>
      intro result changed
      rw [heard_cons, List.foldl_append]
      obtain ⟨hitems, hresult⟩ := ih
        (result.record item.touchNum
          (getState touch item (call.look item.touchNum)).2)
        (changed || (getState touch item (call.look item.touchNum)).2.isSome)
      refine ⟨congrArg _ hitems, hresult.trans (congrArg₂ _ ?_ rfl)⟩
      show _ = List.foldl _ _ (List.map _
        (getState touch item (call.look item.touchNum)).2.toList)
      cases (getState touch item (call.look item.touchNum)).2 <;> rfl

theorem results_eq (calls : List Call) : ∀ touch : EspTouch,
    results touch calls = ((kind touch.settings).rounds touch.touchList
      (calls.map Call.look)).map board.collect := by
  induction calls with
  | nil => exact fun _ => rfl
  | cons call calls ih =>
      intro touch
      obtain ⟨hitems, hresult⟩ := readList_eq touch.settings call
        touch.touchList ⟨0, 0, 0, 0⟩ false
      rw [results, ih, List.map_cons, Kind.rounds, List.map_cons]
      exact congr (congrArg _ hresult) (by simp only [espTouchRead, hitems])

/-- What the results say of a pad is what is heard of it. -/
theorem events_results {touch : EspTouch}
    (hnodup : (touch.touchList.map TouchItem.touchNum).Nodup)
    (calls : List Call) (touchNum : Nat) :
    events touchNum (results touch calls) =
      ((kind touch.settings).rounds touch.touchList
        (calls.map Call.look)).flatMap (heardOf touchNum) := by
  rw [events, results_eq, List.flatMap_map]
  refine List.flatMap_congr fun l hl => ?_
  obtain ⟨items, look, hkeys, rfl⟩ := mem_rounds _ hl
  obtain ⟨o, ho⟩ := exists_of_heard (hkeys ▸ hnodup) touchNum look
  exact board.read_collect nodup_touchRun mem_touchRun (fun _ _ => trivial) ho

/-- **The events of each pad** are taps, one after the other. -/
theorem touch_protocol {callocTouch padInit : Bool} {calloc : Nat → Bool}
    {tick : Nat → Int} {config : TouchConfig} {touch : EspTouch}
    (h : espTouchInit callocTouch padInit calloc tick config = some touch)
    {calls : List Call}
    (hclock : Clock (touch.touchList.map TouchItem.touchNum) calls)
    (touchNum : Nat) :
    events touchNum (results touch calls) ∈ Prefixed ((presses names)∗) := by
  obtain ⟨hpads, hfresh⟩ := espTouchInit_pads h
  have hnodup : (touch.touchList.map TouchItem.touchNum).Nodup :=
    hpads ▸ nodup_pads _
  rw [events_results hnodup]
  refine rounds_prefixed (kind_looks _) hnodup hfresh (fun k hk => ?_) touchNum
  have hsub := sublist_readings (f := fun call : Call => (call.look k).now)
    (g := fun call => call.tick ::
      (touch.touchList.map TouchItem.touchNum).map call.now)
    (fun call => List.mem_cons_of_mem _ (List.mem_map_of_mem hk)) calls
  rw [List.map_map]
  exact ⟨hclock.1.sublist hsub, fun t ht => hclock.2 t (hsub.mem ht)⟩

/-- Calls that read one value from all pads, at a time. -/
def calls (found : List (Int × Option UInt16)) : List Call :=
  found.map fun a => ⟨a.1, fun _ => a.1 + 1, fun _ => a.2⟩

/-- A tap between two readings of an untouched pad, with an error in it. -/
theorem touch_protocol_tap : ∃ touch,
    espTouchInit true true (fun _ => true) (fun _ => 5)
        ⟨0, 0b100, 0, by decide⟩ = some touch ∧
      let rs := results touch (calls [(1000, some 1000), (1200, some 100),
        (1400, none), (1600, some 900)])
      events 2 rs = [.tap, .release] ∧
        events 2 rs ∈ Prefixed ((presses names)∗) := by
  have hinit : espTouchInit true true (fun _ => true) (fun _ => 5)
      ⟨0, 0b100, 0, by decide⟩ =
        some ⟨⟨2000, 70⟩, 0b100, [newTouch 2 5]⟩ := by
    decide
  refine ⟨_, hinit, by decide, ?_⟩
  exact touch_protocol hinit ⟨by decide, by decide⟩ 2

end EspAdf.Ports.TouchRead
