import EspAdf.Verified.Presses

/-!
# `button.c`: GPIO buttons

`button_init` makes an item for each pin of a mask.  `button_read` looks at all
of them, with the time at which each one is looked at, and reports what has
happened in four masks.  The time of the press is kept in `last_press_tick`,
where zero stands for a button that is not pressed.

`button_protocol` proves that the events of each pin are presses in the sense
of `Verified.Presses`, for any levels and any clock that is positive and does
not run back.
-/

namespace EspAdf.Ports.GpioButton

open EspAdf.Verified
open EspAdf.Verified.Bank
open EspAdf.Verified.Presses
open scoped Computability

/-! ## Data -/

/-- `button_status_t`; `BTN_UNCHANGE` is `none`. -/
inductive Status where
  | pressed
  | release
  | longPress
  | longRelease
  deriving DecidableEq, Repr

/-- `esp_button_item_t`. -/
structure Item where
  gpioNum : Nat
  lastPressTick : Int
  longPressed : Bool
  deriving DecidableEq, Repr

/-- `struct esp_button`. -/
structure Button where
  longPressTimeMs : Int
  gpioMask : BitVec 64
  btnList : List Item
  deriving DecidableEq

/-- `button_config_t`, without the interrupt handler. -/
structure Config where
  longPressTimeMs : Int
  gpioMask : BitVec 64
  deriving DecidableEq

/-- `button_result_t`. -/
structure Result where
  pressMask : BitVec 64
  releaseMask : BitVec 64
  longPressMask : BitVec 64
  longReleaseMask : BitVec 64
  deriving DecidableEq

def DEFAULT_LONG_PRESS_TIME_MS : Int := 2 * 1000

def activeLevel : Int := 0

def deactiveLevel : Int := 1

/-! ## `button_init` -/

/-- The loop over the bits of a mask; `calloc` says for which pins there is
memory.  A mask of 64 bits is zero after 64 rounds. -/
def initList (calloc : Nat → Bool) :
    (rounds : Nat) → BitVec 64 → (gpioNum : Nat) → Option (List Item)
  | 0, _, _ => some []
  | n + 1, gpioMask, gpioNum =>
      if gpioMask = 0 then some []
      else if gpioMask &&& 0x01 ≠ 0 then
        if calloc gpioNum = false then none
        else (initList calloc n (gpioMask >>> 1) (gpioNum + 1)).map
          fun rest => ⟨gpioNum, 0, false⟩ :: rest
      else initList calloc n (gpioMask >>> 1) (gpioNum + 1)

/-- `button_init`. -/
def buttonInit (callocBtn : Bool) (calloc : Nat → Bool) (config : Config) :
    Option Button :=
  if callocBtn = false then none
  else if config.gpioMask = 0 then none
  else (initList calloc 64 config.gpioMask 0).map fun btnList =>
    { longPressTimeMs :=
        if config.longPressTimeMs = 0 then DEFAULT_LONG_PRESS_TIME_MS
        else config.longPressTimeMs
      gpioMask := config.gpioMask
      btnList := btnList }

/-! ## `button_read` -/

/-- What an item finds: the level of its pin, and the time. -/
structure Look where
  level : Int
  now : Int
  deriving DecidableEq, Repr

/-- `button_get_state`. -/
def buttonGetState (longPressTimeMs : Int) (item : Item) (look : Look) :
    Item × Option Status :=
  if item.lastPressTick = 0 ∧ look.level = activeLevel then
    ({ item with lastPressTick := look.now, longPressed := false },
      some .pressed)
  else if look.level = deactiveLevel ∧ item.lastPressTick ≠ 0 ∧
      look.now - item.lastPressTick > longPressTimeMs then
    ({ item with lastPressTick := 0, longPressed := false },
      some .longRelease)
  else if look.level = deactiveLevel ∧ item.lastPressTick ≠ 0 then
    ({ item with lastPressTick := 0, longPressed := false }, some .release)
  else if item.longPressed = false ∧ look.level = activeLevel ∧
      look.now - item.lastPressTick > longPressTimeMs then
    ({ item with longPressed := true }, some .longPress)
  else (item, none)

def Result.mask (result : Result) : Status → BitVec 64
  | .pressed => result.pressMask
  | .release => result.releaseMask
  | .longPress => result.longPressMask
  | .longRelease => result.longReleaseMask

/-- `tmp = 0x01`, `tmp <<= gpio_num` and `mask |= tmp`. -/
def setBit (mask : BitVec 64) (gpioNum : Nat) : BitVec 64 :=
  mask ||| (0x01 : BitVec 64) <<< gpioNum

def Result.add (result : Result) (st : Status) (gpioNum : Nat) : Result :=
  match st with
  | .pressed => { result with pressMask := setBit result.pressMask gpioNum }
  | .release =>
      { result with releaseMask := setBit result.releaseMask gpioNum }
  | .longPress =>
      { result with longPressMask := setBit result.longPressMask gpioNum }
  | .longRelease =>
      { result with
        longReleaseMask := setBit result.longReleaseMask gpioNum }

/-- The loop of `button_read`. -/
def readList (longPressTimeMs : Int) (look : Nat → Look) :
    List Item → Result → Bool → List Item × Result × Bool
  | [], result, changed => ([], result, changed)
  | item :: rest, result, changed =>
      let r := buttonGetState longPressTimeMs item (look item.gpioNum)
      let rest :=
        match r.2 with
        | none => readList longPressTimeMs look rest result changed
        | some st => readList longPressTimeMs look rest
            (result.add st item.gpioNum) true
      (r.1 :: rest.1, rest.2)

/-- `button_read`; a call finds a level and a time for each pin. -/
def buttonRead (button : Button) (look : Nat → Look) :
    Button × Result × Bool :=
  let r := readList button.longPressTimeMs look button.btnList ⟨0, 0, 0, 0⟩
    false
  ({ button with btnList := r.1 }, r.2)

/-- The results of a sequence of calls. -/
def results : Button → List (Nat → Look) → List Result
  | _, [] => []
  | button, look :: looks =>
      (buttonRead button look).2.1 :: results (buttonRead button look).1 looks

/-! ## The property -/

/-- The names of the events in a press. -/
def names : Names Status := ⟨.pressed, .release, .longPress, .longRelease⟩

/-- What a result says of a pin. -/
def Result.statuses (result : Result) (gpioNum : Nat) : List Status :=
  [.pressed, .release, .longPress, .longRelease].filter fun st =>
    (result.mask st).getLsbD gpioNum

/-- The events of a pin. -/
def events (gpioNum : Nat) (results : List Result) : List Status :=
  results.flatMap fun result => result.statuses gpioNum

/-- The clock is positive and does not run back, from one pin of the mask to
the next and from one call to the next. -/
def Clock (pins : List Nat) (looks : List (Nat → Look)) : Prop :=
  (looks.flatMap fun look => pins.map fun k => (look k).now).Pairwise (· ≤ ·) ∧
    ∀ t ∈ looks.flatMap fun look => pins.map fun k => (look k).now, 0 < t

/-- Presses for each pin; disjoint masks; and no other pins. -/
structure Protocol (gpioMask : BitVec 64) (results : List Result) : Prop where
  presses : ∀ gpioNum, events gpioNum results ∈ Prefixed ((presses names)∗)
  disjoint : ∀ result ∈ results, ∀ st st', st ≠ st' →
    result.mask st &&& result.mask st' = 0
  configured : ∀ result ∈ results, ∀ st,
    result.mask st &&& ~~~gpioMask = 0

/-! ## The pins of a mask -/

/-- The pins of a list are the bits of its mask, in their order. -/
structure Pins (items : List Item) (gpioMask : BitVec 64) (rounds gpioNum : Nat) :
    Prop where
  sorted : (items.map Item.gpioNum).Pairwise (· < ·)
  mem : ∀ k, k ∈ items.map Item.gpioNum ↔
    gpioNum ≤ k ∧ k < gpioNum + rounds ∧ gpioMask.getLsbD (k - gpioNum) = true
  fresh : ∀ item ∈ items, item.lastPressTick = 0

theorem and_one_ne_zero {mask : BitVec 64} :
    mask &&& 0x01 ≠ 0 ↔ mask.getLsbD 0 = true := by
  rw [show (0x01 : BitVec 64) = 1#64 from rfl,
    BitVec.and_one_eq_setWidth_ofBool_getLsbD]
  cases mask.getLsbD 0 <;> decide

/-- A shift leaves the bits above the lowest one. -/
theorem shift_bits (gpioMask : BitVec 64) (n gpioNum k : Nat) :
    (gpioNum + 1 ≤ k ∧ k < gpioNum + 1 + n ∧
      (gpioMask >>> 1).getLsbD (k - (gpioNum + 1)) = true) ↔
    gpioNum < k ∧ k < gpioNum + (n + 1) ∧
      gpioMask.getLsbD (k - gpioNum) = true := by
  rw [BitVec.getLsbD_ushiftRight]
  constructor
  · rintro ⟨hle, hlt, hbit⟩
    rw [show 1 + (k - (gpioNum + 1)) = k - gpioNum by omega] at hbit
    exact ⟨hle, by omega, hbit⟩
  · rintro ⟨hle, hlt, hbit⟩
    rw [show 1 + (k - (gpioNum + 1)) = k - gpioNum by omega]
    exact ⟨hle, by omega, hbit⟩

theorem initList_pins {calloc : Nat → Bool} (n : Nat) :
    ∀ {gpioMask : BitVec 64} {gpioNum : Nat} {items : List Item},
    initList calloc n gpioMask gpioNum = some items →
    Pins items gpioMask n gpioNum := by
  induction n with
  | zero =>
      intro gpioMask gpioNum items h
      obtain rfl := Option.some.inj h
      exact ⟨.nil, fun k => iff_of_false (by simp) (by omega), nofun⟩
  | succ n ih =>
      intro gpioMask gpioNum items h
      rw [initList] at h
      split at h
      · rename_i hzero
        obtain rfl := Option.some.inj h
        exact ⟨.nil, fun k => iff_of_false (by simp) (by simp [hzero]), nofun⟩
      · split at h
        · rename_i hbit
          rw [and_one_ne_zero] at hbit
          split at h
          · contradiction
          · obtain ⟨rest, hrest, rfl⟩ := Option.map_eq_some_iff.1 h
            obtain ⟨hsorted, hmem, hfresh⟩ := ih hrest
            simp only [shift_bits] at hmem
            refine ⟨List.pairwise_cons.2 ⟨fun k hk => ((hmem k).1 hk).1,
              hsorted⟩, fun k => ?_, List.forall_mem_cons.2 ⟨rfl, hfresh⟩⟩
            rw [List.map_cons, List.mem_cons, hmem]
            constructor
            · rintro (rfl | ⟨hlt, hbits⟩)
              · exact ⟨Nat.le_refl _, by omega, by rwa [Nat.sub_self]⟩
              · exact ⟨Nat.le_of_lt hlt, hbits⟩
            · rintro ⟨hle, hbits⟩
              exact (Nat.eq_or_lt_of_le hle).imp Eq.symm fun hlt =>
                ⟨hlt, hbits⟩
        · rename_i hbit
          rw [and_one_ne_zero] at hbit
          obtain ⟨hsorted, hmem, hfresh⟩ := ih h
          simp only [shift_bits] at hmem
          refine ⟨hsorted, fun k => ?_, hfresh⟩
          rw [hmem]
          constructor
          · rintro ⟨hlt, hbits⟩
            exact ⟨Nat.le_of_lt hlt, hbits⟩
          · rintro ⟨hle, hlt, hk⟩
            refine ⟨Nat.lt_of_le_of_ne hle fun heq => hbit ?_, hlt, hk⟩
            rwa [← heq, Nat.sub_self] at hk

/-- The items of a button are the pins of its mask, and none is pressed. -/
theorem buttonInit_pins {callocBtn : Bool} {calloc : Nat → Bool}
    {config : Config} {button : Button}
    (h : buttonInit callocBtn calloc config = some button) :
    (button.btnList.map Item.gpioNum).Nodup ∧
      (∀ k, k ∈ button.btnList.map Item.gpioNum ↔
        config.gpioMask.getLsbD k = true) ∧
      ∀ item ∈ button.btnList, item.lastPressTick = 0 := by
  rw [buttonInit] at h
  split at h
  · contradiction
  · split at h
    · contradiction
    · obtain ⟨items, hitems, rfl⟩ := Option.map_eq_some_iff.1 h
      obtain ⟨hsorted, hmem, hfresh⟩ := initList_pins 64 hitems
      refine ⟨hsorted.imp Nat.ne_of_lt, fun k => ?_, hfresh⟩
      rw [hmem]
      constructor
      · exact fun hk => hk.2.2
      · exact fun hk => ⟨Nat.zero_le k,
          Nat.zero_add 64 ▸ BitVec.lt_of_getLsbD hk, hk⟩

/-! ## The bank of buttons -/

/-- `esp_button_item_t` as one of many. -/
def kind (longPressTimeMs : Int) : Kind Item Look Status where
  key := Item.gpioNum
  step := buttonGetState longPressTimeMs
  key_step := by
    intro item look
    unfold buttonGetState
    split
    · rfl
    · split
      · rfl
      · split
        · rfl
        · split <;> rfl

/-- The press of an item. -/
def Item.press (item : Item) : Press := ⟨item.lastPressTick, item.longPressed⟩

/-- `button_get_state` is a look, or the level is neither of the two. -/
theorem kind_looks (longPressTimeMs : Int) :
    Looks (kind longPressTimeMs) names longPressTimeMs Item.press Look.now := by
  refine ⟨fun item look => ?_⟩
  simp only [kind, buttonGetState, Press.look, names, Item.press]
  have hne : activeLevel ≠ deactiveLevel := by decide
  by_cases hactive : look.level = activeLevel
  · refine .inl ⟨true, ?_⟩
    simp only [hactive, hne, true_and, and_true, false_and, if_false,
      Bool.true_eq_false]
    split
    · rfl
    · split <;> rfl
  · by_cases hdeactive : look.level = deactiveLevel
    · refine .inl ⟨false, ?_⟩
      simp only [hdeactive, hne.symm, true_and, false_and, and_false, if_false,
        Bool.false_eq_true]
      split
      · rfl
      · split <;> rfl
    · refine .inr ?_
      simp [hactive, hdeactive]

/-! ## The masks of a result -/

theorem and_eq_zero {x y : BitVec 64}
    (h : ∀ k, x.getLsbD k = true → y.getLsbD k = true → False) :
    x &&& y = 0 := by
  refine BitVec.eq_of_getLsbD_eq fun k _ => ?_
  rw [BitVec.getLsbD_and, show (0 : BitVec 64) = 0#64 from rfl,
    BitVec.getLsbD_zero, ← Bool.not_eq_true, Bool.and_eq_true]
  exact fun hboth => h k hboth.1 hboth.2

theorem getLsbD_setBit (mask : BitVec 64) (j k : Nat) :
    (setBit mask j).getLsbD k = true ↔
      mask.getLsbD k = true ∨ k < 64 ∧ k = j := by
  rw [setBit, BitVec.getLsbD_or, Bool.or_eq_true, BitVec.getLsbD_shiftLeft,
    show (0x01 : BitVec 64) = 1#64 from rfl, BitVec.getLsbD_one]
  simp only [Bool.and_eq_true, Bool.not_eq_true', decide_eq_true_eq,
    decide_eq_false_iff_not]
  refine or_congr_right ?_
  omega

theorem getLsbD_add (r : Result) (st : Status) (j : Nat) (st' : Status)
    (k : Nat) :
    ((r.add st j).mask st').getLsbD k = true ↔
      (r.mask st').getLsbD k = true ∨ k < 64 ∧ k = j ∧ st' = st := by
  by_cases hst : st' = st
  · subst hst
    simp only [and_true]
    cases st' <;> exact getLsbD_setBit _ j k
  · have hsame : (r.add st j).mask st' = r.mask st' := by
      cases st <;> cases st' <;> first | rfl | contradiction
    simp [hsame, hst]

/-- The masks of a result. -/
def board : Board Result Status where
  empty := ⟨0, 0, 0, 0⟩
  add := Result.add
  marked result st gpioNum := (result.mask st).getLsbD gpioNum
  fits gpioNum := gpioNum < 64
  marked_empty st k := by cases st <;> simp [Result.mask]
  marked_add := getLsbD_add

/-- The loop lets every item make its step, and collects what is heard. -/
theorem readList_eq (longPressTimeMs : Int) (look : Nat → Look)
    (items : List Item) : ∀ (result : Result) (changed : Bool),
    (readList longPressTimeMs look items result changed).1 =
        (kind longPressTimeMs).round items look ∧
      (readList longPressTimeMs look items result changed).2.1 =
        ((kind longPressTimeMs).heard items look).foldl
          (fun r e => board.add r e.2 e.1) result := by
  induction items with
  | nil => exact fun _ _ => ⟨rfl, rfl⟩
  | cons item rest ih =>
      intro result changed
      rw [heard_cons]
      cases hst : (buttonGetState longPressTimeMs item
          (look item.gpioNum)).2 with
      | none =>
          obtain ⟨hitems, hresult⟩ := ih result changed
          simp only [readList, hst, kind, Option.toList_none, List.map_nil,
            List.nil_append]
          exact ⟨congrArg _ hitems, hresult⟩
      | some st =>
          obtain ⟨hitems, hresult⟩ := ih (result.add st item.gpioNum) true
          simp only [readList, hst, kind, Option.toList_some, List.map_cons,
            List.map_nil, List.cons_append, List.nil_append, List.foldl_cons]
          exact ⟨congrArg _ hitems, hresult⟩

/-! ## The results -/

section Results

variable {callocBtn : Bool} {calloc : Nat → Bool} {config : Config}
  {button : Button}

theorem results_eq (looks : List (Nat → Look)) : ∀ button : Button,
    results button looks =
      ((kind button.longPressTimeMs).rounds button.btnList looks).map
        board.collect := by
  induction looks with
  | nil => exact fun _ => rfl
  | cons look looks ih =>
      intro button
      obtain ⟨hitems, hresult⟩ := readList_eq button.longPressTimeMs look
        button.btnList ⟨0, 0, 0, 0⟩ false
      rw [results, ih, Kind.rounds, List.map_cons]
      exact congr (congrArg _ hresult) (by simp only [buttonRead, hitems])

/-- What the results say of a pin is what is heard of it. -/
theorem events_results (h : buttonInit callocBtn calloc config = some button)
    (looks : List (Nat → Look)) (gpioNum : Nat) :
    events gpioNum (results button looks) =
      ((kind button.longPressTimeMs).rounds button.btnList looks).flatMap
        (heardOf gpioNum) := by
  obtain ⟨hnodup, hpins, -⟩ := buttonInit_pins h
  rw [events, results_eq, List.flatMap_map]
  refine List.flatMap_congr fun l hl => ?_
  obtain ⟨items, look, hkeys, rfl⟩ := mem_rounds looks hl
  have hnodup' : (items.map (kind button.longPressTimeMs).key).Nodup :=
    hkeys ▸ hnodup
  obtain ⟨o, ho⟩ := exists_of_heard hnodup' gpioNum look
  refine board.read_collect (by decide) (fun st => by cases st <;> decide)
    (fun st hst => ?_) ho
  obtain ⟨item, hitem, hkey, -⟩ := mem_heard.1 hst
  exact BitVec.lt_of_getLsbD ((hpins gpioNum).1
    (hkeys ▸ List.mem_map.2 ⟨item, hitem, hkey⟩))

/-- A bit of a result is an event that was heard in its call. -/
theorem heard_of_bit (h : buttonInit callocBtn calloc config = some button)
    {looks : List (Nat → Look)} {result : Result}
    (hr : result ∈ results button looks) :
    ∃ l, result = board.collect l ∧
      (∀ k st, (k, st) ∈ l → config.gpioMask.getLsbD k = true) ∧
      ∀ k st st', (k, st) ∈ l → (k, st') ∈ l → st = st' := by
  obtain ⟨hnodup, hpins, -⟩ := buttonInit_pins h
  rw [results_eq] at hr
  obtain ⟨l, hl, rfl⟩ := List.mem_map.1 hr
  obtain ⟨items, look, hkeys, rfl⟩ := mem_rounds looks hl
  refine ⟨_, rfl, fun k st hst => ?_, fun k st st' hst hst' => ?_⟩
  · obtain ⟨item, hitem, hkey, -⟩ := mem_heard.1 hst
    exact (hpins k).1 (hkeys ▸ List.mem_map.2 ⟨item, hitem, hkey⟩)
  · have hnodup' : (items.map (kind button.longPressTimeMs).key).Nodup :=
      hkeys ▸ hnodup
    obtain ⟨o, ho⟩ := exists_of_heard hnodup' k look
    rw [← mem_heardOf, ho, Option.mem_toList] at hst hst'
    exact Option.some.inj (hst.symm.trans hst')

/-- **The events of each pin** are presses, the masks of a result are disjoint
and have configured pins only, and a pin does not depend on the others. -/
theorem button_protocol (h : buttonInit callocBtn calloc config = some button)
    {looks : List (Nat → Look)}
    (hclock : Clock (button.btnList.map Item.gpioNum) looks) :
    Protocol config.gpioMask (results button looks) ∧
      ∀ gpioNum (looks' : List (Nat → Look)),
        looks.map (fun look => look gpioNum) =
          looks'.map (fun look => look gpioNum) →
        events gpioNum (results button looks) =
          events gpioNum (results button looks') := by
  obtain ⟨hnodup, hpins, hfresh⟩ := buttonInit_pins h
  refine ⟨⟨fun gpioNum => ?_, fun result hr st st' hne => ?_,
    fun result hr st => ?_⟩, fun gpioNum looks' hsame => ?_⟩
  · rw [events_results h]
    refine rounds_prefixed (kind_looks _) hnodup hfresh (fun k hk => ?_) gpioNum
    have hsub := sublist_readings (f := fun look : Nat → Look => (look k).now)
      (g := fun look => (button.btnList.map Item.gpioNum).map
        fun k => (look k).now) (fun look => List.mem_map_of_mem hk) looks
    exact ⟨hclock.1.sublist hsub, fun t ht => hclock.2 t (hsub.mem ht)⟩
  · obtain ⟨l, rfl, -, hone⟩ := heard_of_bit h hr
    refine and_eq_zero fun k hst hst' => hne ?_
    exact hone k st st' (board.marked_collect.1 hst).2
      (board.marked_collect.1 hst').2
  · obtain ⟨l, rfl, hpin, -⟩ := heard_of_bit h hr
    refine and_eq_zero fun k hst hnot => ?_
    rw [BitVec.getLsbD_not, hpin k st (board.marked_collect.1 hst).2] at hnot
    simp at hnot
  · rw [events_results h, events_results h]
    exact of_rounds_congr hnodup hsame

end Results

/-- Calls that find the levels of pin 0 and of the others, at a time. -/
def calls (found : List (Int × Int × Int)) : List (Nat → Look) :=
  found.map fun a k => ⟨if k = 0 then a.1 else a.2.1, a.2.2⟩

/-- A long press of pin 0 during a short one of pin 2. -/
theorem button_protocol_two : ∃ button,
    buttonInit true (fun _ => true) ⟨0, 0b101⟩ = some button ∧
      let rs := results button (calls [(0, 1, 10), (0, 0, 500), (0, 1, 900),
        (0, 1, 2100), (1, 1, 2200)])
      events 0 rs = [.pressed, .longPress, .longRelease] ∧
        events 2 rs = [.pressed, .release] ∧ Protocol 0b101 rs := by
  have hinit : buttonInit true (fun _ => true) ⟨0, 0b101⟩ =
      some ⟨2000, 0b101, [⟨0, 0, false⟩, ⟨2, 0, false⟩]⟩ := by
    decide
  refine ⟨_, hinit, by decide, by decide, ?_⟩
  exact (button_protocol hinit ⟨by decide, by decide⟩).1

end EspAdf.Ports.GpioButton
