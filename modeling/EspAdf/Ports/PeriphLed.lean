import EspAdf.Verified.Machine
import EspAdf.Verified.Slots

/-!
# `periph_led.c`: channels for blinking pins

The peripheral has eight LEDC channels.  `_find_led_channel` looks for the
channel of a pin and settles for a free one; on its way it sets the `index` of
the channels that it may return.  `periph_led_blink` takes the channel for its
pin, `periph_led_stop` gives it up, and so does `led_timer_handler` when the
loops are over.

`periph_led_stop` tests what it was given for `NULL`, but only to look into
it: with `NULL` it goes on and stops the channel `ch->index`.  That happens
when all channels blink other pins.  `led_channels_iff` proves that this is
the only thing that goes wrong.
-/

namespace EspAdf.Ports.PeriphLed

open EspAdf.Verified
open EspAdf.Verified.Slots

/-! ## Data -/

def MAX_LED_CHANNEL : Nat := 8

def ESP_OK : Int := 0
def ESP_FAIL : Int := -1

/-- `periph_led_channel_t`. -/
structure Channel where
  index : Int
  pin : Int
  timeOnMs : Int
  timeOffMs : Int
  tick : Int
  loop : Int
  isOff : Bool
  fade : Bool
  deriving DecidableEq, Repr

/-- `periph_led_t`. -/
structure Led where
  dutyResolution : Nat
  channels : List Channel
  size : channels.length = MAX_LED_CHANNEL
  deriving DecidableEq

/-- What is asked of the LEDC driver, and the event that is sent. -/
inductive Out where
  | config (channel gpioNum : Int)
  | stop (channel : Int)
  | fade (channel duty timeMs : Int)
  | duty (channel duty : Int)
  | blinkFinish (pin : Int)
  deriving DecidableEq, Repr

/-- The duty of a LED that is on. -/
def Led.on (led : Led) : Int := 2 ^ led.dutyResolution - 1

/-! ## The functions -/

/-- The loop of `_find_led_channel` from channel `i` on: the channel, if any,
and the channels. -/
def findLoop (gpioNum : Int) : Nat → Option Nat → List Channel →
    Option Nat × List Channel
  | _, ch, [] => (ch, [])
  | i, ch, channel :: channels =>
      if channel.pin = gpioNum then
        (some i, { channel with index := i } :: channels)
      else if channel.pin = -1 then
        (findLoop gpioNum (i + 1) (some i) channels).map id
          ({ channel with index := i } :: ·)
      else (findLoop gpioNum (i + 1) ch channels).map id (channel :: ·)

theorem length_findLoop (gpioNum : Int) (i : Nat) (ch : Option Nat)
    (channels : List Channel) :
    (findLoop gpioNum i ch channels).2.length = channels.length := by
  induction channels generalizing i ch with
  | nil => rfl
  | cons channel channels ih =>
      rw [findLoop]
      split
      · rfl
      · split
        · exact congrArg Nat.succ (ih _ _)
        · exact congrArg Nat.succ (ih _ _)

/-- `_find_led_channel`. -/
def findLedChannel (led : Led) (gpioNum : Int) : Option Nat × Led :=
  let found := findLoop gpioNum 0 none led.channels
  (found.1, { led with
    channels := found.2
    size := by rw [length_findLoop, led.size] })

/-- What the caller does with the channel that it was given. -/
def Led.modify (led : Led) (i : Nat) (f : Channel → Channel) : Led :=
  { led with
    channels := led.channels.modify i f
    size := by rw [List.length_modify, led.size] }

/-- The `index` of a channel. -/
def Led.indexOf (led : Led) (i : Nat) : Int :=
  (led.channels[i]?.map Channel.index).getD (-1)

/-- `periph_led_blink`, at time `tick`. -/
def periphLedBlink (led : Led) (gpioNum timeOnMs timeOffMs : Int)
    (fade : Bool) (loop tick : Int) : Int × Led × List Out :=
  let found := findLedChannel led gpioNum
  match found.1 with
  | none => (ESP_FAIL, found.2, [])
  | some i =>
      (ESP_OK, found.2.modify i fun ch => { ch with
          pin := gpioNum
          tick := tick
          timeOnMs := timeOnMs
          timeOffMs := timeOffMs
          loop := loop
          fade := fade
          isOff := true },
        [.config (found.2.indexOf i) gpioNum])

/-- `periph_led_stop`; nothing if it dereferences `NULL`. -/
def periphLedStop (led : Led) (gpioNum : Int) :
    Option (Int × Led × List Out) :=
  let found := findLedChannel led gpioNum
  match found.1 with
  | none => none
  | some i =>
      match found.2.channels[i]? with
      | none => none
      | some ch =>
          if ch.pin < 0 ∨ ch.index < 0 then some (ESP_OK, found.2, [])
          else some (ESP_OK, found.2.modify i fun ch => { ch with
              pin := -1
              index := -1 },
            [.stop ch.index])

/-- What `esp_periph_tick_get` returns for the test of a channel, and after
it. -/
structure Clock where
  now : Int
  stamp : Int
  deriving DecidableEq, Repr

/-- `led_timer_handler` for one channel. -/
def handleChannel (on : Int) (clock : Clock) (ch : Channel) :
    Channel × List Out :=
  if ch.pin < 0 then (ch, [])
  else if ch.loop = 0 then
    ({ ch with pin := -1 }, [.stop ch.index, .blinkFinish ch.pin])
  else if ch.isOff = true ∧ clock.now - ch.tick > ch.timeOffMs then
    ({ ch with
        loop := if ch.loop > 0 then ch.loop - 1 else ch.loop
        isOff := if ch.timeOffMs > 0 then false else ch.isOff
        tick := clock.stamp },
      [if ch.fade then .fade ch.index on ch.timeOnMs else .duty ch.index on])
  else if ch.isOff = false ∧ clock.now - ch.tick > ch.timeOnMs then
    ({ ch with
        loop := if ch.loop > 0 then ch.loop - 1 else ch.loop
        isOff := if ch.timeOnMs > 0 then true else ch.isOff
        tick := clock.stamp },
      [if ch.fade then .fade ch.index 0 ch.timeOffMs else .duty ch.index 0])
  else (ch, [])

/-- `led_timer_handler`; `clock` is read anew for every channel. -/
def ledTimerHandler (led : Led) (clock : Nat → Clock) : Led × List Out :=
  let handled := led.channels.mapIdx fun i ch =>
    handleChannel led.on (clock i) ch
  ({ led with
      channels := handled.map Prod.fst
      size := by rw [List.length_map, List.length_mapIdx, led.size] },
    handled.flatMap Prod.snd)

/-- The channels that `periph_led_init` makes, with -1 in every byte. -/
def start (dutyResolution : Nat) : Led :=
  ⟨dutyResolution,
    List.replicate MAX_LED_CHANNEL ⟨-1, -1, -1, -1, -1, -1, true, true⟩, rfl⟩

/-! ## The calls and the timer -/

inductive Act where
  | blink (gpioNum : Nat) (timeOnMs timeOffMs : Int) (fade : Bool)
      (loop tick : Int)
  | stop (gpioNum : Int)
  | timer (clock : Nat → Clock)

def step (led : Led) : Act → Option Led
  | .blink gpioNum timeOnMs timeOffMs fade loop tick =>
      some (periphLedBlink led gpioNum timeOnMs timeOffMs fade loop tick).2.1
  | .stop gpioNum => (periphLedStop led gpioNum).map fun r => r.2.1
  | .timer clock => some (ledTimerHandler led clock).1

def ledMachine : Machine Led Act := ⟨step⟩

/-! ## The property and the condition -/

/-- The active channels have different pins, and their `index` is their
slot. -/
structure Allocated (led : Led) : Prop where
  distinct : ∀ (i j : Nat) (c d : Channel), led.channels[i]? = some c →
    led.channels[j]? = some d → 0 ≤ c.pin → c.pin = d.pin → i = j
  index : ∀ (i : Nat) (c : Channel), led.channels[i]? = some c → 0 ≤ c.pin →
    c.index = i

/-- All channels are active with other pins. -/
def Full (led : Led) (gpioNum : Int) : Prop :=
  ∀ c ∈ led.channels, 0 ≤ c.pin ∧ c.pin ≠ gpioNum

instance (led : Led) (gpioNum : Int) : Decidable (Full led gpioNum) :=
  inferInstanceAs (Decidable (∀ c ∈ led.channels, _))

/-- The channel of the pin is free, and the others are as they were. -/
def Stopped (led led' : Led) (gpioNum : Int) : Prop :=
  led'.channels.map Channel.pin = led.channels.map fun c =>
    if 0 ≤ c.pin ∧ c.pin = gpioNum then -1 else c.pin

/-- A step keeps the channels allocated, `periph_led_stop` returns and stops
its pin, and `periph_led_blink` fails exactly when all channels are active
with other pins. -/
def Serves (led : Led) (a : Act) : Prop :=
  Allocated led ∧ (∀ led', step led a = some led' → Allocated led') ∧
    match a with
    | .blink gpioNum timeOnMs timeOffMs fade loop tick =>
        (periphLedBlink led gpioNum timeOnMs timeOffMs fade loop tick).1 =
          ESP_FAIL ↔ Full led gpioNum
    | .stop gpioNum => ∃ r, periphLedStop led gpioNum = some r ∧
        Stopped led r.2.1 gpioNum
    | .timer _ => True

/-- A pin is stopped when it has a channel or a channel is free. -/
def StopOk (led : Led) : Act → Prop
  | .stop gpioNum => ¬Full led gpioNum
  | _ => True

/-! ## What `_find_led_channel` finds -/

/-- The pin of an active channel. -/
def key (c : Channel) : Option Int := if c.pin = -1 then none else some c.pin

theorem key_none {c : Channel} : key c = none ↔ c.pin = -1 := by
  rw [key]
  split
  · rename_i h
    exact iff_of_true rfl h
  · rename_i h
    exact iff_of_false (Option.some_ne_none _) h

theorem key_some {c : Channel} {gpioNum : Int} (hg : gpioNum ≠ -1) :
    key c = some gpioNum ↔ c.pin = gpioNum := by
  rw [key]
  split
  · rename_i h
    exact iff_of_false (Option.some_ne_none _).symm fun heq => hg (heq ▸ h)
  · exact Option.some_inj

section Find

variable {gpioNum : Int} {i : Nat} {ch : Option Nat} {channels : List Channel}

/-- Only the `index` of channels is set. -/
theorem findLoop_map {α : Type*} {f : Channel → α}
    (hf : ∀ (c : Channel) (n : Int), f { c with index := n } = f c) :
    (findLoop gpioNum i ch channels).2.map f = channels.map f := by
  induction channels generalizing i ch with
  | nil => rfl
  | cons c channels ih =>
      rw [findLoop]
      split
      · rw [List.map_cons, List.map_cons, hf]
      · split
        · show f _ :: List.map f _ = _
          rw [ih, hf, List.map_cons]
        · show f _ :: List.map f _ = _
          rw [ih, List.map_cons]

/-- It is set to the slot. -/
theorem findLoop_index {j : Nat} {c : Channel}
    (h : (findLoop gpioNum i ch channels).2[j]? = some c) :
    ∃ d, channels[j]? = some d ∧
      (c = d ∨ c = { d with index := ((i + j : Nat) : Int) }) := by
  induction channels generalizing i j ch with
  | nil => contradiction
  | cons d channels ih =>
      rw [findLoop] at h
      split at h
      · cases j with
        | zero =>
            obtain rfl := Option.some.inj h
            exact ⟨d, rfl, .inr rfl⟩
        | succ j => exact ⟨c, h, .inl rfl⟩
      · split at h
        · cases j with
          | zero =>
              obtain rfl := Option.some.inj h
              exact ⟨d, rfl, .inr rfl⟩
          | succ j =>
              rw [show i + (j + 1) = i + 1 + j by omega]
              exact ih h
        · cases j with
          | zero =>
              obtain rfl := Option.some.inj h
              exact ⟨d, rfl, .inl rfl⟩
          | succ j =>
              rw [show i + (j + 1) = i + 1 + j by omega]
              exact ih h

/-- The channel that is found has the pin or is free, and its `index` is its
slot. -/
theorem findLoop_some {k : Nat}
    (h : (findLoop gpioNum i ch channels).1 = some k) :
    ch = some k ∨ ∃ j c, k = i + j ∧
      (findLoop gpioNum i ch channels).2[j]? = some c ∧ c.index = (k : Int) ∧
      (c.pin = gpioNum ∨ c.pin = -1) := by
  induction channels generalizing i ch with
  | nil => exact .inl h
  | cons d channels ih =>
      rw [findLoop] at h ⊢
      split
      · rename_i hpin
        rw [if_pos hpin] at h
        obtain rfl := Option.some.inj h
        exact .inr ⟨0, _, rfl, rfl, rfl, .inl hpin⟩
      · rename_i hpin
        rw [if_neg hpin] at h
        split
        · rename_i hfree
          rw [if_pos hfree] at h
          rcases ih h with heq | ⟨j, c, hk, hc⟩
          · obtain rfl := Option.some.inj heq
            exact .inr ⟨0, _, rfl, rfl, rfl, .inr hfree⟩
          · exact .inr ⟨j + 1, c, by omega, hc⟩
        · rename_i hfree
          rw [if_neg hfree] at h
          exact (ih h).imp id fun ⟨j, c, hk, hc⟩ => ⟨j + 1, c, by omega, hc⟩

/-- Nothing is found when all channels have other pins. -/
theorem findLoop_none : (findLoop gpioNum i ch channels).1 = none ↔
    ch = none ∧ ∀ c ∈ channels, c.pin ≠ gpioNum ∧ c.pin ≠ -1 := by
  induction channels generalizing i ch with
  | nil => simp [findLoop]
  | cons d channels ih =>
      rw [findLoop, List.forall_mem_cons]
      split
      · rename_i hpin
        exact iff_of_false (Option.some_ne_none i) fun h => h.2.1.1 hpin
      · rename_i hpin
        split
        · rename_i hfree
          refine iff_of_false (fun h => ?_) fun h => h.2.1.2 hfree
          exact absurd (ih.1 h).1 (Option.some_ne_none i)
        · rename_i hfree
          show (findLoop gpioNum (i + 1) ch channels).1 = none ↔ _
          rw [ih]
          exact and_congr_right fun _ => (and_iff_right ⟨hpin, hfree⟩).symm

/-- It is the search for a slot. -/
theorem findLoop_search (hg : gpioNum ≠ -1) :
    (findLoop gpioNum i ch channels).1 =
      ((search gpioNum (channels.map key)).map (i + ·)).or ch := by
  induction channels generalizing i ch with
  | nil => rfl
  | cons d channels ih =>
      rw [findLoop, List.map_cons, search]
      by_cases hpin : d.pin = gpioNum
      · rw [if_pos hpin, if_pos ((key_some hg).2 hpin)]
        rfl
      · rw [if_neg hpin, if_neg (fun h => hpin ((key_some hg).1 h))]
        by_cases hfree : d.pin = -1
        · rw [if_pos hfree]
          show (findLoop gpioNum (i + 1) (some i) channels).1 = _
          rw [ih, if_pos (key_none.2 hfree)]
          cases search gpioNum (channels.map key) with
          | none => rfl
          | some j => exact congrArg some (Nat.succ_add_eq_add_succ i j)
        · rw [if_neg hfree]
          show (findLoop gpioNum (i + 1) ch channels).1 = _
          rw [ih, if_neg (fun h => hfree (key_none.1 h))]
          cases search gpioNum (channels.map key) with
          | none => rfl
          | some j => exact congrArg some (Nat.succ_add_eq_add_succ i j)

end Find

/-! ## The invariant -/

/-- What holds of the channels between two calls. -/
structure Sound (led : Led) : Prop where
  distinct : Distinct (led.channels.map key)
  index : ∀ (i : Nat) (c : Channel), led.channels[i]? = some c → 0 ≤ c.pin →
    c.index = i
  low : ∀ c ∈ led.channels, -1 ≤ c.pin

theorem Sound.start (dutyResolution : Nat) : Sound (start dutyResolution) := by
  have hpin : ∀ (i : Nat) (c : Channel),
      (PeriphLed.start dutyResolution).channels[i]? = some c → c.pin = -1 := by
    intro i c hc
    obtain ⟨-, rfl⟩ := List.mem_replicate.1 (List.mem_of_getElem? hc)
    rfl
  refine ⟨fun i j k hi _ => ?_, fun i c hc hpos => ?_, fun c hc => ?_⟩
  · rw [List.getElem?_map] at hi
    obtain ⟨c, hc, hkey⟩ := Option.map_eq_some_iff.1 hi
    rw [key_none.2 (hpin i c hc)] at hkey
    contradiction
  · rw [hpin i c hc] at hpos
    contradiction
  · obtain ⟨i, hi⟩ := List.mem_iff_getElem?.1 hc
    exact (hpin i c hi).ge

theorem Sound.allocated {led : Led} (h : Sound led) : Allocated led := by
  refine ⟨fun i j c d hc hd hpos heq => ?_, h.index⟩
  have hne : c.pin ≠ -1 := by omega
  refine h.distinct i j c.pin ?_ ?_
  · rw [List.getElem?_map, hc, Option.map_some, (key_some hne).2 rfl]
  · rw [List.getElem?_map, hd, Option.map_some, (key_some hne).2 heq.symm]

/-- All channels are active with other pins exactly if nothing is found. -/
theorem Sound.full_iff {led : Led} (h : Sound led) (gpioNum : Int) :
    (findLedChannel led gpioNum).1 = none ↔ Full led gpioNum := by
  rw [findLedChannel]
  dsimp only
  rw [findLoop_none, and_iff_right rfl]
  constructor
  · intro hall c hc
    have hlow := h.low c hc
    have hne := (hall c hc).2
    exact ⟨by omega, (hall c hc).1⟩
  · intro hfull c hc
    have hpos := (hfull c hc).1
    exact ⟨(hfull c hc).2, by omega⟩

theorem pins_find (led : Led) (gpioNum : Int) :
    (findLedChannel led gpioNum).2.channels.map Channel.pin =
      led.channels.map Channel.pin :=
  findLoop_map fun _ _ => rfl

theorem keys_find (led : Led) (gpioNum : Int) :
    (findLedChannel led gpioNum).2.channels.map key =
      led.channels.map key :=
  findLoop_map fun _ _ => rfl

/-- Looking for a channel changes nothing that matters. -/
theorem Sound.find {led : Led} (h : Sound led) (gpioNum : Int) :
    Sound (findLedChannel led gpioNum).2 := by
  refine ⟨?_, fun i c hc hpos => ?_, fun c hc => ?_⟩
  · rw [keys_find]
    exact h.distinct
  · obtain ⟨d, hd, rfl | rfl⟩ := findLoop_index hc
    · exact h.index i c hd hpos
    · exact congrArg Nat.cast (Nat.zero_add i)
  · have hpin : c.pin ∈ (findLedChannel led gpioNum).2.channels.map
        Channel.pin := List.mem_map_of_mem hc
    rw [pins_find] at hpin
    obtain ⟨d, hd, heq⟩ := List.mem_map.1 hpin
    rw [← heq]
    exact h.low d hd

/-- The channel that is found. -/
theorem find_some {led : Led} {gpioNum : Int} {i : Nat}
    (h : (findLedChannel led gpioNum).1 = some i) :
    ∃ c, (findLedChannel led gpioNum).2.channels[i]? = some c ∧
      c.index = i ∧ (c.pin = gpioNum ∨ c.pin = -1) := by
  rcases findLoop_some h with h | ⟨j, c, hk, hc⟩
  · contradiction
  · obtain rfl : i = j := by omega
    exact ⟨c, hc⟩

theorem modify_channels {led : Led} {i : Nat} {c : Channel}
    (hc : led.channels[i]? = some c) (f : Channel → Channel) :
    (led.modify i f).channels = led.channels.set i (f c) := by
  refine List.ext_getElem? fun j => ?_
  show (led.channels.modify i f)[j]? = _
  rw [List.getElem?_set]
  split
  · rename_i heq
    subst heq
    rw [List.getElem?_modify_eq, hc,
      if_pos (List.getElem?_eq_some_iff.1 hc).1]
    rfl
  · rename_i hne
    exact List.getElem?_modify_ne f led.channels hne

/-- One channel is set. -/
theorem Sound.modify {led : Led} (h : Sound led) {i : Nat}
    {f : Channel → Channel} {c : Channel} (hc : led.channels[i]? = some c)
    (hdistinct : Distinct ((led.channels.map key).set i (key (f c))))
    (hindex : 0 ≤ (f c).pin → (f c).index = i) (hlow : -1 ≤ (f c).pin) :
    Sound (led.modify i f) := by
  have hset := modify_channels hc f
  refine ⟨?_, fun j d hd hpos => ?_, fun d hd => ?_⟩
  · rw [hset, List.map_set]
    exact hdistinct
  · rw [hset, List.getElem?_set] at hd
    split at hd
    · rename_i heq
      subst heq
      obtain ⟨-, hd⟩ := Option.ite_none_right_eq_some.1 hd
      obtain rfl := Option.some.inj hd
      exact hindex hpos
    · exact h.index j d hd hpos
  · rw [hset] at hd
    rcases List.mem_or_eq_of_mem_set hd with hd | rfl
    · exact h.low d hd
    · exact hlow

/-! ## The steps -/

/-- `periph_led_blink` keeps the invariant. -/
theorem Sound.blink {led : Led} (h : Sound led) (gpioNum : Nat)
    (timeOnMs timeOffMs : Int) (fade : Bool) (loop tick : Int) :
    Sound (periphLedBlink led gpioNum timeOnMs timeOffMs fade loop
      tick).2.1 := by
  have hfind := h.find gpioNum
  rw [periphLedBlink]
  cases hfound : (findLedChannel led gpioNum).1 with
  | none => exact hfind
  | some i =>
      obtain ⟨c, hc, hindex, -⟩ := find_some hfound
      have hne : (gpioNum : Int) ≠ -1 := by omega
      refine hfind.modify hc ?_ (fun _ => hindex) (by dsimp only; omega)
      have hsearch : search (gpioNum : Int)
          ((findLedChannel led gpioNum).2.channels.map key) = some i := by
        have heq : (findLoop gpioNum 0 none led.channels).1 = _ :=
          findLoop_search hne
        rw [findLedChannel] at hfound
        dsimp only at hfound
        rw [hfound, Option.or_none] at heq
        obtain ⟨j, hj, hij⟩ := Option.map_eq_some_iff.1 heq.symm
        rw [keys_find, hj]
        exact congrArg some (by omega)
      have hclaim := hfind.distinct.claim hsearch
      rwa [show key _ = some (gpioNum : Int) from (key_some hne).2 rfl]

/-- The timer may only free a channel. -/
theorem handleChannel_pin (on : Int) (clock : Clock) (ch : Channel) :
    (handleChannel on clock ch).1.index = ch.index ∧
      ((handleChannel on clock ch).1.pin = ch.pin ∨
        (handleChannel on clock ch).1.pin = -1) := by
  rw [handleChannel]
  split_ifs <;> exact ⟨rfl, by simp⟩

/-- `led_timer_handler` keeps the invariant. -/
theorem Sound.timer {led : Led} (h : Sound led) (clock : Nat → Clock) :
    Sound (ledTimerHandler led clock).1 := by
  have hslot : ∀ (i : Nat) (c : Channel),
      (ledTimerHandler led clock).1.channels[i]? = some c →
      ∃ d, led.channels[i]? = some d ∧ c.index = d.index ∧
        (c.pin = d.pin ∨ c.pin = -1) := by
    intro i c hc
    rw [ledTimerHandler] at hc
    dsimp only at hc
    rw [List.getElem?_map, List.getElem?_mapIdx, Option.map_map] at hc
    obtain ⟨d, hd, rfl⟩ := Option.map_eq_some_iff.1 hc
    exact ⟨d, hd, handleChannel_pin led.on (clock i) d⟩
  refine ⟨h.distinct.thin fun i pin hi => ?_, fun i c hc hpos => ?_,
    fun c hc => ?_⟩
  · rw [List.getElem?_map] at hi ⊢
    obtain ⟨c, hc, hkey⟩ := Option.map_eq_some_iff.1 hi
    obtain ⟨d, hd, -, hpin | hfree⟩ := hslot i c hc
    · rw [hd, Option.map_some, ← hkey, key, key, hpin]
    · rw [key_none.2 hfree] at hkey
      contradiction
  · obtain ⟨d, hd, hindex, hpin | hfree⟩ := hslot i c hc
    · exact hindex.trans (h.index i d hd (hpin ▸ hpos))
    · omega
  · obtain ⟨i, hi⟩ := List.mem_iff_getElem?.1 hc
    obtain ⟨d, hd, -, hpin | hfree⟩ := hslot i c hi
    · exact hpin ▸ h.low d (List.mem_of_getElem? hd)
    · exact hfree.ge

/-- What `periph_led_stop` does with the channel that it is given: it leaves a
free one alone, and frees the channel of the pin. -/
theorem stop_cases {led : Led} (h : Sound led) (gpioNum : Int) :
    Full led gpioNum ∧ periphLedStop led gpioNum = none ∨
    (∀ c ∈ led.channels, 0 ≤ c.pin → c.pin ≠ gpioNum) ∧
      periphLedStop led gpioNum =
        some (ESP_OK, (findLedChannel led gpioNum).2, []) ∨
    ∃ i c, (findLedChannel led gpioNum).2.channels[i]? = some c ∧
      0 ≤ c.pin ∧ c.pin = gpioNum ∧
      periphLedStop led gpioNum = some (ESP_OK,
        (findLedChannel led gpioNum).2.modify i fun ch =>
          { ch with pin := -1, index := -1 },
        [.stop i]) := by
  rw [periphLedStop]
  cases hfound : (findLedChannel led gpioNum).1 with
  | none => exact .inl ⟨(h.full_iff gpioNum).1 hfound, rfl⟩
  | some i =>
      obtain ⟨c, hc, hindex, hpin⟩ := find_some hfound
      have hlow := (h.find gpioNum).low c (List.mem_of_getElem? hc)
      dsimp only
      rw [hc]
      dsimp only
      by_cases hneg : c.pin < 0
      · rw [if_pos (.inl hneg)]
        refine .inr (.inl ⟨fun d hd hpos heq => ?_, rfl⟩)
        -- were the pin active, its channel had been found
        have hne : gpioNum ≠ -1 := by omega
        have hkey : some gpioNum ∈ led.channels.map key := by
          rw [← (key_some hne).2 heq]
          exact List.mem_map_of_mem hd
        obtain ⟨j, hj, hslot⟩ := search_of_mem hkey
        have hsame : (findLedChannel led gpioNum).1 = some j := by
          rw [findLedChannel]
          dsimp only
          rw [findLoop_search hne, hj, Option.or_none]
          exact congrArg some (Nat.zero_add j)
        obtain rfl : i = j := Option.some.inj (hfound.symm.trans hsame)
        rw [← keys_find led gpioNum, List.getElem?_map, hc,
          Option.map_some] at hslot
        have hpin' := (key_some hne).1 (Option.some.inj hslot)
        omega
      · rw [if_neg (by omega)]
        refine .inr (.inr ⟨i, c, hc, by omega, by omega, ?_⟩)
        rw [hindex]

/-- `periph_led_stop` keeps the invariant. -/
theorem Sound.stop {led : Led} (h : Sound led) {gpioNum : Int}
    {r : Int × Led × List Out} (hr : periphLedStop led gpioNum = some r) :
    Sound r.2.1 := by
  rcases stop_cases h gpioNum with ⟨-, hstop⟩ | ⟨-, hstop⟩ |
    ⟨i, c, hc, -, -, hstop⟩
  · rw [hstop] at hr
    contradiction
  · obtain rfl := Option.some.inj (hstop.symm.trans hr)
    exact h.find gpioNum
  · obtain rfl := Option.some.inj (hstop.symm.trans hr)
    refine (h.find gpioNum).modify hc ?_ nofun (Int.le_refl (-1))
    refine (h.find gpioNum).distinct.thin fun j pin hj => ?_
    rw [show key { c with pin := -1, index := -1 } = none from rfl,
      List.getElem?_set] at hj
    split at hj
    · obtain ⟨-, hj⟩ := Option.ite_none_right_eq_some.1 hj
      exact nomatch Option.some.inj hj
    · exact hj

theorem pin_key (c : Channel) : (key c).getD (-1) = c.pin := by
  rw [key]
  split
  · rename_i h
    exact h.symm
  · rfl

/-- It frees the channel of its pin, and no other. -/
theorem stop_stopped {led : Led} (h : Sound led) {gpioNum : Int}
    {r : Int × Led × List Out} (hr : periphLedStop led gpioNum = some r) :
    Stopped led r.2.1 gpioNum := by
  rcases stop_cases h gpioNum with ⟨-, hstop⟩ | ⟨hnone, hstop⟩ |
    ⟨i, c, hc, hpos, hpin, hstop⟩
  · rw [hstop] at hr
    contradiction
  · obtain rfl := Option.some.inj (hstop.symm.trans hr)
    refine (pins_find led gpioNum).trans (List.map_congr_left fun d hd => ?_)
    rw [if_neg fun hd' => hnone d hd hd'.1 hd'.2]
  · obtain rfl := Option.some.inj (hstop.symm.trans hr)
    have hne : gpioNum ≠ -1 := by omega
    have hkey : (led.channels.map key)[i]? = some (some gpioNum) := by
      rw [← keys_find led gpioNum, List.getElem?_map, hc, Option.map_some,
        (key_some hne).2 hpin]
    have hpins : ∀ channels : List Channel, channels.map Channel.pin =
        (channels.map key).map fun k => k.getD (-1) := by
      intro channels
      rw [List.map_map]
      exact List.map_congr_left fun d _ => (pin_key d).symm
    rw [Stopped, hpins]
    dsimp only
    rw [modify_channels hc, List.map_set, keys_find,
      show key { c with pin := -1, index := -1 } = none from rfl,
      h.distinct.release hkey, List.map_map, List.map_map]
    refine List.map_congr_left fun d _ => ?_
    show (if key d = some gpioNum then none else key d).getD (-1) = _
    by_cases hd : d.pin = gpioNum
    · rw [if_pos ((key_some hne).2 hd), if_pos ⟨by omega, hd⟩]
      rfl
    · rw [if_neg (fun heq => hd ((key_some hne).1 heq)),
        if_neg (fun hd' => hd hd'.2), pin_key]

theorem Sound.step {led led' : Led} {a : Act} (h : Sound led)
    (hs : ledMachine.step led a = some led') : Sound led' := by
  cases a with
  | blink gpioNum timeOnMs timeOffMs fade loop tick =>
      obtain rfl := Option.some.inj hs
      exact h.blink gpioNum timeOnMs timeOffMs fade loop tick
  | stop gpioNum =>
      obtain ⟨r, hr, rfl⟩ := Option.map_eq_some_iff.1 hs
      exact h.stop hr
  | timer clock =>
      obtain rfl := Option.some.inj hs
      exact h.timer clock

/-- `periph_led_blink` fails when nothing is found. -/
theorem blink_fails_iff {led : Led} (h : Sound led) (gpioNum : Nat)
    (timeOnMs timeOffMs : Int) (fade : Bool) (loop tick : Int) :
    (periphLedBlink led gpioNum timeOnMs timeOffMs fade loop tick).1 =
      ESP_FAIL ↔ Full led gpioNum := by
  rw [← h.full_iff, periphLedBlink]
  cases (findLedChannel led gpioNum).1 with
  | none => exact iff_of_true rfl rfl
  | some i =>
      have hok : ESP_OK ≠ ESP_FAIL := by decide
      exact iff_of_false hok (Option.some_ne_none i)

/-- A step goes as it should exactly if no pin is stopped for which nothing is
found. -/
theorem serves_iff {led : Led} (h : Sound led) (a : Act) :
    Serves led a ↔ StopOk led a := by
  have hkeep : Allocated led ∧
      ∀ led', step led a = some led' → Allocated led' :=
    ⟨h.allocated, fun _ hs => (h.step hs).allocated⟩
  cases a with
  | blink gpioNum timeOnMs timeOffMs fade loop tick =>
      exact iff_of_true ⟨hkeep.1, hkeep.2,
        blink_fails_iff h gpioNum timeOnMs timeOffMs fade loop tick⟩ trivial
  | timer clock => exact iff_of_true ⟨hkeep.1, hkeep.2, trivial⟩ trivial
  | stop gpioNum =>
      constructor
      · rintro ⟨-, -, r, hr, -⟩ hfull
        rw [periphLedStop, (h.full_iff gpioNum).2 hfull] at hr
        contradiction
      · intro hnot
        refine ⟨hkeep.1, hkeep.2, ?_⟩
        rcases stop_cases h gpioNum with ⟨hfull, -⟩ | ⟨-, hstop⟩ |
          ⟨i, c, -, -, -, hstop⟩
        · exact absurd hfull hnot
        · exact ⟨_, hstop, stop_stopped h hstop⟩
        · exact ⟨_, hstop, stop_stopped h hstop⟩

/-! ## The result -/

/-- **Channels are allocated and given up as they should be** in every run of
calls and timer runs, exactly if no pin without a channel is stopped while all
channels are active. -/
theorem led_channels_iff (dutyResolution : Nat) (as : List Act) :
    ledMachine.Meets Serves (start dutyResolution) as ↔
      ledMachine.Meets StopOk (start dutyResolution) as :=
  Machine.meets_congr (fun _ a h => serves_iff h a)
    (fun _ _ _ h _ hs => h.step hs) (Sound.start dutyResolution) as

/-- A ninth pin is stopped while eight are blinking. -/
theorem led_stop_full : ¬ledMachine.Meets Serves (start 13)
    ((List.range 8).map (fun pin => .blink pin 500 500 false (-1) 0) ++
      [.stop 8]) := by
  have hrun : ((ledMachine.run (start 13) ((List.range 8).map fun pin =>
      .blink pin 500 500 false (-1) 0)).map fun led =>
        (periphLedStop led 8).isNone) = some true := by
    decide +kernel
  obtain ⟨led, hled, hnone⟩ := Option.map_eq_some_iff.1 hrun
  rw [Machine.meets_concat hled]
  rintro ⟨-, -, -, r, hr, -⟩
  rw [hr] at hnone
  contradiction

end EspAdf.Ports.PeriphLed
