import EspAdf.Ports.TouchRead

/-!
# `touch.c`: the baseline of a touch pad

The first value that is read is taken for that of an untouched pad.  Later
ones are averaged with it from time to time while the pad is not tapped, and
the threshold is a percentage of it.  The average adds two values in a
`uint16_t` before it halves the sum.

`touch_baseline` proves that the baseline stays between the values read, and
the threshold the percentage of it, as long as no such sum exceeds 16 bits.
-/

namespace EspAdf.Ports.TouchBaseline

open EspAdf.Verified
open EspAdf.Ports.PeriphTouch
open EspAdf.Ports.TouchRead

/-! ## The readings of a pad -/

/-- A pad, and the values that were read from it. -/
structure Pad where
  item : TouchItem
  taken : List Nat
  deriving DecidableEq

/-- The value that a call reads, if it is time for it. -/
def reading (item : TouchItem) (look : Look) : Option Nat :=
  if look.tick - item.lastReadTick < TOUCHPAD_READ_INTERVAL_MS then none
  else look.read.map UInt16.toNat

def pad (touch : Touch) : Machine Pad Look where
  step s look := some
    ⟨(getState touch s.item look).1, s.taken ++ (reading s.item look).toList⟩

/-- A pad as `esp_touch_init` makes it. -/
def start (touchNum : Nat) (lastReadTick : Int) : Pad :=
  ⟨newTouch touchNum lastReadTick, []⟩

/-! ## The property and the condition -/

/-- Between the least and the greatest of some values. -/
def Within (taken : List Nat) (value : Nat) : Prop :=
  (∃ low ∈ taken, low ≤ value) ∧ ∃ high ∈ taken, value ≤ high

/-- The baseline is within the readings, and the threshold is its
percentage. -/
structure Baseline (touch : Touch) (s : Pad) : Prop where
  within : s.taken ≠ [] → Within s.taken s.item.untouchValue
  threshold : (s.item.thresholdValue : Int) =
    s.item.untouchValue * touch.tapThresholdPercent / 100

/-- The item when `touch_get_state` comes to the update of the threshold. -/
def beforeUpdate (touch : Touch) (item : TouchItem) (tick : Int) (value : Nat) :
    TouchItem :=
  updateTapped (calibrate touch
    { item with lastReadTick := tick, lastReadValue := value })

/-- If the threshold is updated, the sum of the baseline and the value fits in
16 bits. -/
def NoWrap (touch : Touch) (s : Pad) (look : Look) : Prop :=
  ∀ value ∈ reading s.item look,
    let item := beforeUpdate touch s.item look.tick value
    look.tick - item.updateThresholdTick > UPDATE_THRESHOLD_PERIOD_MS ∧
      item.tapped = false →
    item.untouchValue + value < 65536

instance (touch : Touch) (s : Pad) (look : Look) :
    Decidable (NoWrap touch s look) :=
  inferInstanceAs (Decidable (∀ _ ∈ reading s.item look, _))

/-! ## A value between others -/

theorem Within.mono {taken : List Nat} {value : Nat} (h : Within taken value)
    (more : List Nat) : Within (taken ++ more) value := by
  obtain ⟨⟨low, hlow, hle⟩, high, hhigh, hge⟩ := h
  exact ⟨⟨low, List.mem_append_left more hlow, hle⟩,
    high, List.mem_append_left more hhigh, hge⟩

theorem within_last (taken : List Nat) (value : Nat) :
    Within (taken ++ [value]) value :=
  have hmem : value ∈ taken ++ [value] := by simp
  ⟨⟨value, hmem, Nat.le_refl _⟩, value, hmem, Nat.le_refl _⟩

/-- The mean of two values is between them. -/
theorem Within.mean {taken : List Nat} {a b : Nat} (ha : Within taken a)
    (hb : Within taken b) : Within taken ((a + b) / 2) := by
  obtain ⟨⟨lowA, hlowA, hleA⟩, highA, hhighA, hgeA⟩ := ha
  obtain ⟨⟨lowB, hlowB, hleB⟩, highB, hhighB, hgeB⟩ := hb
  rcases Nat.le_total a b with hab | hab
  · exact ⟨⟨lowA, hlowA, by omega⟩, highB, hhighB, by omega⟩
  · exact ⟨⟨lowB, hlowB, by omega⟩, highA, hhighA, by omega⟩

/-- A percentage of a 16-bit value fits in 16 bits. -/
theorem threshold_eq {touch : Touch} (hlow : 1 ≤ touch.tapThresholdPercent)
    (hhigh : touch.tapThresholdPercent ≤ 100) {value : Nat}
    (hvalue : value < 65536) :
    (touch.threshold value : Int) =
      value * touch.tapThresholdPercent / 100 := by
  have hnonneg : 0 ≤ (value : Int) * touch.tapThresholdPercent :=
    Int.mul_nonneg (Int.natCast_nonneg _) (by omega)
  have hle : (value : Int) * touch.tapThresholdPercent ≤ value * 100 :=
    Int.mul_le_mul_of_nonneg_left hhigh (Int.natCast_nonneg _)
  rw [Touch.threshold, Int.tdiv_eq_ediv_of_nonneg hnonneg]
  omega

/-! ## The invariant -/

/-- The baseline and the threshold of an item, for the values read so far. -/
structure Level (touch : Touch) (taken : List Nat) (item : TouchItem) :
    Prop where
  within : Within taken item.untouchValue
  threshold : (item.thresholdValue : Int) =
    item.untouchValue * touch.tapThresholdPercent / 100

/-- Nothing was read yet, or the baseline is within what was read. -/
structure Kept (touch : Touch) (s : Pad) : Prop where
  small : ∀ value ∈ s.taken, value < 65536
  level : s.taken = [] ∧ s.item.untouchValue = 0 ∧ s.item.thresholdValue = 0 ∨
    Level touch s.taken s.item

section Steps

variable {touch : Touch} {taken : List Nat} {item : TouchItem}

theorem Within.lt {value : Nat} (h : Within taken value)
    (hsmall : ∀ value ∈ taken, value < 65536) : value < 65536 := by
  obtain ⟨-, high, hhigh, hle⟩ := h
  exact Nat.lt_of_le_of_lt hle (hsmall high hhigh)

/-- Calibration and the test of the threshold. -/
theorem level_beforeUpdate (hlow : 1 ≤ touch.tapThresholdPercent)
    (hhigh : touch.tapThresholdPercent ≤ 100) {tick : Int} {value : Nat}
    (hvalue : value < 65536)
    (h : taken = [] ∧ item.untouchValue = 0 ∧ item.thresholdValue = 0 ∨
      Level touch taken item) :
    Level touch (taken ++ [value]) (beforeUpdate touch item tick value) := by
  have hcalibrate : Level touch (taken ++ [value]) (calibrate touch
      { item with lastReadTick := tick, lastReadValue := value }) := by
    rw [calibrate]
    split
    · exact ⟨within_last taken value, threshold_eq hlow hhigh hvalue⟩
    · rename_i hzero
      have hlevel := h.resolve_left fun hnone => hzero hnone.2.1
      exact ⟨hlevel.within.mono [value], hlevel.threshold⟩
  rw [beforeUpdate, updateTapped]
  split
  · exact ⟨hcalibrate.within, hcalibrate.threshold⟩
  · split
    · exact ⟨hcalibrate.within, hcalibrate.threshold⟩
    · exact hcalibrate

/-- The update of the threshold, if the sum fits. -/
theorem level_updateThreshold (hlow : 1 ≤ touch.tapThresholdPercent)
    (hhigh : touch.tapThresholdPercent ≤ 100) {tick : Int}
    (hread : item.lastReadValue ∈ taken)
    (hwrap : tick - item.updateThresholdTick > UPDATE_THRESHOLD_PERIOD_MS ∧
      item.tapped = false → item.untouchValue + item.lastReadValue < 65536)
    (h : Level touch taken item) :
    Level touch taken (updateThreshold touch tick item) := by
  rw [updateThreshold]
  split
  · rename_i hupdate
    have hsum := hwrap hupdate
    have hlast : Within taken item.lastReadValue :=
      ⟨⟨_, hread, Nat.le_refl _⟩, _, hread, Nat.le_refl _⟩
    simp only [Nat.mod_eq_of_lt hsum]
    exact ⟨h.within.mean hlast, threshold_eq hlow hhigh (by omega)⟩
  · exact h

/-- The events leave the levels alone. -/
theorem level_classify {now : Int} (h : Level touch taken item) :
    Level touch taken (classify touch now item).1 := by
  rw [classify]
  split
  · exact ⟨h.within, h.threshold⟩
  · split
    · exact ⟨h.within, h.threshold⟩
    · split
      · exact ⟨h.within, h.threshold⟩
      · split
        · exact ⟨h.within, h.threshold⟩
        · exact h

theorem lastReadValue_beforeUpdate (touch : Touch) (item : TouchItem)
    (tick : Int) (value : Nat) :
    (beforeUpdate touch item tick value).lastReadValue = value := by
  rw [beforeUpdate, updateTapped, calibrate]
  split_ifs <;> rfl

/-- Without a value, `touch_get_state` leaves the levels alone. -/
theorem getState_none {look : Look} (h : reading item look = none) :
    (getState touch item look).1.untouchValue = item.untouchValue ∧
      (getState touch item look).1.thresholdValue = item.thresholdValue := by
  rw [getState, touchGetState]
  split
  · exact ⟨rfl, rfl⟩
  · rename_i hwait
    rw [reading, if_neg hwait] at h
    rw [h]
    exact ⟨rfl, rfl⟩

theorem getState_some {look : Look} {value : Nat}
    (h : reading item look = some value) :
    (getState touch item look).1 = (classify touch look.now
      (updateThreshold touch look.tick
        (beforeUpdate touch item look.tick value))).1 := by
  rw [reading] at h
  split at h
  · contradiction
  · rename_i hwait
    rw [getState, touchGetState, if_neg hwait, h]
    rfl

theorem reading_lt {look : Look} {value : Nat}
    (h : reading item look = some value) : value < 65536 := by
  rw [reading] at h
  split at h
  · contradiction
  · obtain ⟨v, -, rfl⟩ := Option.map_eq_some_iff.1 h
    exact v.toNat_lt

/-- One call of `touch_get_state`. -/
theorem Kept.step (hlow : 1 ≤ touch.tapThresholdPercent)
    (hhigh : touch.tapThresholdPercent ≤ 100) {s t : Pad} (h : Kept touch s)
    {look : Look} (hwrap : NoWrap touch s look)
    (hstep : (pad touch).step s look = some t) : Kept touch t := by
  obtain rfl := Option.some.inj hstep
  cases hread : reading s.item look with
  | none =>
      obtain ⟨huntouch, hthreshold⟩ := getState_none hread
      rw [Option.toList_none, List.append_nil]
      refine ⟨h.small, h.level.imp (fun hnone => ?_) fun hlevel => ?_⟩
      · rw [huntouch, hthreshold]
        exact hnone
      · exact ⟨huntouch ▸ hlevel.within,
          by rw [huntouch, hthreshold]; exact hlevel.threshold⟩
  | some value =>
      have hvalue := reading_lt hread
      have hlast := lastReadValue_beforeUpdate touch s.item look.tick value
      have hbefore : Level touch (s.taken ++ [value])
          (beforeUpdate touch s.item look.tick value) :=
        level_beforeUpdate hlow hhigh hvalue h.level
      have hmem : value ∈ s.taken ++ [value] := by simp
      rw [Option.toList_some]
      refine ⟨fun v hv => ?_, .inr ?_⟩
      · rcases List.mem_append.1 hv with hv | hv
        · exact h.small v hv
        · exact List.mem_singleton.1 hv ▸ hvalue
      · rw [getState_some hread]
        refine level_classify (level_updateThreshold hlow hhigh ?_
          (fun hupdate => ?_) hbefore)
        · rwa [hlast]
        · rw [hlast]
          exact hwrap value hread hupdate

end Steps

/-! ## The result -/

theorem kept_start (touch : Touch) (touchNum : Nat) (lastReadTick : Int) :
    Kept touch (start touchNum lastReadTick) :=
  ⟨nofun, .inl ⟨rfl, rfl, rfl⟩⟩

theorem Kept.baseline {touch : Touch} {s : Pad} (h : Kept touch s) :
    Baseline touch s := by
  rcases h.level with ⟨hnil, huntouch, hthreshold⟩ | hlevel
  · refine ⟨fun hne => (hne hnil).elim, ?_⟩
    rw [huntouch, hthreshold]
    simp
  · exact ⟨fun _ => hlevel.within, hlevel.threshold⟩

/-- **The baseline** stays within the readings, and the threshold is its
percentage, in every run in which no sum of baseline and reading exceeds 16
bits. -/
theorem touch_baseline {touch : Touch} (hlow : 1 ≤ touch.tapThresholdPercent)
    (hhigh : touch.tapThresholdPercent ≤ 100) {touchNum : Nat}
    {lastReadTick : Int} {s : Pad}
    (h : (pad touch).Reaches (NoWrap touch) (start touchNum lastReadTick) s) :
    Baseline touch s := by
  refine Kept.baseline (h.invariant (I := Kept touch)
    (kept_start touch touchNum lastReadTick) ?_)
  intro u a v hu hwrap hv
  exact hu.step hlow hhigh hwrap hv

/-- Three readings of a pad, the last of them of a tapped one. -/
theorem touch_baseline_three : ∃ s,
    (pad ⟨2000, 70⟩).run (start 0 0) [⟨1000, 1001, some 1000⟩,
      ⟨1300, 1301, some 900⟩, ⟨1600, 1601, some 100⟩] = some s ∧
    s.taken = [1000, 900, 100] ∧ s.item.untouchValue = 950 ∧
    Baseline ⟨2000, 70⟩ s := by
  have hrun : ((pad ⟨2000, 70⟩).runIf (NoWrap ⟨2000, 70⟩) (start 0 0)
      [⟨1000, 1001, some 1000⟩, ⟨1300, 1301, some 900⟩,
        ⟨1600, 1601, some 100⟩]).map (fun s => (s.taken, s.item.untouchValue)) =
      some ([1000, 900, 100], 950) := by
    decide +kernel
  obtain ⟨s, hs, heq⟩ := Option.map_eq_some_iff.1 hrun
  obtain ⟨htaken, huntouch⟩ := Prod.mk.inj heq
  exact ⟨s, (Machine.meets_of_runIf hs).1, htaken, huntouch,
    touch_baseline (by decide) (by decide) (Machine.reaches_of_runIf hs)⟩

/-- A reading of 40000 makes a baseline of 7232. -/
theorem touch_baseline_wraps : ∃ s,
    (pad ⟨2000, 70⟩).run (start 0 0) [⟨1000, 1001, some 40000⟩] = some s ∧
    s.taken = [40000] ∧ s.item.untouchValue = 7232 ∧
    ¬Baseline ⟨2000, 70⟩ s := by
  have hrun : ((pad ⟨2000, 70⟩).run (start 0 0)
      [⟨1000, 1001, some 40000⟩]).map (fun s =>
        (s.taken, s.item.untouchValue)) = some ([40000], 7232) := by
    decide +kernel
  obtain ⟨s, hs, heq⟩ := Option.map_eq_some_iff.1 hrun
  obtain ⟨htaken, huntouch⟩ := Prod.mk.inj heq
  refine ⟨s, hs, htaken, huntouch, fun h => ?_⟩
  have hwithin := h.within (by rw [htaken]; decide)
  rw [htaken, huntouch] at hwithin
  obtain ⟨⟨low, hlow, hle⟩, -⟩ := hwithin
  obtain rfl := List.mem_singleton.1 hlow
  omega

end EspAdf.Ports.TouchBaseline
