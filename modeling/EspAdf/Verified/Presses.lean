import EspAdf.Verified.Bank
import EspAdf.Verified.Protocol

/-!
# Presses and long presses

Something that can be held down is looked at from time to time.  The time at
which it went down is kept, and zero stands for "not held"; a flag says that it
was reported to be held for long.  A look finds at most one of four events, by
the order of its tests.

With a clock that is positive and never runs back, the events of a whole run
are words of `presses`, one after the other: a press ends with the release that
fits it.  `look_midway` is the step, `alone_prefixed` the run of one item whose
step is a look, and `rounds_prefixed` the run of a bank of them.

The module names nothing of the modelled repository.
-/

namespace EspAdf.Verified.Presses

open EspAdf.Verified.Bank
open scoped Computability

variable {Event : Type*}

/-- The four events. -/
structure Names (Event : Type*) where
  down : Event
  up : Event
  long : Event
  longUp : Event

/-- One press. -/
def presses (n : Names Event) : Language Event :=
  {w | w = [n.down, n.long, n.longUp] ∨ w = [n.down, n.up] ∨
    w = [n.down, n.longUp]}

/-- What is kept of something that can be held down. -/
structure Press where
  /-- When it went down, or zero. -/
  tick : Int
  long : Bool
  deriving DecidableEq, Repr

namespace Press

/-- A look at the time `now`; a press is long if it takes more than `limit`. -/
def look (n : Names Event) (limit now : Int) (held : Bool) (p : Press) :
    Press × Option Event :=
  if p.tick = 0 ∧ held = true then (⟨now, false⟩, some n.down)
  else if held = false ∧ p.tick ≠ 0 ∧ now - p.tick > limit then
    (⟨0, false⟩, some n.longUp)
  else if held = false ∧ p.tick ≠ 0 then (⟨0, false⟩, some n.up)
  else if p.long = false ∧ held = true ∧ now - p.tick > limit then
    ({ p with long := true }, some n.long)
  else (p, none)

/-- The events of a press that is not over. -/
def part (n : Names Event) (p : Press) : List Event :=
  if p.tick = 0 then [] else if p.long then [n.down, n.long] else [n.down]

/-- A press that was reported long has been so by `clock`. -/
def Timed (limit clock : Int) (p : Press) : Prop :=
  0 ≤ p.tick ∧ (p.tick ≠ 0 → p.long = true → limit < clock - p.tick)

end Press

section Step

variable {n : Names Event} {limit clock now : Int} {p : Press}

theorem part_prefixed (n : Names Event) (p : Press) :
    p.part n ∈ Prefixed (presses n) := by
  refine ⟨[n.down, n.long, n.longUp], .inl rfl, ?_⟩
  unfold Press.part
  split
  · exact List.nil_prefix
  · split
    · exact ⟨[n.longUp], rfl⟩
    · exact ⟨[n.long, n.longUp], rfl⟩

theorem part_over (h : p.tick = 0) : p.part n = [] := if_pos h

theorem part_short (h : p.tick ≠ 0) (hlong : p.long = false) :
    p.part n = [n.down] := by
  rw [Press.part, if_neg h, hlong, if_neg (by decide)]

theorem part_long (h : p.tick ≠ 0) (hlong : p.long = true) :
    p.part n = [n.down, n.long] := by
  rw [Press.part, if_neg h, if_pos hlong]

/-- One look. -/
theorem look_midway (h : p.Timed limit clock) (hle : clock ≤ now)
    (hpos : 0 < now) (held : Bool) {w : List Event}
    (hw : Midway (presses n) w (p.part n)) :
    (p.look n limit now held).1.Timed limit now ∧
      Midway (presses n) (w ++ (p.look n limit now held).2.toList)
        ((p.look n limit now held).1.part n) := by
  obtain ⟨hnonneg, hlimit⟩ := h
  have hover : ∀ long, Press.Timed limit now ⟨0, long⟩ :=
    fun long => ⟨Int.le_refl 0, fun hne => (hne rfl).elim⟩
  unfold Press.look
  split
  · -- It goes down.
    rename_i hdown
    rw [part_over hdown.1] at hw
    refine ⟨⟨Int.le_of_lt hpos, fun _ => nofun⟩, ?_⟩
    rw [part_short (Int.ne_of_gt hpos) rfl]
    exact hw.event n.down
  · split
    · rename_i hup
      refine ⟨hover false, ?_⟩
      rw [part_over rfl]
      cases hlong : p.long with
      | false =>
          rw [part_short hup.2.1 hlong] at hw
          exact (hw.event n.longUp).done (.inr (.inr rfl))
      | true =>
          rw [part_long hup.2.1 hlong] at hw
          exact (hw.event n.longUp).done (.inl rfl)
    · split
      · rename_i hshort hup
        refine ⟨hover false, ?_⟩
        rw [part_over rfl]
        -- It was not reported long: then it would be long now.
        have hlong : p.long = false := by
          by_contra hlong
          have hlt := hlimit hup.2 (Bool.not_eq_false _ ▸ hlong)
          exact hshort ⟨hup.1, hup.2, by omega⟩
        rw [part_short hup.2 hlong] at hw
        exact (hw.event n.up).done (.inr (.inl rfl))
      · split
        · rename_i hfirst _ _ hlong
          have hne : p.tick ≠ 0 := fun hzero => hfirst ⟨hzero, hlong.2.1⟩
          refine ⟨⟨hnonneg, fun _ _ => hlong.2.2⟩, ?_⟩
          rw [part_short hne hlong.1] at hw
          rw [part_long (p := { p with long := true }) hne rfl]
          exact hw.event n.long
        · refine ⟨⟨hnonneg, fun hne hlong => ?_⟩, ?_⟩
          · have hlt := hlimit hne hlong
            show limit < now - p.tick
            omega
          · rw [Option.toList_none, List.append_nil]
            exact hw

end Step

/-! ## Runs -/

/-- A kind of items whose step is a look, or leaves the press alone. -/
structure Looks {Item In : Type*} (K : Kind Item In Event) (n : Names Event)
    (limit : Int) (press : Item → Press) (now : In → Int) : Prop where
  step : ∀ item a, (∃ held, (press item).look n limit (now a) held =
      (press (K.step item a).1, (K.step item a).2)) ∨
    press (K.step item a).1 = press item ∧ (K.step item a).2 = none

section Runs

variable {Item In : Type*} {K : Kind Item In Event} {n : Names Event}
  {limit : Int} {press : Item → Press} {now : In → Int}

theorem Looks.midway (hK : Looks K n limit press now) {item : Item} {a : In}
    {clock : Int} (h : (press item).Timed limit clock) (hle : clock ≤ now a)
    (hpos : 0 < now a) {w : List Event}
    (hw : Midway (presses n) w ((press item).part n)) :
    (press (K.step item a).1).Timed limit (now a) ∧
      Midway (presses n) (w ++ (K.step item a).2.toList)
        ((press (K.step item a).1).part n) := by
  rcases hK.step item a with ⟨held, hlook⟩ | ⟨hsame, hnone⟩
  · have hmid := look_midway h hle hpos held hw
    rw [hlook] at hmid
    exact hmid
  · rw [hsame, hnone, Option.toList_none, List.append_nil]
    refine ⟨⟨h.1, fun hne hlong => ?_⟩, hw⟩
    have hlt := h.2 hne hlong
    omega

/-- The run of an item, from any moment on. -/
theorem Looks.run (hK : Looks K n limit press now) (inputs : List In) :
    ∀ {item : Item} {clock : Int} {w : List Event},
    (press item).Timed limit clock →
    (clock :: inputs.map now).Pairwise (· ≤ ·) →
    (∀ t ∈ inputs.map now, 0 < t) →
    Midway (presses n) w ((press item).part n) →
    w ++ K.alone item inputs ∈ Prefixed ((presses n)∗) := by
  induction inputs with
  | nil =>
      intro item clock w _ _ _ hw
      rw [Kind.alone, List.append_nil]
      exact hw.prefixed (part_prefixed n _)
  | cons a inputs ih =>
      intro item clock w htimed hsorted hpos hw
      rw [List.map_cons, List.pairwise_cons] at hsorted
      rw [List.map_cons, List.forall_mem_cons] at hpos
      obtain ⟨htimed', hw'⟩ := hK.midway htimed
        (hsorted.1 _ (List.mem_cons_self ..)) hpos.1 hw
      rw [Kind.alone, ← List.append_assoc]
      exact ih htimed' hsorted.2 hpos.2 hw'

/-- **The events of an item** are presses, one after the other. -/
theorem alone_prefixed (hK : Looks K n limit press now) {item : Item}
    (h : (press item).tick = 0) {inputs : List In}
    (hsorted : (inputs.map now).Pairwise (· ≤ ·))
    (hpos : ∀ t ∈ inputs.map now, 0 < t) :
    K.alone item inputs ∈ Prefixed ((presses n)∗) := by
  have hzero : (0 :: inputs.map now).Pairwise (· ≤ ·) :=
    List.pairwise_cons.2 ⟨fun t ht => Int.le_of_lt (hpos t ht), hsorted⟩
  have hnil : Midway (presses n) [] ((press item).part n) := by
    rw [part_over h]
    exact .nil
  exact hK.run inputs ⟨Int.le_of_eq h.symm, fun hne => (hne h).elim⟩ hzero hpos
    hnil

/-- **The events of a bank**, for each key. -/
theorem rounds_prefixed (hK : Looks K n limit press now) {items : List Item}
    (hnodup : (items.map K.key).Nodup)
    (h : ∀ item ∈ items, (press item).tick = 0) {inputs : List (Nat → In)}
    (hclock : ∀ k ∈ items.map K.key,
      (inputs.map fun input => now (input k)).Pairwise (· ≤ ·) ∧
        ∀ t ∈ inputs.map fun input => now (input k), 0 < t) (k : Nat) :
    (K.rounds items inputs).flatMap (heardOf k) ∈
      Prefixed ((presses n)∗) := by
  by_cases hk : k ∈ items.map K.key
  · obtain ⟨hsorted, hpos⟩ := hclock k hk
    obtain ⟨item, hitem, rfl⟩ := List.mem_map.1 hk
    rw [of_rounds inputs hnodup hitem]
    exact alone_prefixed hK (h item hitem) (by rwa [List.map_map])
      (by rwa [List.map_map])
  · rw [of_rounds_none inputs hk]
    exact ⟨[], Language.nil_mem_kstar _, List.nil_prefix⟩

end Runs

end EspAdf.Verified.Presses
