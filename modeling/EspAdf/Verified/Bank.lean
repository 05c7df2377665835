import Mathlib

/-!
# Banks of items

A program that serves many items of one kind goes through all of them in each
round, and lets each one make its step with the input of its own key.  What an
item reports is heard with its key.  So one item of a bank does what it would
do alone:

* `of_rounds` — what is heard of a key in all rounds is what its item reports
  by itself.
* `of_rounds_congr` — so it does not depend on the input of the other keys.
* `Board.read_collect` — what was heard can be read from the marks that a round
  leaves.

The module names nothing of the modelled repository.
-/

namespace EspAdf.Verified.Bank

variable {Item In Event : Type*}

/-- A key for each item, and its step. -/
structure Kind (Item In Event : Type*) where
  key : Item → Nat
  step : Item → In → Item × Option Event
  key_step : ∀ item a, key (step item a).1 = key item

namespace Kind

variable (K : Kind Item In Event)

/-- The items after a round. -/
def round (items : List Item) (input : Nat → In) : List Item :=
  items.map fun item => (K.step item (input (K.key item))).1

/-- What is heard in a round. -/
def heard (items : List Item) (input : Nat → In) : List (Nat × Event) :=
  items.filterMap fun item =>
    (K.step item (input (K.key item))).2.map fun e => (K.key item, e)

/-- What is heard in one round after the other. -/
def rounds : List Item → List (Nat → In) → List (List (Nat × Event))
  | _, [] => []
  | items, input :: inputs =>
      K.heard items input :: rounds (K.round items input) inputs

/-- What an item reports by itself. -/
def alone : Item → List In → List Event
  | _, [] => []
  | item, a :: as => (K.step item a).2.toList ++ alone (K.step item a).1 as

end Kind

/-- What is heard of one key. -/
def heardOf (k : Nat) (heard : List (Nat × Event)) : List Event :=
  heard.filterMap fun e => if e.1 = k then some e.2 else none

section Rounds

variable {K : Kind Item In Event} {items : List Item} {k : Nat}

@[simp] theorem keys_round (items : List Item) (input : Nat → In) :
    (K.round items input).map K.key = items.map K.key := by
  simp [Kind.round, K.key_step]

theorem mem_heard {input : Nat → In} {e : Event} :
    (k, e) ∈ K.heard items input ↔ ∃ item ∈ items,
      K.key item = k ∧ (K.step item (input k)).2 = some e := by
  simp only [Kind.heard, List.mem_filterMap, Option.map_eq_some_iff,
    Prod.mk.injEq]
  constructor
  · rintro ⟨item, hitem, e', he, rfl, rfl⟩
    exact ⟨item, hitem, rfl, he⟩
  · rintro ⟨item, hitem, rfl, he⟩
    exact ⟨item, hitem, e, he, rfl, rfl⟩

theorem heardOf_append (l l' : List (Nat × Event)) :
    heardOf k (l ++ l') = heardOf k l ++ heardOf k l' :=
  List.filterMap_append

theorem mem_heardOf {l : List (Nat × Event)} {e : Event} :
    e ∈ heardOf k l ↔ (k, e) ∈ l := by
  simp only [heardOf, List.mem_filterMap]
  constructor
  · rintro ⟨e', he', heq⟩
    split at heq
    · rename_i hk
      obtain rfl := Option.some.inj heq
      exact hk ▸ he'
    · contradiction
  · exact fun he => ⟨_, he, if_pos rfl⟩

/-- Nothing is heard of a key without an item. -/
theorem of_heard_none (h : k ∉ items.map K.key) (input : Nat → In) :
    heardOf k (K.heard items input) = [] := by
  refine List.filterMap_eq_nil_iff.2 fun e he => if_neg fun hk => h ?_
  obtain ⟨item, hitem, hkey, -⟩ := mem_heard.1 he
  exact List.mem_map.2 ⟨item, hitem, hkey.trans hk⟩

theorem heard_cons (item : Item) (input : Nat → In) :
    K.heard (item :: items) input =
      (K.step item (input (K.key item))).2.toList.map
        (fun e => (K.key item, e)) ++ K.heard items input := by
  rw [Kind.heard, List.filterMap_cons]
  cases (K.step item (input (K.key item))).2 <;> rfl

/-- What one item reports is heard of its own key. -/
theorem heardOf_pairs (j : Nat) (es : List Event) :
    heardOf k (es.map fun e => (j, e)) = if j = k then es else [] := by
  rw [heardOf, List.filterMap_map]
  split
  · rename_i hj
    simp [hj]
  · rename_i hj
    simp [hj]

/-- One round of an item. -/
theorem of_heard (hnodup : (items.map K.key).Nodup) {item : Item}
    (h : item ∈ items) (input : Nat → In) :
    heardOf (K.key item) (K.heard items input) =
      (K.step item (input (K.key item))).2.toList := by
  induction items with
  | nil => contradiction
  | cons first rest ih =>
      rw [List.map_cons, List.nodup_cons] at hnodup
      rw [heard_cons, heardOf_append, heardOf_pairs]
      rcases List.mem_cons.1 h with rfl | hrest
      · rw [if_pos rfl, of_heard_none hnodup.1, List.append_nil]
      · have hne : K.key first ≠ K.key item := fun heq =>
          hnodup.1 (heq ▸ List.mem_map_of_mem hrest)
        rw [if_neg hne, List.nil_append, ih hnodup.2 hrest]

/-- At most one event is heard of a key in a round. -/
theorem exists_of_heard (hnodup : (items.map K.key).Nodup) (k : Nat)
    (input : Nat → In) :
    ∃ o : Option Event, heardOf k (K.heard items input) = o.toList := by
  by_cases hk : k ∈ items.map K.key
  · obtain ⟨item, hitem, rfl⟩ := List.mem_map.1 hk
    exact ⟨_, of_heard hnodup hitem input⟩
  · exact ⟨none, of_heard_none hk input⟩

/-- What is heard in the rounds is heard in one of them. -/
theorem mem_rounds (inputs : List (Nat → In)) : ∀ {items : List Item}
    {l : List (Nat × Event)}, l ∈ K.rounds items inputs →
    ∃ items' input, items'.map K.key = items.map K.key ∧
      l = K.heard items' input := by
  induction inputs with
  | nil => exact fun h => (List.not_mem_nil h).elim
  | cons input inputs ih =>
      intro items l h
      rcases List.mem_cons.1 h with rfl | h
      · exact ⟨items, input, rfl, rfl⟩
      · obtain ⟨items', input', hkeys, hl⟩ := ih h
        exact ⟨items', input', hkeys.trans (keys_round ..), hl⟩

/-- **An item of a bank does what it would do alone.** -/
theorem of_rounds (inputs : List (Nat → In)) : ∀ {items : List Item},
    (items.map K.key).Nodup → ∀ {item : Item}, item ∈ items →
    (K.rounds items inputs).flatMap (heardOf (K.key item)) =
      K.alone item (inputs.map fun input => input (K.key item)) := by
  induction inputs with
  | nil => exact fun _ _ _ => rfl
  | cons input inputs ih =>
      intro items hnodup item h
      have hnodup' : ((K.round items input).map K.key).Nodup := by
        rwa [keys_round]
      have hmem : (K.step item (input (K.key item))).1 ∈ K.round items input :=
        List.mem_map.2 ⟨item, h, rfl⟩
      have hrest := ih hnodup' hmem
      rw [K.key_step] at hrest
      rw [Kind.rounds, List.flatMap_cons, of_heard hnodup h, hrest]
      rfl

/-- A key without an item is never heard of. -/
theorem of_rounds_none (inputs : List (Nat → In)) : ∀ {items : List Item},
    k ∉ items.map K.key →
    (K.rounds items inputs).flatMap (heardOf k) = [] := by
  induction inputs with
  | nil => exact fun _ => rfl
  | cons input inputs ih =>
      intro items h
      rw [Kind.rounds, List.flatMap_cons, of_heard_none h, ih]
      · rfl
      · rwa [keys_round]

/-- The other items do not matter. -/
theorem of_rounds_congr {inputs inputs' : List (Nat → In)}
    (hnodup : (items.map K.key).Nodup)
    (h : inputs.map (fun input => input k) =
      inputs'.map fun input => input k) :
    (K.rounds items inputs).flatMap (heardOf k) =
      (K.rounds items inputs').flatMap (heardOf k) := by
  by_cases hk : k ∈ items.map K.key
  · obtain ⟨item, hitem, rfl⟩ := List.mem_map.1 hk
    rw [of_rounds inputs hnodup hitem, of_rounds inputs' hnodup hitem, h]
  · rw [of_rounds_none inputs hk, of_rounds_none inputs' hk]

end Rounds

/-! ## Boards -/

/-- Where the events of a round are marked, each with its key, if the key
fits. -/
structure Board (Result Event : Type*) where
  empty : Result
  add : Result → Event → Nat → Result
  marked : Result → Event → Nat → Bool
  fits : Nat → Prop
  marked_empty : ∀ e k, marked empty e k = false
  marked_add : ∀ r e j e' k, marked (add r e j) e' k = true ↔
    marked r e' k = true ∨ fits k ∧ k = j ∧ e' = e

namespace Board

variable {Result : Type*} (B : Board Result Event)

/-- All that was heard is marked. -/
def collect (heard : List (Nat × Event)) : Result :=
  heard.foldl (fun r e => B.add r e.2 e.1) B.empty

/-- The events that are marked for a key. -/
def read (all : List Event) (r : Result) (k : Nat) : List Event :=
  all.filter fun e => B.marked r e k

theorem marked_foldl (l : List (Nat × Event)) (e : Event) (k : Nat) :
    ∀ r, B.marked (l.foldl (fun r e => B.add r e.2 e.1) r) e k = true ↔
      B.marked r e k = true ∨ B.fits k ∧ (k, e) ∈ l := by
  induction l with
  | nil => simp
  | cons first l ih =>
      intro r
      have hpair : (k, e) = first ↔ k = first.1 ∧ e = first.2 := Prod.ext_iff
      rw [List.foldl_cons, ih, B.marked_add, List.mem_cons, hpair]
      tauto

/-- A mark is an event that was heard. -/
theorem marked_collect {l : List (Nat × Event)} {e : Event} {k : Nat} :
    B.marked (B.collect l) e k = true ↔ B.fits k ∧ (k, e) ∈ l := by
  rw [collect, marked_foldl, B.marked_empty]
  simp

/-- The marks of a key say what was heard of it, if that is at most one
event. -/
theorem read_collect {all : List Event} (hnodup : all.Nodup)
    (hall : ∀ e, e ∈ all) {l : List (Nat × Event)} {k : Nat}
    {o : Option Event} (hk : ∀ e, (k, e) ∈ l → B.fits k)
    (h : heardOf k l = o.toList) :
    B.read all (B.collect l) k = heardOf k l := by
  have hmarked : ∀ e, B.marked (B.collect l) e k = true ↔ o = some e := by
    intro e
    rw [marked_collect, ← Option.mem_toList, ← h, mem_heardOf]
    exact and_iff_right_of_imp (hk e)
  rw [h, read]
  cases o with
  | none =>
      refine List.filter_eq_nil_iff.2 fun e _ => ?_
      rw [hmarked]
      nofun
  | some e₀ =>
      classical
      have hfilter : all.filter (fun e => B.marked (B.collect l) e k) =
          all.filter (fun e => e = e₀) := by
        refine List.filter_congr fun e _ => ?_
        rw [Bool.eq_iff_iff, hmarked, Option.some.injEq, decide_eq_true_iff,
          eq_comm]
      rw [hfilter, List.filter_eq, List.count_eq_one_of_mem hnodup (hall e₀)]
      rfl

end Board

/-- What is read for one key is part of all that is read. -/
theorem sublist_readings {α β : Type*} {f : α → β} {g : α → List β}
    (h : ∀ a, f a ∈ g a) (l : List α) : (l.map f).Sublist (l.flatMap g) := by
  rw [List.map_eq_flatMap]
  exact List.Sublist.flatMap_right l fun a _ => List.singleton_sublist.2 (h a)

end EspAdf.Verified.Bank
