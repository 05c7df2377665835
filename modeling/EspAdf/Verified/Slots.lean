import Mathlib

/-!
# A table of slots, searched by key

A slot is free or holds a key.  `search` looks for the slot of a key and
settles for a free one: it answers the first slot that holds the key, the last
free slot if none does, and nothing when all slots hold other keys.

* `search_some`, `search_none_iff` — what the answer means.
* `Distinct.claim` — a key put where `search` says keeps the keys distinct.
* `Distinct.thin`, `Distinct.release` — so does freeing slots; the slot of a
  key is the only one that holds it.

The module names nothing of the modelled repository.
-/

namespace EspAdf.Verified.Slots

variable {κ : Type*}

/-- No two slots hold the same key. -/
def Distinct (slots : List (Option κ)) : Prop :=
  ∀ (i j : Nat) (key : κ),
    slots[i]? = some (some key) → slots[j]? = some (some key) → i = j

/-- Freeing slots keeps the keys distinct. -/
theorem Distinct.thin {slots thinned : List (Option κ)} (h : Distinct slots)
    (hthin : ∀ (j : Nat) key', thinned[j]? = some (some key') →
      slots[j]? = some (some key')) : Distinct thinned :=
  fun j k key' hj hk => h j k key' (hthin j key' hj) (hthin k key' hk)

variable [DecidableEq κ]

/-- The first slot that holds `key`, or else the last free one. -/
def search (key : κ) : List (Option κ) → Option Nat
  | [] => none
  | slot :: slots =>
      if slot = some key then some 0
      else match search key slots with
        | some i => some (i + 1)
        | none => if slot = none then some 0 else none

variable {key : κ} {slots : List (Option κ)} {i : Nat}

/-- There is no answer exactly if every slot holds another key. -/
theorem search_none_iff : search key slots = none ↔
    ∀ slot ∈ slots, slot ≠ none ∧ slot ≠ some key := by
  induction slots with
  | nil => exact iff_of_true rfl nofun
  | cons slot slots ih =>
      rw [search, List.forall_mem_cons, ← ih]
      by_cases hslot : slot = some key
      · rw [if_pos hslot]
        exact iff_of_false (Option.some_ne_none 0) fun h => h.1.2 hslot
      · rw [if_neg hslot]
        cases search key slots with
        | some j => exact iff_of_false (Option.some_ne_none _) (nomatch ·.2)
        | none =>
            by_cases hfree : slot = none
            · rw [if_pos hfree]
              exact iff_of_false (Option.some_ne_none 0) fun h => h.1.1 hfree
            · rw [if_neg hfree]
              exact iff_of_true rfl ⟨⟨hfree, hslot⟩, rfl⟩

/-- The answer is the slot of the key, or a free one and no slot holds it. -/
theorem search_some (h : search key slots = some i) :
    slots[i]? = some (some key) ∨
      slots[i]? = some none ∧ some key ∉ slots := by
  induction slots generalizing i with
  | nil => contradiction
  | cons slot slots ih =>
      rw [search] at h
      by_cases hslot : slot = some key
      · rw [if_pos hslot] at h
        obtain rfl := Option.some.inj h
        exact .inl (congrArg some hslot)
      · rw [if_neg hslot] at h
        have hout : some key ∉ slots → some key ∉ slot :: slots := by
          rw [List.mem_cons, not_or]
          exact fun hout => ⟨fun heq => hslot heq.symm, hout⟩
        cases hrest : search key slots with
        | some j =>
            rw [hrest] at h
            obtain rfl := Option.some.inj h
            exact (ih hrest).imp id fun hfree => ⟨hfree.1, hout hfree.2⟩
        | none =>
            rw [hrest] at h
            obtain ⟨hfree, h⟩ := Option.ite_none_right_eq_some.1 h
            obtain rfl := Option.some.inj h
            exact .inr ⟨congrArg some hfree, hout fun hin =>
              (search_none_iff.1 hrest _ hin).2 rfl⟩

/-- A key that is held is found. -/
theorem search_of_mem (h : some key ∈ slots) :
    ∃ i, search key slots = some i ∧ slots[i]? = some (some key) := by
  cases hsearch : search key slots with
  | none => exact absurd rfl (search_none_iff.1 hsearch _ h).2
  | some i =>
      rcases search_some hsearch with hi | ⟨-, hout⟩
      · exact ⟨i, rfl, hi⟩
      · exact absurd h hout

/-! ## Claiming and freeing -/

/-- A key put where the search says keeps the keys distinct. -/
theorem Distinct.claim (h : Distinct slots)
    (hsearch : search key slots = some i) :
    Distinct (slots.set i (some key)) := by
  -- no other slot holds the key
  have honly : ∀ j, slots[j]? = some (some key) → j = i := by
    intro j hj
    rcases search_some hsearch with hi | ⟨-, hout⟩
    · exact h j i key hj hi
    · exact absurd (List.mem_of_getElem? hj) hout
  have hslot : ∀ j key', (slots.set i (some key))[j]? = some (some key') →
      j = i ∧ key' = key ∨ j ≠ i ∧ slots[j]? = some (some key') := by
    intro j key' hj
    rw [List.getElem?_set] at hj
    split at hj
    · rename_i heq
      split at hj
      · exact .inl ⟨heq.symm, (Option.some.inj (Option.some.inj hj)).symm⟩
      · contradiction
    · rename_i hne
      exact .inr ⟨fun heq => hne heq.symm, hj⟩
  intro j k key' hj hk
  rcases hslot j key' hj with ⟨rfl, rfl⟩ | ⟨hji, hjold⟩
  · rcases hslot k key' hk with ⟨rfl, -⟩ | ⟨hki, hkold⟩
    · rfl
    · exact absurd (honly k hkold) hki
  · rcases hslot k key' hk with ⟨rfl, rfl⟩ | ⟨-, hkold⟩
    · exact absurd (honly j hjold) hji
    · exact h j k key' hjold hkold

/-- Freeing the slot of a key frees no other. -/
theorem Distinct.release (h : Distinct slots)
    (hi : slots[i]? = some (some key)) :
    slots.set i none =
      slots.map fun slot => if slot = some key then none else slot := by
  refine List.ext_getElem? fun j => ?_
  rw [List.getElem?_set, List.getElem?_map]
  split
  · rename_i heq
    subst heq
    have hlt : i < slots.length := (List.getElem?_eq_some_iff.1 hi).1
    rw [if_pos hlt, hi, Option.map_some, if_pos rfl]
  · rename_i hne
    cases hj : slots[j]? with
    | none => rfl
    | some slot =>
        have hother : slot ≠ some key := fun heq =>
          hne (h i j key hi (heq ▸ hj))
        rw [Option.map_some, if_neg hother]

end EspAdf.Verified.Slots
