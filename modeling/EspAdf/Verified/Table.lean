import Mathlib.Data.List.Nodup
import Mathlib.Data.Set.Card
import Mathlib.Logic.Function.Basic

/-!
# A list of entries as a finite map

`Represents key l M` says that the list `l` holds one entry for each key that
the map `M` is defined at, and nothing else.

* `represents_find` — every list with different keys represents a map.
* `Represents.insert`, `Represents.replace` — adding an entry with a new key,
  and changing the entry of a key.
* `Represents.erase`, `Represents.filter` — removing one key, or many.
* `Represents.size` — the length of the list is the number of keys.

The module names nothing of the modelled repository.
-/

namespace EspAdf.Verified.Table

variable {β κ : Type*} {key : β → κ}

structure Represents (key : β → κ) (l : List β) (M : κ → Option β) :
    Prop where
  nodup : (l.map key).Nodup
  iff : ∀ k e, M k = some e ↔ e ∈ l ∧ key e = k

variable {l l' : List β} {M : κ → Option β}

theorem Represents.nil : Represents key [] fun _ => none :=
  ⟨List.nodup_nil, by simp⟩

theorem represents_find [DecidableEq κ] (h : (l.map key).Nodup) :
    Represents key l fun k => l.find? fun e => key e = k := by
  refine ⟨h, fun k e => ?_⟩
  constructor
  · intro hfind
    exact ⟨List.mem_of_find?_eq_some hfind, by
      simpa using List.find?_some hfind⟩
  · rintro ⟨he, rfl⟩
    cases hfind : l.find? fun e' => key e' = key e with
    | none =>
        rw [List.find?_eq_none] at hfind
        exact absurd (hfind e he) (by simp)
    | some e' =>
        have hkey : key e' = key e := by simpa using List.find?_some hfind
        rw [List.inj_on_of_nodup_map h (List.mem_of_find?_eq_some hfind) he
          hkey]

/-- The order of the entries does not matter. -/
theorem Represents.perm (h : Represents key l M) (hperm : l.Perm l') :
    Represents key l' M := by
  refine ⟨(hperm.map key).nodup_iff.1 h.nodup, fun k e => ?_⟩
  rw [h.iff, hperm.mem_iff]

theorem Represents.eq_none_iff (h : Represents key l M) {k : κ} :
    M k = none ↔ ∀ e ∈ l, key e ≠ k := by
  rw [Option.eq_none_iff_forall_ne_some]
  refine forall_congr' fun e => ?_
  rw [Ne, h.iff, not_and]

/-- An entry with a key that is not there is added. -/
theorem Represents.insert [DecidableEq κ] (h : Represents key l M) {e : β}
    (hnew : M (key e) = none) :
    Represents key (e :: l) (Function.update M (key e) (some e)) := by
  rw [h.eq_none_iff] at hnew
  refine ⟨?_, fun k e' => ?_⟩
  · rw [List.map_cons, List.nodup_cons]
    refine ⟨fun hmem => ?_, h.nodup⟩
    obtain ⟨e', he', hkey⟩ := List.mem_map.1 hmem
    exact hnew e' he' hkey
  · rw [Function.update_apply, List.mem_cons]
    split
    · rename_i hk
      subst hk
      rw [Option.some.injEq]
      constructor
      · rintro rfl
        exact ⟨.inl rfl, rfl⟩
      · rintro ⟨rfl | he', hkey⟩
        · rfl
        · exact absurd hkey (hnew e' he')
    · rename_i hk
      rw [h.iff]
      refine and_congr_left fun hkey => (or_iff_right ?_).symm
      rintro rfl
      exact hk hkey.symm

/-- The keys that `p` does not admit are removed. -/
theorem Represents.filter (h : Represents key l M) (p : κ → Bool) :
    Represents key (l.filter fun e => p (key e))
      fun k => if p k then M k else none := by
  refine ⟨?_, fun k e => ?_⟩
  · exact h.nodup.sublist (List.filter_sublist.map key)
  · rw [Option.ite_none_right_eq_some, h.iff, List.mem_filter]
    constructor
    · rintro ⟨hp, he, rfl⟩
      exact ⟨⟨he, hp⟩, rfl⟩
    · rintro ⟨⟨he, hp⟩, rfl⟩
      exact ⟨hp, he, rfl⟩

/-- The keys of a list around an entry are others than its key. -/
theorem Represents.others {front back : List β} {e : β}
    (h : Represents key (front ++ e :: back) M) :
    ∀ y ∈ front ++ back, key y ≠ key e := by
  have hnodup := h.nodup
  rw [List.map_append, List.map_cons, List.nodup_middle, List.nodup_cons,
    ← List.map_append] at hnodup
  exact fun y hy heq => hnodup.1 (heq ▸ List.mem_map_of_mem hy)

/-- The entry of a key is removed. -/
theorem Represents.erase [DecidableEq κ] {front back : List β} {e : β}
    (h : Represents key (front ++ e :: back) M) :
    Represents key (front ++ back)
      fun k => if k = key e then none else M k := by
  refine ⟨h.nodup.sublist (List.Sublist.map _ (by simp)), fun k x => ?_⟩
  rw [Option.ite_none_left_eq_some, h.iff]
  constructor
  · rintro ⟨hk, hx, rfl⟩
    have hne : x ≠ e := fun heq => hk (congrArg key heq)
    exact ⟨by simpa [hne] using hx, rfl⟩
  · rintro ⟨hx, rfl⟩
    refine ⟨h.others x hx, ?_, rfl⟩
    rw [List.mem_append, List.mem_cons]
    exact (List.mem_append.1 hx).imp id .inr

/-- The entry of a key is changed. -/
theorem Represents.replace [DecidableEq κ] {front back : List β} {e e' : β}
    (h : Represents key (front ++ e :: back) M) (hkey : key e' = key e) :
    Represents key (front ++ e' :: back)
      (Function.update M (key e) (some e')) := by
  have hnodup := h.nodup
  rw [List.map_append, List.map_cons] at hnodup
  refine ⟨?_, fun k x => ?_⟩
  · rw [List.map_append, List.map_cons, hkey]
    exact hnodup
  · have hout := h.others
    rw [Function.update_apply]
    split
    · rename_i hk
      subst hk
      rw [Option.some.injEq]
      constructor
      · rintro rfl
        exact ⟨by simp, hkey⟩
      · rintro ⟨hx, hxkey⟩
        by_contra hne
        refine hout x ?_ hxkey
        simpa [List.mem_append, Ne.symm hne] using hx
    · rename_i hk
      rw [h.iff]
      refine and_congr_left fun hxkey => ?_
      have hne : x ≠ e := fun heq => hk (by rw [← hxkey, heq])
      have hne' : x ≠ e' := fun heq => hk (by rw [← hxkey, heq, hkey])
      simp [hne, hne']

/-- The position of an entry cuts the list in two. -/
theorem findIdx?_split {p : β → Bool} {i : Nat}
    (h : l.findIdx? p = some i) :
    ∃ front e back, l = front ++ e :: back ∧ front.length = i ∧
      p e = true := by
  obtain ⟨hi, hp, -⟩ := List.findIdx?_eq_some_iff_getElem.1 h
  refine ⟨l.take i, l[i], l.drop (i + 1), ?_, ?_, hp⟩
  · rw [List.cons_getElem_drop_succ, List.take_append_drop]
  · rw [List.length_take, Nat.min_eq_left (Nat.le_of_lt hi)]

theorem eraseIdx_middle (front : List β) (e : β) (back : List β) :
    (front ++ e :: back).eraseIdx front.length = front ++ back := by
  rw [List.eraseIdx_append_of_length_le (Nat.le_refl _), Nat.sub_self,
    List.eraseIdx_cons_zero]

theorem modify_middle (front : List β) (e : β) (back : List β) (f : β → β) :
    (front ++ e :: back).modify front.length f = front ++ f e :: back := by
  rw [List.modify_eq_set_getElem?, List.getElem?_append_right (Nat.le_refl _),
    Nat.sub_self]
  simp [List.set_append_right]

theorem Represents.size (h : Represents key l M) :
    Set.ncard {k | M k ≠ none} = l.length := by
  classical
  have hset : {k | M k ≠ none} = ((l.map key).toFinset : Set κ) := by
    ext k
    rw [Set.mem_ofPred_eq, Ne, h.eq_none_iff]
    simp
  rw [hset, Set.ncard_coe_finset, List.toFinset_card_of_nodup h.nodup,
    List.length_map]

end EspAdf.Verified.Table
