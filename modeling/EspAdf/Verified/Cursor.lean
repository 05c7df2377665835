import Mathlib

/-!
# Going through a table by key while entries are removed

A table of slots, free or holding a key, is gone through with a cursor that is
itself a key: the next entry is the first one behind the slot of the cursor,
or the first of the table when there is no cursor.  When the entry at hand is
removed, the entry in front of it becomes the cursor.

`Stands slots c rest` says that the cursor `c` stands right before the entries
`rest`.  It holds at the start with all entries, `Stands.next` finds the first
of `rest`, and `Stands.keep` and `Stands.clear` move behind it, whether it
stays or is removed; so all entries are met, each once and in order.

The module names nothing of the modelled repository.
-/

namespace EspAdf.Verified.Cursor

variable {κ : Type*}

/-- The keys of a table, in the order of the slots. -/
def keys (slots : List (Option κ)) : List κ := slots.filterMap id

@[simp] theorem keys_nil : keys ([] : List (Option κ)) = [] := rfl

@[simp] theorem keys_free (slots : List (Option κ)) :
    keys (none :: slots) = keys slots := rfl

@[simp] theorem keys_held (k : κ) (slots : List (Option κ)) :
    keys (some k :: slots) = k :: keys slots := rfl

@[simp] theorem keys_append (front back : List (Option κ)) :
    keys (front ++ back) = keys front ++ keys back :=
  List.filterMap_append

theorem mem_keys {k : κ} {slots : List (Option κ)} :
    k ∈ keys slots ↔ some k ∈ slots := by
  simp [keys]

/-- A table whose first key is `k` is free up to the slot of `k`. -/
theorem split_of_keys {k : κ} {rest : List κ} {slots : List (Option κ)}
    (h : keys slots = k :: rest) :
    ∃ front back, slots = front ++ some k :: back ∧ keys front = [] ∧
      keys back = rest := by
  induction slots with
  | nil => cases h
  | cons slot slots ih =>
      cases slot with
      | none =>
          obtain ⟨front, back, rfl, hfront, hback⟩ := ih h
          exact ⟨none :: front, back, rfl, hfront, hback⟩
      | some k' =>
          rw [keys_held, List.cons.injEq] at h
          obtain ⟨rfl, hrest⟩ := h
          exact ⟨[], slots, rfl, rfl, hrest⟩

variable [DecidableEq κ]

/-- The slots behind the first that holds `k`, if one does. -/
def behind (k : κ) : List (Option κ) → Option (List (Option κ))
  | [] => none
  | slot :: slots => if slot = some k then some slots else behind k slots

/-- The entry that follows the cursor. -/
def next (slots : List (Option κ)) : Option κ → Option κ
  | none => (keys slots).head?
  | some k => (keys ((behind k slots).getD slots)).head?

/-- The table without `k`. -/
def clear (k : κ) : List (Option κ) → List (Option κ)
  | [] => []
  | slot :: slots =>
      if slot = some k then none :: slots else slot :: clear k slots

/-- The last entry in front of `k`, starting with `c`. -/
def before (k : κ) (c : Option κ) : List (Option κ) → Option κ
  | [] => c
  | slot :: slots =>
      if slot = some k then c else before k (slot.or c) slots

variable {k : κ} {c : Option κ} {slots front back : List (Option κ)}
  {rest : List κ}

theorem behind_split (h : some k ∉ front) :
    behind k (front ++ some k :: back) = some back := by
  induction front with
  | nil => rw [List.nil_append, behind, if_pos rfl]
  | cons slot front ih =>
      rw [List.mem_cons, not_or] at h
      rw [List.cons_append, behind, if_neg (fun heq => h.1 heq.symm), ih h.2]

theorem behind_absent (h : some k ∉ slots) : behind k slots = none := by
  induction slots with
  | nil => rfl
  | cons slot slots ih =>
      rw [List.mem_cons, not_or] at h
      rw [behind, if_neg (fun heq => h.1 heq.symm), ih h.2]

theorem clear_split (h : some k ∉ front) :
    clear k (front ++ some k :: back) = front ++ none :: back := by
  induction front with
  | nil => simp [clear]
  | cons slot front ih =>
      rw [List.mem_cons, not_or] at h
      rw [List.cons_append, clear, if_neg (fun heq => h.1 heq.symm), ih h.2,
        List.cons_append]

theorem before_split (h : some k ∉ front) :
    before k c (front ++ some k :: back) = (keys front).getLast?.or c := by
  induction front generalizing c with
  | nil => simp [before]
  | cons slot front ih =>
      rw [List.mem_cons, not_or] at h
      rw [List.cons_append, before, if_neg (fun heq => h.1 heq.symm), ih h.2]
      cases slot with
      | none => rfl
      | some k' =>
          rw [keys_held, List.getLast?_cons, Option.some_or]
          cases (keys front).getLast? <;> rfl

/-- Removing an entry leaves the others. -/
theorem keys_clear (k : κ) (slots : List (Option κ)) :
    keys (clear k slots) = (keys slots).erase k := by
  induction slots with
  | nil => rfl
  | cons slot slots ih =>
      cases slot with
      | none => rw [clear, if_neg (by simp), keys_free, keys_free, ih]
      | some k' =>
          by_cases hk : k' = k
          · rw [clear, if_pos (congrArg some hk), keys_free, keys_held, hk,
              List.erase_cons_head]
          · rw [clear, if_neg (by simpa using hk), keys_held, keys_held, ih,
              List.erase_cons_tail (by simpa using hk)]

/-! ## Where the cursor stands -/

/-- The cursor `c` stands right before the entries `rest`. -/
def Stands (slots : List (Option κ)) (c : Option κ) (rest : List κ) : Prop :=
  ∃ front back, slots = front ++ back ∧ (keys front).getLast? = c ∧
    keys back = rest

omit [DecidableEq κ] in
theorem Stands.start (slots : List (Option κ)) :
    Stands slots none (keys slots) :=
  ⟨[], slots, rfl, rfl, rfl⟩

omit [DecidableEq κ] in
/-- The entries behind the cursor are the last ones of the table. -/
theorem Stands.suffix (h : Stands slots c rest) : rest <:+ keys slots := by
  obtain ⟨front, back, rfl, -, rfl⟩ := h
  exact ⟨keys front, (keys_append front back).symm⟩

/-- A removed entry as the cursor is as good as none. -/
theorem next_absent (h : some k ∉ slots) :
    next slots (some k) = next slots none := by
  show (keys ((behind k slots).getD slots)).head? = _
  rw [behind_absent h, Option.getD_none, next]

/-- What the cursor finds. -/
theorem Stands.next (hnodup : (keys slots).Nodup)
    (h : Stands slots c rest) : Cursor.next slots c = rest.head? := by
  obtain ⟨front, back, rfl, rfl, rfl⟩ := h
  cases hlast : (keys front).getLast? with
  | none =>
      rw [List.getLast?_eq_none_iff] at hlast
      rw [Cursor.next, keys_append, hlast, List.nil_append]
  | some k =>
      -- the front ends, up to free slots, with the cursor's slot
      obtain ⟨init, hinit⟩ := List.getLast?_eq_some_iff.1 hlast
      obtain ⟨front₁, front₂, rfl, hk, hfree⟩ :
          ∃ front₁ front₂, front = front₁ ++ some k :: front₂ ∧
            some k ∉ front₁ ∧ keys front₂ = [] := by
        obtain ⟨f₁, f₂, rfl, h₁, h₂⟩ := List.filterMap_eq_append_iff.1 hinit
        obtain ⟨g₁, g₂, rfl, hg₁, hg₂⟩ := split_of_keys h₂
        refine ⟨f₁ ++ g₁, g₂, by simp, ?_, hg₂⟩
        intro hmem
        have hin : k ∈ keys (f₁ ++ g₁) := mem_keys.2 hmem
        rw [keys_append, keys_append, keys_append, keys_held] at hnodup
        rw [keys_append, hg₁, List.append_nil] at hin
        have hdup := (List.nodup_append.1 (List.nodup_append.1 hnodup).1).2.2
        exact hdup k hin k (by simp) rfl
      rw [Cursor.next, List.append_assoc, List.cons_append, behind_split hk,
        Option.getD_some, keys_append, hfree, List.nil_append]

omit [DecidableEq κ] in
/-- The entry at hand stays, and becomes the cursor. -/
theorem Stands.keep (h : Stands slots c (k :: rest)) :
    Stands slots (some k) rest := by
  obtain ⟨front, back, rfl, -, hback⟩ := h
  obtain ⟨frees, back, rfl, hfrees, rfl⟩ := split_of_keys hback
  exact ⟨front ++ (frees ++ [some k]), back, by simp, by simp [hfrees], rfl⟩

/-- The entry at hand is removed, and the one in front of it becomes the
cursor. -/
theorem Stands.clear (hnodup : (keys slots).Nodup)
    (h : Stands slots c (k :: rest)) :
    Stands (Cursor.clear k slots) (before k none slots) rest := by
  obtain ⟨front, back, rfl, rfl, hback⟩ := h
  obtain ⟨frees, back, rfl, hfrees, rfl⟩ := split_of_keys hback
  have hk : some k ∉ front ++ frees := by
    intro hmem
    have hin : k ∈ keys (front ++ frees) := mem_keys.2 hmem
    rw [← List.append_assoc, keys_append] at hnodup
    exact (List.nodup_append.1 hnodup).2.2 k hin k (by simp) rfl
  rw [← List.append_assoc, clear_split hk, before_split hk]
  exact ⟨front ++ (frees ++ [none]), back, by simp, by simp [hfrees], rfl⟩

end EspAdf.Verified.Cursor
