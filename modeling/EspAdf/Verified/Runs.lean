import Mathlib

/-!
# The maximal runs of a list between separators

`runs p l` lists the maximal nonempty runs of elements of `l` that are not
separators, in order; `p` says which elements separate.  What a reader that
cuts a stream into lines has to return is `runs`, and what it may rely on when
the stream arrives in pieces is the pair of results about appending:

* `runs_append` — pieces that meet at a separator have the runs of both.
* `runs_merge` — otherwise the last run of the first piece grows.

The module names nothing of the modelled repository.
-/

namespace EspAdf.Verified

variable {α : Type*} (p : α → Bool)

/-- The maximal runs of elements that are not separators. -/
def runs (l : List α) : List (List α) :=
  (l.splitOnP p).filter fun x => !x.isEmpty

/-- Two pieces of a list meet at a separator, or one of them is empty. -/
def Separated (xs ys : List α) : Prop :=
  ∀ a ∈ xs.getLast?, ∀ b ∈ ys.head?, p a = true ∨ p b = true

instance (xs ys : List α) : Decidable (Separated p xs ys) :=
  inferInstanceAs (Decidable (∀ a ∈ xs.getLast?, ∀ b ∈ ys.head?, _))

variable {p}

@[simp] theorem runs_nil : runs p [] = [] := by
  simp [runs]

theorem runs_append_cons (xs ys : List α) {a : α} (h : p a = true) :
    runs p (xs ++ a :: ys) = runs p xs ++ runs p ys := by
  rw [runs, List.splitOnP_append_cons xs ys h, List.filter_append]
  rfl

/-- A leading separator is skipped. -/
theorem runs_cons (l : List α) {a : α} (h : p a = true) :
    runs p (a :: l) = runs p l := by
  have happ := runs_append_cons [] l h
  rwa [List.nil_append, runs_nil, List.nil_append] at happ

/-- Separators in front are skipped. -/
theorem runs_seps_append {xs : List α} (h : ∀ a ∈ xs, p a = true)
    (l : List α) : runs p (xs ++ l) = runs p l := by
  induction xs with
  | nil => rfl
  | cons a xs ih =>
      rw [List.cons_append, runs_cons _ (h a List.mem_cons_self),
        ih fun b hb => h b (List.mem_cons_of_mem a hb)]

/-- A list without separators is one run. -/
theorem runs_of_free {l : List α} (h : ∀ a ∈ l, p a = false) (hne : l ≠ []) :
    runs p l = [l] := by
  rw [runs, List.splitOnP_eq_singleton h]
  simp [hne]

theorem ne_nil_of_mem_runs {l x : List α} (h : x ∈ runs p l) : x ≠ [] := by
  have hx := (List.mem_filter.1 h).2
  simpa using hx

/-- Nothing but the separators is lost. -/
theorem flatten_runs (l : List α) :
    (runs p l).flatten = l.filter fun a => !p a := by
  have hsplit : (l.splitOnP p).flatten = l.filter fun a => !p a := by
    induction l with
    | nil => simp
    | cons a l ih =>
        rw [List.splitOnP_cons_eq_if_modifyHead]
        by_cases ha : p a = true
        · simp [ha, ih]
        · rcases List.exists_cons_of_ne_nil (List.splitOnP_ne_nil p l) with
            ⟨x, xs, hx⟩
          rw [hx] at ih ⊢
          simp [ha, ← ih]
  rw [runs, List.flatten_filter_not_isEmpty, hsplit]

/-- The first run is what precedes the first separator. -/
theorem runs_eq_cons {a : α} (l : List α) (h : p a = false) :
    runs p (a :: l) = (a :: l).takeWhile (fun b => !p b) ::
      runs p ((a :: l).dropWhile fun b => !p b) := by
  have hfree : ∀ b ∈ (a :: l).takeWhile (fun b => !p b), p b = false := by
    intro b hb
    simpa using List.mem_takeWhile_imp hb
  have hne : (a :: l).takeWhile (fun b => !p b) ≠ [] := by
    simp [h]
  cases hd : (a :: l).dropWhile fun b => !p b with
  | nil =>
      have hall := List.takeWhile_append_dropWhile (p := fun b => !p b)
        (l := a :: l)
      rw [hd, List.append_nil] at hall
      rw [hall] at hfree ⊢
      rw [runs_of_free hfree (by simp), runs_nil]
  | cons b m =>
      have hb : p b = true := by
        have hhead := List.head?_dropWhile_not (fun b => !p b) (a :: l)
        simpa [hd] using hhead
      have hall := List.takeWhile_append_dropWhile (p := fun b => !p b)
        (l := a :: l)
      rw [hd] at hall
      rw [runs_cons m hb]
      have hruns := congrArg (runs p) hall
      rw [runs_append_cons _ m hb, runs_of_free hfree hne] at hruns
      exact hruns.symm

/-- Pieces that meet at a separator have the runs of both. -/
theorem runs_append {xs ys : List α} (h : Separated p xs ys) :
    runs p (xs ++ ys) = runs p xs ++ runs p ys := by
  cases hx : xs.getLast? with
  | none =>
      rw [List.getLast?_eq_none_iff.1 hx, runs_nil]
      rfl
  | some a =>
      cases hy : ys with
      | nil => simp
      | cons b ys' =>
          rcases h a hx b (by rw [hy]; rfl) with ha | hb
          · rcases List.getLast?_eq_some_iff.1 hx with ⟨zs, rfl⟩
            have hnil := runs_append_cons zs [] ha
            rw [runs_nil, List.append_nil] at hnil
            rw [hnil, List.append_assoc, List.singleton_append,
              runs_append_cons zs _ ha]
          · rw [runs_append_cons xs ys' hb, runs_cons ys' hb]

/-- What precedes the last run ends with a separator. -/
theorem separated_rdropWhile (xs ys : List α) :
    Separated p (xs.rdropWhile fun a => !p a) ys := by
  intro a ha b _
  rcases List.getLast?_eq_some_iff.1 ha with ⟨zs, hzs⟩
  have hne : xs.rdropWhile (fun a => !p a) ≠ [] := by
    rw [hzs]
    simp
  have hlast := List.rdropWhile_last_not (fun a => !p a) xs hne
  simp only [hzs, List.getLast_append_singleton] at hlast
  exact .inl (by simpa using hlast)

/-- What follows the first run starts with a separator. -/
theorem separated_dropWhile (xs ys : List α) :
    Separated p xs (ys.dropWhile fun a => !p a) := by
  intro a _ b hb
  have hhead := List.head?_dropWhile_not (fun a => !p a) ys
  rw [hb] at hhead
  exact .inr (by simpa using hhead)

/-- Otherwise the last run of the first piece grows. -/
theorem runs_merge {xs ys : List α} (h : ¬Separated p xs ys) :
    ∃ zs x y ws, runs p xs = zs ++ [x] ∧ y ≠ [] ∧
      runs p (xs ++ ys) = zs ++ (x ++ y) :: ws := by
  simp only [Separated, not_forall, not_or, Bool.not_eq_true] at h
  obtain ⟨a, ha, b, hb, hpa, hpb⟩ := h
  have hx : xs.rdropWhile (fun a => !p a) ++ xs.rtakeWhile (fun a => !p a) =
      xs := List.rdropWhile_append_rtakeWhile
  have hy := List.takeWhile_append_dropWhile (p := fun a => !p a) (l := ys)
  have hxne : xs.rtakeWhile (fun a => !p a) ≠ [] := by
    rcases List.getLast?_eq_some_iff.1 ha with ⟨zs, rfl⟩
    rw [List.rtakeWhile_concat_pos _ _ _ (by simp [hpa])]
    simp
  have hyne : ys.takeWhile (fun a => !p a) ≠ [] := by
    rcases List.head?_eq_some_iff.1 hb with ⟨zs, rfl⟩
    simp [hpb]
  have hxfree : ∀ c ∈ xs.rtakeWhile (fun a => !p a), p c = false :=
    fun c hc => by simpa using List.mem_rtakeWhile_imp hc
  have hyfree : ∀ c ∈ ys.takeWhile (fun a => !p a), p c = false :=
    fun c hc => by simpa using List.mem_takeWhile_imp hc
  have hleft : ∀ m, Separated p (xs.rdropWhile fun a => !p a) m :=
    separated_rdropWhile xs
  have hright : ∀ m, Separated p m (ys.dropWhile fun a => !p a) :=
    fun m => separated_dropWhile m ys
  generalize xs.rdropWhile (fun a => !p a) = zs at hx hleft
  generalize xs.rtakeWhile (fun a => !p a) = x at hx hxne hxfree
  generalize ys.takeWhile (fun a => !p a) = y at hy hyne hyfree
  generalize ys.dropWhile (fun a => !p a) = ws at hy hright
  subst hx hy
  refine ⟨runs p zs, x, y, runs p ws, ?_, hyne, ?_⟩
  · rw [runs_append (hleft x), runs_of_free hxfree hxne]
  · have hxyfree : ∀ c ∈ x ++ y, p c = false := by
      intro c hc
      rcases List.mem_append.1 hc with hc | hc
      · exact hxfree c hc
      · exact hyfree c hc
    rw [List.append_assoc, ← List.append_assoc x, runs_append (hleft _),
      runs_append (hright _), runs_of_free hxyfree (by simp [hxne])]
    rfl

end EspAdf.Verified
