import Mathlib

/-!
# Searching round a cycle

From a place one can only go to the `next`.  `search` goes on until a place
meets a condition, and has no bound of its own; `visit` searches again from
where the last search stopped.

* `exists_search_iff` — where all places are on one cycle, a search ends
  exactly if some place meets the condition.
* `visit_eq` — the searches then visit the places that do, in the order of the
  cycle, over and over.

The module names nothing of the modelled repository.
-/

namespace EspAdf.Verified.Orbit

variable {ι : Type*} (next : ι → ι) (p : ι → Bool)

/-- Go on to the next place that meets `p`, in at most `fuel` steps. -/
def search : Nat → ι → Option ι
  | 0, _ => none
  | fuel + 1, i => if p (next i) then some (next i) else search fuel (next i)

/-- `k` searches, each from where the last one stopped. -/
def visit (fuel : Nat) : Nat → ι → Option ι
  | 0, i => some i
  | k + 1, i => (search next p fuel i).bind (visit fuel k)

/-- The `n` places behind `i`. -/
def orbit : Nat → ι → List ι
  | 0, _ => []
  | n + 1, i => next i :: orbit n (next i)

/-- Those of them that meet `p`. -/
def marks (n : Nat) (i : ι) : List ι := (orbit next n i).filter p

/-- All places are on one cycle, of `n` steps. -/
structure Cycle (n : Nat) : Prop where
  period : ∀ i, next^[n] i = i
  mem : ∀ i j, j ∈ orbit next n i

variable {next p} {n fuel : Nat} {i j : ι}

theorem search_eq : search next p fuel i = (orbit next fuel i).find? p := by
  induction fuel generalizing i with
  | zero => rfl
  | succ fuel ih =>
      rw [search, orbit, List.find?_cons, ih]
      cases p (next i) <;> rfl

theorem orbit_succ (n : Nat) (i : ι) :
    orbit next (n + 1) i = orbit next n i ++ [next^[n + 1] i] := by
  induction n generalizing i with
  | zero => rfl
  | succ n ih =>
      rw [orbit, ih, orbit, List.cons_append]
      rfl

/-- From the next place on the cycle is the same, one place further. -/
theorem Cycle.orbit_next (h : Cycle next n) (i : ι) :
    orbit next n (next i) = (orbit next n i).rotate 1 := by
  cases n with
  | zero => rfl
  | succ n =>
      rw [orbit_succ, h.period, orbit, List.rotate_cons_succ, List.rotate_zero]

theorem Cycle.orbit_iterate (h : Cycle next n) (k : Nat) (i : ι) :
    orbit next n (next^[k] i) = (orbit next n i).rotate k := by
  induction k generalizing i with
  | zero => exact (List.rotate_zero _).symm
  | succ k ih =>
      rw [Function.iterate_succ_apply, ih, h.orbit_next, List.rotate_rotate,
        Nat.add_comm]

theorem getElem?_orbit {k : Nat} (hk : k < n) :
    (orbit next n i)[k]? = some (next^[k + 1] i) := by
  induction n generalizing i k with
  | zero => contradiction
  | succ n ih =>
      cases k with
      | zero => rfl
      | succ k => exact ih (Nat.lt_of_succ_lt_succ hk)

theorem length_orbit : (orbit next n i).length = n := by
  induction n generalizing i with
  | zero => rfl
  | succ n ih => rw [orbit, List.length_cons, ih]

/-- What a search finds is the first of the marks, and the last of those from
there on. -/
theorem Cycle.search_marks (h : Cycle next n)
    (hj : search next p n i = some j) :
    (marks next p n i).head? = some j ∧
      marks next p n j = (marks next p n i).rotate 1 := by
  rw [search_eq, List.find?_eq_some_iff_append] at hj
  obtain ⟨hp, before, behind, horbit, hnone⟩ := hj
  have hbefore : before.filter p = [] := by
    refine List.filter_eq_nil_iff.2 fun a ha => ?_
    have hnot := hnone a ha
    cases hpa : p a with
    | true =>
        rw [hpa] at hnot
        contradiction
    | false => exact Bool.false_ne_true
  have hmarks : marks next p n i = j :: behind.filter p := by
    rw [marks, horbit, List.filter_append, hbefore, List.nil_append,
      List.filter_cons_of_pos hp]
  have hlength : before.length < n := by
    have hlen := congrArg List.length horbit
    rw [length_orbit, List.length_append, List.length_cons] at hlen
    omega
  have hplace : j = next^[before.length + 1] i := by
    have hat : (orbit next n i)[before.length]? = _ := getElem?_orbit hlength
    rw [horbit, List.getElem?_append_right (Nat.le_refl _), Nat.sub_self] at hat
    exact Option.some.inj hat
  have hturn : orbit next n j = behind ++ (before ++ [j]) := by
    have hlen : before.length + 1 = (before ++ [j]).length := by
      rw [List.length_append, List.length_singleton]
    have hsplit : before ++ j :: behind = (before ++ [j]) ++ behind := by
      rw [List.append_assoc, List.singleton_append]
    conv_lhs => rw [hplace]
    rw [h.orbit_iterate, horbit, hlen, hsplit, List.rotate_append_length_eq]
  refine ⟨by rw [hmarks]; rfl, ?_⟩
  rw [hmarks, List.rotate_cons_succ, List.rotate_zero, marks, hturn,
    List.filter_append, List.filter_append, hbefore, List.nil_append,
    List.filter_cons_of_pos hp, List.filter_nil]

/-- A search within one round of the cycle. -/
theorem Cycle.search_isSome_iff (h : Cycle next n) (i : ι) :
    (search next p n i).isSome ↔ ∃ j, p j := by
  rw [search_eq, List.find?_isSome]
  exact ⟨fun ⟨j, _, hj⟩ => ⟨j, hj⟩, fun ⟨j, hj⟩ => ⟨j, h.mem i j, hj⟩⟩

/-- **The searches visit the marks** in the order of the cycle, over and
over. -/
theorem Cycle.visit_eq (h : Cycle next n) (k : Nat) (hmark : ∃ j, p j) :
    visit next p n (k + 1) i =
        (marks next p n i)[k % (marks next p n i).length]? ∧
      (visit next p n (k + 1) i).isSome := by
  have hfound : ∀ i, ∃ j, search next p n i = some j :=
    fun i => Option.isSome_iff_exists.1 ((h.search_isSome_iff i).2 hmark)
  induction k generalizing i with
  | zero =>
      obtain ⟨j, hj⟩ := hfound i
      rw [visit, hj, Nat.zero_mod, ← List.head?_eq_getElem?,
        (h.search_marks hj).1]
      exact ⟨rfl, rfl⟩
  | succ k ih =>
      obtain ⟨j, hj⟩ := hfound i
      obtain ⟨hhead, hrotate⟩ := h.search_marks hj
      have hpos : 0 < (marks next p n i).length := by
        refine List.length_pos_of_ne_nil fun hnil => ?_
        rw [hnil] at hhead
        contradiction
      rw [visit, hj]
      show visit next p n (k + 1) j = _ ∧ _
      obtain ⟨heq, hsome⟩ := ih (i := j)
      refine ⟨?_, hsome⟩
      rw [heq, hrotate, List.length_rotate,
        List.getElem?_rotate (Nat.mod_lt _ hpos), Nat.mod_add_mod]

/-- **A search ends** exactly if some place is marked, and then within one
round. -/
theorem Cycle.exists_search_iff (h : Cycle next n) (i : ι) :
    (∃ fuel, (search next p fuel i).isSome) ↔ ∃ j, p j := by
  constructor
  · rintro ⟨fuel, hsome⟩
    rw [search_eq, List.find?_isSome] at hsome
    obtain ⟨j, -, hj⟩ := hsome
    exact ⟨j, hj⟩
  · exact fun hmark => ⟨n, (h.search_isSome_iff i).2 hmark⟩

end EspAdf.Verified.Orbit
