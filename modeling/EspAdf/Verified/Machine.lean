import Mathlib

/-!
# Executable machines, their runs, and the two induction rules

Every concurrent model in this package is a **machine**: a partial step
function `step s a = some t`, where `a` names which party moves and what its
environment answers, and `none` says that the party is blocked.  An
interleaving is a list of actions, so "for every interleaving" is a
quantifier over lists and a concrete schedule is evaluated by `run`.

Three rules carry all later proofs:

* `Reaches.invariant` — a property that holds initially and survives every
  step holds in every state reached.  The steps may be restricted by a
  predicate `ok` on the state before the step and the action, which is how a
  result says "in every run whose steps all meet the condition".
* `run_induction` — the same with the schedule in sight, for results that
  say which schedules keep a property; `Meets` says that every step of a
  schedule meets a condition.
* `run_simulation` — when two machines move in lock step under a relation,
  every action list runs on both and ends in related states.

The module names nothing of the modelled repository.
-/

namespace EspAdf.Verified

/-- A deterministic machine whose actions may be blocked. -/
structure Machine (State Act : Type*) where
  step : State → Act → Option State

namespace Machine

variable {State Act : Type*} (M : Machine State Act)

/-- Run a schedule; `none` when some action of it is blocked. -/
def run (s : State) : List Act → Option State
  | [] => some s
  | a :: as => (M.step s a).bind fun t => run t as

@[simp] theorem run_nil (s : State) : M.run s [] = some s := rfl

theorem run_cons (s : State) (a : Act) (as : List Act) :
    M.run s (a :: as) = (M.step s a).bind fun t => M.run t as := rfl

/-- A run over a concatenated schedule is the composition of the two runs. -/
theorem run_append (as bs : List Act) (s : State) :
    M.run s (as ++ bs) = (M.run s as).bind fun t => M.run t bs := by
  induction as generalizing s with
  | nil => rfl
  | cons a as ih =>
      simp only [List.cons_append, run_cons, Option.bind_assoc, ih]

/-- One step taken from a state and with an action that `ok` admits. -/
def StepOk (ok : State → Act → Prop) (s t : State) : Prop :=
  ∃ a, ok s a ∧ M.step s a = some t

/-- `t` is reached from `s` by steps that all meet `ok`. -/
def Reaches (ok : State → Act → Prop) : State → State → Prop :=
  Relation.ReflTransGen (M.StepOk ok)

/-- `t` is reached from `s` by some schedule. -/
def Reachable : State → State → Prop := M.Reaches fun _ _ => True

variable {M}

/-- The invariant rule for restricted runs. -/
theorem Reaches.invariant {ok : State → Act → Prop} {I : State → Prop}
    {s t : State} (h : M.Reaches ok s t) (h0 : I s)
    (hstep : ∀ u a v, I u → ok u a → M.step u a = some v → I v) : I t := by
  induction h with
  | refl => exact h0
  | tail _ hst ih =>
      obtain ⟨a, hok, hs⟩ := hst
      exact hstep _ a _ ih hok hs

/-- Weakening the condition on the steps keeps a run. -/
theorem Reaches.mono {ok ok' : State → Act → Prop} {s t : State}
    (h : M.Reaches ok s t) (hle : ∀ u a, ok u a → ok' u a) :
    M.Reaches ok' s t := by
  refine Relation.ReflTransGen.mono ?_ _ _ h
  rintro u v ⟨a, hok, hs⟩
  exact ⟨a, hle u a hok, hs⟩

/-- One more admissible step extends a run. -/
theorem Reaches.step {ok : State → Act → Prop} {s t u : State} {a : Act}
    (h : M.Reaches ok s t) (hok : ok t a) (hs : M.step t a = some u) :
    M.Reaches ok s u :=
  Relation.ReflTransGen.tail h ⟨a, hok, hs⟩

/-- A machine whose steps are, seen through `f`, admissible steps of another
one has its runs. -/
theorem Reaches.map {State' Act' : Type*} {M' : Machine State' Act'}
    {ok : State → Act → Prop} {ok' : State' → Act' → Prop} {s t : State}
    (f : State → State') (h : M.Reaches ok s t)
    (hstep : ∀ u a v, ok u a → M.step u a = some v →
      ∃ b, ok' (f u) b ∧ M'.step (f u) b = some (f v)) :
    M'.Reaches ok' (f s) (f t) := by
  refine Relation.ReflTransGen.lift f ?_ _ _ h
  rintro u v ⟨a, hok, hs⟩
  exact hstep u a v hok hs

/-- The invariant rule for arbitrary schedules. -/
theorem Reachable.invariant {I : State → Prop} {s t : State}
    (h : M.Reachable s t) (h0 : I s)
    (hstep : ∀ u a v, I u → M.step u a = some v → I v) : I t :=
  Reaches.invariant h h0 fun u a v hI _ hs => hstep u a v hI hs

/-- A schedule that runs to `t` shows that `t` is reachable. -/
theorem reachable_of_run {as : List Act} {s t : State}
    (h : M.run s as = some t) : M.Reachable s t := by
  induction as generalizing s with
  | nil =>
      obtain rfl : s = t := by simpa using h
      exact Relation.ReflTransGen.refl
  | cons a as ih =>
      rw [run_cons, Option.bind_eq_some_iff] at h
      obtain ⟨u, hu, hrest⟩ := h
      exact Relation.ReflTransGen.head ⟨a, trivial, hu⟩ (ih hrest)

/-- Reachability is exactly the existence of a schedule. -/
theorem reachable_iff_run {s t : State} :
    M.Reachable s t ↔ ∃ as, M.run s as = some t := by
  constructor
  · intro h
    induction h with
    | refl => exact ⟨[], rfl⟩
    | tail _ hst ih =>
        obtain ⟨as, has⟩ := ih
        obtain ⟨a, -, ha⟩ := hst
        refine ⟨as ++ [a], ?_⟩
        rw [run_append, has, Option.bind_some, run_cons, ha]
        rfl
  · rintro ⟨as, h⟩
    exact reachable_of_run h

/-- The induction rule for a schedule and the state it runs to: what holds of
the empty schedule and is kept when an action is added holds of all. -/
theorem run_induction {P : List Act → State → Prop} {s : State}
    (h0 : P [] s)
    (hstep : ∀ as u a v, M.run s as = some u → P as u →
      M.step u a = some v → P (as ++ [a]) v)
    {as : List Act} {t : State} (h : M.run s as = some t) : P as t := by
  induction as using List.reverseRecOn generalizing t with
  | nil =>
      obtain rfl : s = t := by simpa using h
      exact h0
  | append_singleton as a ih =>
      rw [run_append, Option.bind_eq_some_iff] at h
      obtain ⟨u, hu, hlast⟩ := h
      rw [run_cons, Option.bind_eq_some_iff] at hlast
      obtain ⟨v, hv, hvt⟩ := hlast
      obtain rfl : v = t := by simpa using hvt
      exact hstep as u a v hu (ih hu) hv

/-- Run a schedule, checking `ok` before every step. -/
def runIf (M : Machine State Act) (ok : State → Act → Prop)
    [∀ s a, Decidable (ok s a)] (s : State) : List Act → Option State
  | [] => some s
  | a :: as =>
      if ok s a then (M.step s a).bind fun t => runIf M ok t as else none

/-- A checked schedule is a restricted run. -/
theorem reaches_of_runIf {ok : State → Act → Prop}
    [∀ s a, Decidable (ok s a)] {as : List Act} {s t : State}
    (h : M.runIf ok s as = some t) : M.Reaches ok s t := by
  induction as generalizing s with
  | nil =>
      obtain rfl : s = t := by simpa [runIf] using h
      exact Relation.ReflTransGen.refl
  | cons a as ih =>
      simp only [runIf, Option.ite_none_right_eq_some,
        Option.bind_eq_some_iff] at h
      obtain ⟨hok, u, hu, hrest⟩ := h
      exact Relation.ReflTransGen.head ⟨a, hok, hu⟩ (ih hrest)

/-- Every step of the schedule meets `ok`. -/
def Meets (M : Machine State Act) (ok : State → Act → Prop) :
    State → List Act → Prop
  | _, [] => True
  | s, a :: as => ok s a ∧ ∀ t, M.step s a = some t → Meets M ok t as

/-- A concatenated schedule meets `ok` when its parts do. -/
theorem meets_append {ok : State → Act → Prop} {as : List Act} {s t : State}
    (h : M.run s as = some t) (bs : List Act) :
    M.Meets ok s (as ++ bs) ↔ M.Meets ok s as ∧ M.Meets ok t bs := by
  induction as generalizing s with
  | nil =>
      obtain rfl : s = t := by simpa using h
      exact (iff_of_eq (true_and _)).symm
  | cons a as ih =>
      rw [run_cons, Option.bind_eq_some_iff] at h
      obtain ⟨u, hu, hrest⟩ := h
      have hnext : ∀ {p : State → Prop},
          (∀ v, M.step s a = some v → p v) ↔ p u := by
        intro p
        constructor
        · exact fun hall => hall u hu
        · intro hp v hv
          exact Option.some.inj (hu.symm.trans hv) ▸ hp
      rw [List.cons_append, Meets, Meets, hnext, hnext, ih hrest, and_assoc]

theorem meets_concat {ok : State → Act → Prop} {as : List Act} {s t : State}
    (h : M.run s as = some t) (a : Act) :
    M.Meets ok s (as ++ [a]) ↔ M.Meets ok s as ∧ ok t a := by
  rw [meets_append h, Meets]
  exact and_congr_right fun _ => and_iff_left fun _ _ => trivial

/-- Two conditions that agree where an invariant holds, and of which one keeps
it, are met by the same schedules. -/
theorem meets_congr {I : State → Prop} {p q : State → Act → Prop}
    (hpq : ∀ s a, I s → (p s a ↔ q s a))
    (hstep : ∀ s a t, I s → q s a → M.step s a = some t → I t)
    {s : State} (hs : I s) (as : List Act) :
    M.Meets p s as ↔ M.Meets q s as := by
  induction as generalizing s with
  | nil => exact Iff.rfl
  | cons a as ih =>
      rw [Meets, Meets, hpq s a hs]
      refine and_congr_right fun hq => ?_
      constructor
      · intro h t ht
        exact (ih (hstep s a t hs hq ht)).1 (h t ht)
      · intro h t ht
        exact (ih (hstep s a t hs hq ht)).2 (h t ht)

/-- A condition that holds of a step exactly if the step keeps `D` is met by
the schedules along which `D` always holds; `B` may help. -/
theorem meets_iff_always {B D : State → Prop} {p : State → Act → Prop}
    (hB : ∀ s a t, B s → D s → M.step s a = some t → B t)
    (hp : ∀ s a, B s → D s → (p s a ↔ ∀ t, M.step s a = some t → D t))
    {s : State} (hs : B s) (hd : D s) (as : List Act) :
    M.Meets p s as ↔ ∀ bs, bs <+: as → ∀ t, M.run s bs = some t → D t := by
  induction as generalizing s with
  | nil =>
      refine iff_of_true trivial fun bs hbs t ht => ?_
      rw [List.prefix_nil.1 hbs, run_nil, Option.some.injEq] at ht
      exact ht ▸ hd
  | cons a as ih =>
      rw [Meets, hp s a hs hd]
      constructor
      · rintro ⟨hstep, hrest⟩ bs hbs t ht
        cases bs with
        | nil =>
            rw [run_nil, Option.some.injEq] at ht
            exact ht ▸ hd
        | cons b bs =>
            obtain ⟨rfl, hbs'⟩ := List.cons_prefix_cons.1 hbs
            rw [run_cons, Option.bind_eq_some_iff] at ht
            obtain ⟨u, hu, ht⟩ := ht
            exact (ih (hB s b u hs hd hu) (hstep u hu)).1 (hrest u hu) bs
              hbs' t ht
      · intro hall
        have hstep : ∀ u, M.step s a = some u → D u := by
          intro u hu
          refine hall [a] (by simp) u ?_
          rw [run_cons, hu]
          rfl
        refine ⟨hstep, fun u hu => ?_⟩
        rw [ih (hB s a u hs hd hu) (hstep u hu)]
        intro bs hbs t ht
        refine hall (a :: bs) (List.cons_prefix_cons.2 ⟨rfl, hbs⟩) t ?_
        rw [run_cons, hu]
        exact ht

/-- Two conditions are met together. -/
theorem meets_and {p q : State → Act → Prop} {s : State} (as : List Act) :
    M.Meets (fun s a => p s a ∧ q s a) s as ↔
      M.Meets p s as ∧ M.Meets q s as := by
  induction as generalizing s with
  | nil => exact iff_of_true trivial ⟨trivial, trivial⟩
  | cons a as ih =>
      rw [Meets, Meets, Meets]
      constructor
      · rintro ⟨⟨hp, hq⟩, h⟩
        exact ⟨⟨hp, fun t ht => (ih.1 (h t ht)).1⟩, hq,
          fun t ht => (ih.1 (h t ht)).2⟩
      · rintro ⟨⟨hp, hps⟩, hq, hqs⟩
        exact ⟨⟨hp, hq⟩, fun t ht => ih.2 ⟨hps t ht, hqs t ht⟩⟩

/-- Two conditions that agree where an invariant holds, on schedules that
also meet a third. -/
theorem meets_congr_of {I : State → Prop} {d p q : State → Act → Prop}
    (hpq : ∀ s a, I s → d s a → (p s a ↔ q s a))
    (hstep : ∀ s a t, I s → d s a → q s a → M.step s a = some t → I t)
    {s : State} (hs : I s) {as : List Act} (hd : M.Meets d s as) :
    M.Meets p s as ↔ M.Meets q s as := by
  have hboth := meets_congr (p := fun s a => d s a ∧ p s a)
    (q := fun s a => d s a ∧ q s a)
    (fun s a hI => and_congr_right fun ha => hpq s a hI ha)
    (fun s a t hI ha hst => hstep s a t hI ha.1 ha.2 hst) hs as
  rwa [meets_and, meets_and, and_iff_right hd, and_iff_right hd] at hboth

/-- A checked schedule runs, and meets what is checked. -/
theorem meets_of_runIf {ok : State → Act → Prop}
    [∀ s a, Decidable (ok s a)] {as : List Act} {s t : State}
    (h : M.runIf ok s as = some t) : M.run s as = some t ∧ M.Meets ok s as := by
  induction as generalizing s with
  | nil => exact ⟨h, trivial⟩
  | cons a as ih =>
      simp only [runIf, Option.ite_none_right_eq_some,
        Option.bind_eq_some_iff] at h
      obtain ⟨hok, u, hu, hrest⟩ := h
      obtain ⟨hrun, hmeets⟩ := ih hrest
      refine ⟨by rw [run_cons, hu]; exact hrun, hok, ?_⟩
      intro v hv
      exact Option.some.inj (hu.symm.trans hv) ▸ hmeets

/-- Forward simulation: if related states answer every step by the same action
into related states, every run of the one is a run of the other. -/
theorem run_forward {State' : Type*} {A : Machine State Act}
    {B : Machine State' Act} {R : State → State' → Prop}
    (hstep : ∀ s t a s', R s t → A.step s a = some s' →
      ∃ t', B.step t a = some t' ∧ R s' t')
    {as : List Act} {s s' : State} {t : State'} (hR : R s t)
    (h : A.run s as = some s') : ∃ t', B.run t as = some t' ∧ R s' t' := by
  induction as generalizing s t with
  | nil =>
      obtain rfl : s = s' := by simpa using h
      exact ⟨t, rfl, hR⟩
  | cons a as ih =>
      rw [run_cons, Option.bind_eq_some_iff] at h
      obtain ⟨u, hu, hrest⟩ := h
      obtain ⟨v, hv, huv⟩ := hstep s t a u hR hu
      obtain ⟨t', ht', hlast⟩ := ih huv hrest
      exact ⟨t', by rw [run_cons, hv]; exact ht', hlast⟩

/-- **Lock-step simulation.**  If related states can always take the same
action into related states, every schedule runs on both machines and ends in
related states. -/
theorem run_simulation {State' : Type*} {A : Machine State Act}
    {B : Machine State' Act} {R : State → State' → Prop}
    (hstep : ∀ s t a, R s t → ∃ s' t',
      A.step s a = some s' ∧ B.step t a = some t' ∧ R s' t')
    (as : List Act) :
    ∀ s t, R s t → ∃ s' t',
      A.run s as = some s' ∧ B.run t as = some t' ∧ R s' t' := by
  induction as with
  | nil => intro s t h; exact ⟨s, t, rfl, rfl, h⟩
  | cons a as ih =>
      intro s t h
      obtain ⟨u, v, hu, hv, huv⟩ := hstep s t a h
      obtain ⟨s', t', hs', ht', hst'⟩ := ih u v huv
      refine ⟨s', t', ?_, ?_, hst'⟩
      · rw [run_cons, hu]; exact hs'
      · rw [run_cons, hv]; exact ht'

end Machine

end EspAdf.Verified
