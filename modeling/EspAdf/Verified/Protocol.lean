import Mathlib

/-!
# Event protocols

A party that reports events keeps to a **protocol** when what it has reported
is at every moment the beginning of words of a language `L`, one after the
other: a member of `Prefixed (L∗)`.  The state of such a party says which part
of the next word is behind it.  `Midway L w part` connects the two, and is kept
by two rules: an event is added to the part (`Midway.event`), and a part that
has become a word is done (`Midway.done`).

Two rules pass from the events of all parties to those of one:

* `prefixed_filterMap` — a part of the events keeps to the protocol of its
  words.
* `next_of_prefixed` — what follows an event in every word follows it in the
  events.

The module names nothing of the modelled repository.
-/

namespace EspAdf.Verified

open scoped Computability

variable {α β : Type*} {L : Language α}

/-- The beginnings of the words of a language. -/
def Prefixed (L : Language α) : Language α := {w | ∃ v ∈ L, w <+: v}

/-- What was reported is words of `L`, and then `part`. -/
def Midway (L : Language α) (w part : List α) : Prop :=
  ∃ u ∈ L∗, w = u ++ part

theorem append_mem_kstar {u v : List α} (hu : u ∈ L∗) (hv : v ∈ L) :
    u ++ v ∈ L∗ := by
  obtain ⟨S, rfl, hS⟩ := Language.mem_kstar.1 hu
  refine Language.mem_kstar.2 ⟨S ++ [v], by simp, ?_⟩
  intro y hy
  rcases List.mem_append.1 hy with hy | hy
  · exact hS y hy
  · exact List.mem_singleton.1 hy ▸ hv

namespace Midway

variable {w part : List α}

theorem nil : Midway L [] [] := ⟨[], Language.nil_mem_kstar L, rfl⟩

/-- One more event. -/
theorem event (h : Midway L w part) (e : α) :
    Midway L (w ++ [e]) (part ++ [e]) := by
  obtain ⟨u, hu, rfl⟩ := h
  exact ⟨u, hu, List.append_assoc ..⟩

/-- The part is a word. -/
theorem done (h : Midway L w part) (hpart : part ∈ L) : Midway L w [] := by
  obtain ⟨u, hu, rfl⟩ := h
  exact ⟨u ++ part, append_mem_kstar hu hpart, (List.append_nil _).symm⟩

/-- A part that can become a word keeps to the protocol. -/
theorem prefixed (h : Midway L w part) (hpart : part ∈ Prefixed L) :
    w ∈ Prefixed (L∗) := by
  obtain ⟨u, hu, rfl⟩ := h
  obtain ⟨v, hv, hle⟩ := hpart
  exact ⟨u ++ v, append_mem_kstar hu hv, (List.prefix_append_right_inj u).2 hle⟩

end Midway

/-- The events of one party, when each word of all leaves words of its own. -/
theorem prefixed_filterMap {L' : Language β} (f : α → Option β)
    (h : ∀ v ∈ L, v.filterMap f ∈ L'∗) {w : List α} (hw : w ∈ Prefixed (L∗)) :
    w.filterMap f ∈ Prefixed (L'∗) := by
  obtain ⟨u, hu, hle⟩ := hw
  refine ⟨u.filterMap f, ?_, hle.filterMap f⟩
  obtain ⟨S, rfl, hS⟩ := Language.mem_kstar.1 hu
  clear hu hle
  induction S with
  | nil => exact Language.nil_mem_kstar L'
  | cons v S ih =>
      obtain ⟨S', hS', hwords⟩ := Language.mem_kstar.1
        (ih fun y hy => hS y (List.mem_cons_of_mem v hy))
      obtain ⟨V, hV, hvs⟩ := Language.mem_kstar.1 (h v (hS v List.mem_cons_self))
      rw [List.flatten_cons, List.filterMap_append, hS', hV]
      refine Language.mem_kstar.2 ⟨V ++ S', List.flatten_append.symm, ?_⟩
      intro y hy
      exact (List.mem_append.1 hy).elim (hvs y) (hwords y)

/-- What follows `a` in every word follows it in a sequence of words. -/
theorem next_of_kstar {a : α} {p : α → Prop}
    (h : ∀ v ∈ L, ∀ x y, v = x ++ a :: y → ∃ b z, y = b :: z ∧ p b)
    {u : List α} (hu : u ∈ L∗) {x y : List α} (heq : u = x ++ a :: y) :
    ∃ b z, y = b :: z ∧ p b := by
  obtain ⟨S, rfl, hS⟩ := Language.mem_kstar.1 hu
  clear hu
  induction S generalizing x with
  | nil => simp at heq
  | cons v S ih =>
      have hrest := fun y hy => hS y (List.mem_cons_of_mem v hy)
      rw [List.flatten_cons, List.append_eq_append_iff] at heq
      rcases heq with ⟨x', -, hflat⟩ | ⟨v', hv, hflat⟩
      · exact ih hrest hflat
      · cases v' with
        | nil => exact ih hrest (x := []) hflat.symm
        | cons c v' =>
            obtain ⟨rfl, rfl⟩ := List.cons.inj hflat
            obtain ⟨b, z, rfl, hb⟩ := h v (hS v List.mem_cons_self) x v' hv
            exact ⟨b, z ++ S.flatten, rfl, hb⟩

theorem next_of_prefixed {a c : α} {p : α → Prop}
    (h : ∀ v ∈ L, ∀ x y, v = x ++ a :: y → ∃ b z, y = b :: z ∧ p b)
    {w : List α} (hw : w ∈ Prefixed (L∗)) {x y : List α}
    (heq : w = x ++ a :: c :: y) : p c := by
  obtain ⟨u, hu, v, hle⟩ := hw
  rw [heq, List.append_assoc] at hle
  obtain ⟨b, z, hz, hb⟩ := next_of_kstar h hu hle.symm
  exact (List.cons.inj hz).1 ▸ hb

end EspAdf.Verified
