import EspAdf.Ports.PipelineHandles

/-!
# Ring buffers that elements hold after they are destroyed

`audio_pipeline_unlink` destroys the ring buffers on `rb_list` and calls the
setters of the linked elements with `NULL`, meaning to clear their handles.
The setters do nothing for `NULL`, so the elements keep handles of destroyed
ring buffers (`unlink_dangles`).

No other operation destroys a ring buffer or hands out a destroyed one.
`no_dangling` says that nothing dangles as long as unlinking only happens
when no element holds a ring buffer on the list, and that one unlinking
without this leaves a dangling handle.
-/

namespace EspAdf.Ports.AudioPipeline

open EspAdf.Verified

/-- Every ring buffer that an element holds is one that was made and not
destroyed. -/
def NoDangling (p : Pipeline) : Prop :=
  ∀ el r, p.Holds el r → ∃ ring, p.rings[r]? = some ring ∧ ring.destroyed = 0

/-- When the call unlinks a linked pipeline, no element holds a ring buffer
on `rb_list`. -/
def CleanCall (p : Pipeline) (c : Call) : Prop :=
  c.unlinks = true → p.linked = true → ∀ el r, p.Holds el r → r ∉ p.handles

theorem noDangling_iff {p : Pipeline} (h : Listed p) :
    NoDangling p ↔ ∀ el r, p.Holds el r → p.destroyed r = 0 := by
  constructor
  · intro hno el r hheld
    rcases hno el r hheld with ⟨ring, hring, hzero⟩
    rw [Pipeline.destroyed, hring]
    exact hzero
  · intro hzero el r hheld
    have hlt : r < p.rings.length := h.made r (.inr ⟨el, hheld⟩)
    refine ⟨p.rings[r], List.getElem?_eq_getElem hlt, ?_⟩
    have := hzero el r hheld
    rw [Pipeline.destroyed, List.getElem?_eq_getElem hlt] at this
    exact this

theorem NoDangling.of_fresh {p : Pipeline} (h : Fresh p) : NoDangling p := by
  intro el r hheld
  have hlt : r < p.rings.length := by
    rcases hheld with hin | hout
    · exact h.input el r hin
    · exact h.output el r hout
  exact ⟨p.rings[r], List.getElem?_eq_getElem hlt,
    h.rings _ (List.getElem_mem hlt)⟩

/-- Handles that grow stay alive. -/
theorem NoDangling.grows {p q : Pipeline} (h : NoDangling p)
    (hlisted : Listed p) (hpq : Grows p q) : NoDangling q := by
  rw [noDangling_iff (hlisted.grows hpq)]
  intro el r hheld
  rw [hpq.destroyed]
  rcases hpq.holds el r hheld with (hlist | ⟨e, hold⟩) | hmade
  · exact hlisted.alive r hlist
  · exact (noDangling_iff hlisted).1 h e r hold
  · exact destroyed_of_new hmade.1

/-- Unlinking leaves nothing dangling exactly when no element holds a ring
buffer on the list. -/
theorem noDangling_unlink_iff {p : Pipeline} (h : NoDangling p)
    (hlisted : Listed p) (hlinked : p.linked = true) :
    NoDangling p.unlink.1 ↔ ∀ el r, p.Holds el r → r ∉ p.handles := by
  rw [noDangling_iff hlisted.unlink]
  have hholds : ∀ el r, p.unlink.1.Holds el r ↔ p.Holds el r :=
    fun el r => holds_of_els (unlink_els p) el r
  have hcount : ∀ el r, p.Holds el r →
      (p.unlink.1.destroyed r = 0 ↔ r ∉ p.handles) := by
    intro el r hheld
    have hzero := (noDangling_iff hlisted).1 h el r hheld
    rw [unlink_destroyed hlinked (hlisted.made r (.inr ⟨el, hheld⟩)), hzero,
      Nat.zero_add, List.count_eq_zero]
  constructor
  · intro hno el r hheld
    exact (hcount el r hheld).1 (hno el r ((hholds el r).2 hheld))
  · intro hno el r hheld
    have hheld' := (hholds el r).1 hheld
    exact (hcount el r hheld').2 (hno el r hheld')

theorem noDangling_afterUnlink_iff {p : Pipeline} (h : NoDangling p)
    (hlisted : Listed p) (c : Call) :
    NoDangling (p.afterUnlink c) ↔ CleanCall p c := by
  rw [Pipeline.afterUnlink, CleanCall]
  cases c.unlinks with
  | false => simp [h]
  | true =>
      rw [if_pos rfl]
      cases hlinked : p.linked with
      | false =>
          rw [unlink_of_unlinked hlinked]
          simp [h]
      | true =>
          rw [noDangling_unlink_iff h hlisted hlinked]
          simp

/-- One call, from a state where nothing dangles. -/
theorem noDangling_exec_iff {p : Pipeline} (h : NoDangling p)
    (hlisted : Listed p) (c : Call) :
    NoDangling (p.afterUnlink c) ∧ NoDangling (p.exec c).1 ↔
      CleanCall p c := by
  rw [← noDangling_afterUnlink_iff h hlisted c]
  constructor
  · exact fun hboth => hboth.1
  · exact fun hafter =>
      ⟨hafter, hafter.grows (hlisted.afterUnlink c) (exec_grows p c)⟩

/-- **No dangling ring buffer**, in any run whose calls are clean; and a call
from such a state leaves none, neither when its unlinking returns nor when it
returns itself, exactly when it is clean. -/
theorem no_dangling {p s : Pipeline} (hfresh : Fresh p)
    (hrun : pipelineMachine.Reaches CleanCall p s) :
    NoDangling s ∧ ∀ c, NoDangling (s.afterUnlink c) ∧
      NoDangling (s.exec c).1 ↔ CleanCall s c := by
  have hinv : NoDangling s ∧ Listed s := by
    refine hrun.invariant (I := fun u => NoDangling u ∧ Listed u)
      ⟨.of_fresh hfresh, .of_fresh hfresh⟩ ?_
    rintro u c v ⟨hno, hlisted⟩ hclean hs
    cases hs
    exact ⟨((noDangling_exec_iff hno hlisted c).2 hclean).2, hlisted.exec c⟩
  exact ⟨hinv.1, fun c => noDangling_exec_iff hinv.1 hinv.2 c⟩

/-- Two elements are registered and linked. -/
def linkTwo : List Call :=
  [.register 0 (some "a") .ok, .register 1 (some "b") .ok,
    .link ["a", "b"] fun _ => .ok]

theorem no_dangling_linkTwo : NoDangling (bare.execAll linkTwo) := by
  have hreaches : pipelineMachine.Reaches CleanCall bare
      (bare.execAll linkTwo) := by
    have hunlinked : ∀ p : Pipeline, p.linked = false → ∀ c, CleanCall p c :=
      fun p hp c _ hlinked => absurd (hp.symm.trans hlinked) (by simp)
    refine .tail (.tail (.tail .refl ⟨.register 0 (some "a") .ok, ?_, rfl⟩)
      ⟨.register 1 (some "b") .ok, ?_, rfl⟩)
      ⟨.link ["a", "b"] fun _ => .ok, ?_, rfl⟩
    · exact hunlinked _ rfl _
    · exact hunlinked _ (by decide +kernel) _
    · exact hunlinked _ (by decide +kernel) _
  exact (no_dangling fresh_bare hreaches).1

/-- After unlinking, element 0 still writes and element 1 still reads the
ring buffer that was destroyed. -/
theorem unlink_dangles :
    pipelineMachine.run bare (linkTwo ++ [.unlink]) =
      some (bare.execAll (linkTwo ++ [.unlink])) ∧
    (bare.execAll (linkTwo ++ [.unlink])).getOutputRingbuf 0 = some 0 ∧
    (bare.execAll (linkTwo ++ [.unlink])).getInputRingbuf 1 = some 0 ∧
    ¬NoDangling (bare.execAll (linkTwo ++ [.unlink])) := by
  refine ⟨run_execAll _ _, by decide +kernel, by decide +kernel, ?_⟩
  intro hno
  have hout : (bare.execAll (linkTwo ++ [.unlink])).getOutputRingbuf 0 =
    some 0 := by decide +kernel
  rcases hno 0 0 (.inr hout) with ⟨ring, hring, hzero⟩
  have hrings : (bare.execAll (linkTwo ++ [.unlink])).rings =
    [⟨8192, 1, 0⟩] := by decide +kernel
  rw [hrings] at hring
  cases hring
  cases hzero

end EspAdf.Ports.AudioPipeline
