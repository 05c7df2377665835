import EspAdf.Ports.PipelineHandles

/-!
# Whether every ring buffer is destroyed in the end

Every ring buffer that the pipeline makes goes on `rb_list`, and
`audio_pipeline_unlink` destroys what is there; so each is either listed and
alive, or destroyed once.  But unlinking does nothing unless `linked` is set,
and `audio_pipeline_relink`, `audio_pipeline_breakup_elements` and a failing
`audio_pipeline_link` leave ring buffers on the list of a pipeline that is
not linked (`relink_leaks`).

`unlink_conserves` proves that this is the only way to lose one: a final
unlinking destroys every ring buffer exactly once if and only if it finds
`linked` set or the list empty.
-/

namespace EspAdf.Ports.AudioPipeline

open EspAdf.Verified

/-! ## Every new ring buffer is listed -/

/-- As many ring buffers are made as handles put on the list. -/
def Balanced (p q : Pipeline) : Prop :=
  q.rings.length + p.handles.length = p.rings.length + q.handles.length

theorem Balanced.of_same {p q : Pipeline} (hrings : q.rings = p.rings)
    (hlist : q.handles = p.handles) : Balanced p q := by
  rw [Balanced, hrings, hlist]

theorem Balanced.refl (p : Pipeline) : Balanced p p := .of_same rfl rfl

theorem Balanced.trans {p q s : Pipeline} (h : Balanced p q)
    (h' : Balanced q s) : Balanced p s := by
  rw [Balanced] at h h' ⊢
  omega

theorem balanced_setInput (p : Pipeline) (el : ElHandle)
    (rb : Option RbHandle) : Balanced p (p.setInputRingbuf el rb) := by
  cases rb <;> exact .of_same rfl rfl

theorem balanced_setInputUnlessFirst (p : Pipeline) (i : Nat) (el : ElHandle)
    (rb : Option RbHandle) : Balanced p (p.setInputUnlessFirst i el rb) :=
  .of_same (setInputUnlessFirst_rings p i el rb)
    (setInputUnlessFirst_handles p i el rb)

theorem balanced_insertRb (p : Pipeline) (el : ElHandle) (item : RbItem) :
    Balanced p ((p.rbCreate el).insertRb item) := by
  simp only [Balanced, Pipeline.handles, Pipeline.rbCreate, Pipeline.insertRb,
    List.length_append, List.length_map, List.length_singleton]
  omega

theorem tagLoop_balanced
    {step : Nat → Option RbHandle → String → Pipeline → Iter}
    (hstep : ∀ i rb tag p, Balanced p (step i rb tag p).p)
    {tags : List String} :
    ∀ {i : Nat} {rb : Option RbHandle} {p : Pipeline},
      Balanced p (tagLoop step tags i rb p).1 := by
  induction tags with
  | nil => exact fun {_ _ p} => .refl p
  | cons tag tags ih =>
      intro i rb p
      simp only [tagLoop]
      split
      · exact (hstep i rb tag p).trans ih
      · exact hstep i rb tag p

theorem linkStep_balanced (mem : Nat → Mem) (linkNum i : Nat)
    (rb : Option RbHandle) (tag : String) (p : Pipeline) :
    Balanced p (linkStep mem linkNum i rb tag p).p := by
  cases hitem : p.getElItemByTag tag with
  | none =>
      simp only [linkStep, hitem]
      exact .refl p
  | some k =>
      simp only [linkStep, hitem]
      have hmark : Balanced p (p.modifyEl k fun item =>
          { item with linked := true, keptCtx := true }) := .of_same rfl rfl
      split
      · exact hmark.trans (balanced_setInput _ _ rb)
      · have hin := hmark.trans
          (balanced_setInputUnlessFirst _ i p.elList[k].el rb)
        split
        · exact hin
        · exact hin.trans (balanced_insertRb _ _ _)

theorem relinkStep_balanced (mem : Nat → Mem) (linkNum i : Nat)
    (rb : Option RbHandle) (tag : String) (p : Pipeline) :
    Balanced p (relinkStep mem linkNum i rb tag p).p := by
  cases hitem : p.getElItemByTag tag with
  | none =>
      simp only [relinkStep, hitem]
      exact .refl p
  | some k =>
      simp only [relinkStep, hitem]
      have hsame := relinkRb_same
        (p.modifyEl k fun item => { item with linked := true }) p.elList[k]
      generalize (p.modifyEl k fun item =>
        { item with linked := true }).relinkRb p.elList[k] = found at hsame ⊢
      rcases found with ⟨q, cur⟩
      have hq : Balanced p q := .of_same hsame.1 hsame.2.1
      simp only
      split
      · exact hq.trans (balanced_setInput _ _ rb)
      · cases cur with
        | some r =>
            exact hq.trans (balanced_setInputUnlessFirst q i _ rb)
        | none =>
            simp only
            split
            · exact hq
            · exact (hq.trans (balanced_insertRb q _ _)).trans
                (balanced_setInputUnlessFirst _ i _ rb)

theorem linkMoreLoop_balanced {mem : Nat → Mem}
    (hmem : ∀ i, mem i ≠ .noRbItem) {els : List ElHandle} :
    ∀ {i : Nat} {rb : Option RbHandle} {p : Pipeline},
      Balanced p (linkMoreLoop mem els i rb p).1 := by
  induction els with
  | nil => exact fun {_ _ p} => .of_same rfl rfl
  | cons el els ih =>
      intro i rb p
      simp only [linkMoreLoop]
      have hinsert : Balanced p (p.insertEl ⟨el, true, false⟩) :=
        .of_same rfl rfl
      split
      · exact .refl p
      · split
        · exact (hinsert.trans (balanced_setInput _ el rb)).trans ih
        · have hin := hinsert.trans (balanced_setInputUnlessFirst _ i el rb)
          split
          · exact hin
          · refine (hin.trans ?_).trans ih
            rw [Pipeline.addRb, if_neg (hmem i)]
            exact balanced_insertRb _ _ _

/-- The items for the ring buffers of `audio_pipeline_link_more` can be
allocated. -/
def ListsAll : Call → Prop
  | .linkMore _ mem => ∀ i, mem i ≠ .noRbItem
  | _ => True

theorem registerMore_balanced (mem : Nat → Mem) (els : List ElHandle) :
    ∀ (i : Nat) (p : Pipeline),
      Balanced p (Pipeline.registerMore mem els i p).1 := by
  induction els with
  | nil => exact fun _ p => .refl p
  | cons el els ih =>
      intro i p
      rw [Pipeline.registerMore]
      refine Balanced.trans ?_ (ih (i + 1) _)
      split <;> exact .of_same rfl rfl

theorem breakup_balanced (p : Pipeline) (keptEl : Option ElHandle) :
    Balanced p (p.breakupElements keptEl).1 := by
  rcases (breakup_grows p keptEl).handles with ⟨new, hnew, -, hmade⟩
  have hlength : (p.breakupElements keptEl).1.rings.length =
      p.rings.length := length_rbReset _ _
  cases new with
  | nil =>
      rw [Balanced, hnew, hlength, List.append_nil]
  | cons r new =>
      have := hmade r List.mem_cons_self
      rw [Made, hlength] at this
      omega

theorem exec_balanced (p : Pipeline) {c : Call} (hc : ListsAll c) :
    Balanced (p.afterUnlink c) (p.exec c).1 := by
  cases c with
  | register el name mem =>
      have huntag : Balanced p (p.unregister el).1 := by
        rw [Pipeline.unregister]
        split <;> exact .of_same rfl rfl
      show Balanced p (p.register el name mem).1
      rw [Pipeline.register]
      split
      · exact huntag.trans (.of_same rfl rfl)
      · exact huntag.trans (.of_same rfl rfl)
  | unregister el =>
      show Balanced p (p.unregister el).1
      rw [Pipeline.unregister]
      split <;> exact .of_same rfl rfl
  | registerMore els mem => exact registerMore_balanced mem els 0 p
  | link linkTag mem =>
      show Balanced p.unlink.1 (p.link linkTag mem).1
      rw [Pipeline.link, unlink_if_linked]
      have hloop : Balanced p.unlink.1 (tagLoop (linkStep mem linkTag.length)
          linkTag 0 none p.unlink.1).1 :=
        tagLoop_balanced (linkStep_balanced mem linkTag.length)
      generalize tagLoop (linkStep mem linkTag.length) linkTag 0 none
        p.unlink.1 = result at hloop ⊢
      rcases result with ⟨q, err⟩
      simp only at hloop ⊢
      split
      · exact hloop.trans (.of_same rfl rfl)
      · exact hloop
  | linkMore els mem =>
      show Balanced p.unlink.1 (p.linkMore els mem).1
      rw [Pipeline.linkMore, unlink_if_linked]
      exact linkMoreLoop_balanced hc
  | unlink => exact .refl p.unlink.1
  | breakupElements keptEl => exact breakup_balanced p keptEl
  | relink linkTag mem =>
      show Balanced p (p.relink linkTag mem).1
      rw [Pipeline.relink]
      split
      · exact .refl p
      · exact tagLoop_balanced (relinkStep_balanced mem linkTag.length)

/-- When handles grow in balance, every ring buffer that was made is on the
list. -/
theorem mem_of_balanced {p q : Pipeline} (hgrows : Grows p q)
    (hbal : Balanced p q) {r : Nat} (hr : Made p q r) : r ∈ q.handles := by
  rcases hgrows.handles with ⟨new, hnew, hnodup, hmade⟩
  have hlength : new.length = q.rings.length - p.rings.length := by
    have := hgrows.length
    rw [Balanced, hnew, List.length_append] at hbal
    omega
  have hsub : new ⊆ List.range' p.rings.length
      (q.rings.length - p.rings.length) := by
    intro a ha
    have := hmade a ha
    rw [Made] at this
    rw [List.mem_range'_1]
    omega
  have hperm : new.Perm (List.range' p.rings.length
      (q.rings.length - p.rings.length)) := by
    apply (hnodup.subperm hsub).perm_of_length_le
    rw [List.length_range', hlength]
  rw [hnew]
  apply List.mem_append_right
  rw [hperm.mem_iff, List.mem_range'_1]
  rw [Made] at hr
  omega

/-! ## What holds in every run -/

/-- Of the ring buffers from number `n` on, those that are not on the list
were destroyed exactly once. -/
structure Conserves (n : Nat) (p : Pipeline) : Prop where
  listed : Listed p
  from_le : n ≤ p.rings.length
  once : ∀ r : Nat, n ≤ r → r < p.rings.length → r ∉ p.handles →
    p.destroyed r = 1

theorem Conserves.of_fresh {p : Pipeline} (h : Fresh p) :
    Conserves p.rings.length p where
  listed := .of_fresh h
  from_le := Nat.le_refl _
  once := by
    intro r hle hlt
    omega

theorem Conserves.unlink {n : Nat} {p : Pipeline} (h : Conserves n p) :
    Conserves n p.unlink.1 := by
  cases hl : p.linked with
  | false =>
      rw [unlink_of_unlinked hl]
      exact h
  | true =>
      refine ⟨h.listed.unlink, by rw [unlink_rings_length]; exact h.from_le, ?_⟩
      intro r hle hlt _
      rw [unlink_rings_length] at hlt
      rw [unlink_destroyed hl hlt]
      by_cases hmem : r ∈ p.handles
      · rw [h.listed.alive r hmem,
          List.count_eq_one_of_mem h.listed.nodup hmem]
      · rw [h.once r hle hlt hmem, List.count_eq_zero_of_not_mem hmem]

theorem Conserves.exec {n : Nat} {p : Pipeline} (h : Conserves n p)
    {c : Call} (hc : ListsAll c) : Conserves n (p.exec c).1 := by
  have hafter : Conserves n (p.afterUnlink c) := by
    rw [Pipeline.afterUnlink]
    split
    · exact h.unlink
    · exact h
  have hgrows := exec_grows p c
  refine ⟨hafter.listed.grows hgrows,
    Nat.le_trans hafter.from_le hgrows.length, ?_⟩
  intro r hle hlt hmem
  by_cases hold : r < (p.afterUnlink c).rings.length
  · rw [hgrows.destroyed]
    apply hafter.once r hle hold
    intro hin
    rcases hgrows.handles with ⟨new, hnew, -, -⟩
    apply hmem
    rw [hnew]
    exact List.mem_append_left _ hin
  · exact absurd (mem_of_balanced hgrows (exec_balanced p hc)
      ⟨Nat.not_lt.1 hold, hlt⟩) hmem

/-! ## The result -/

/-- **Conservation.**  After any run, a final unlinking leaves the list empty
and every ring buffer that the pipeline made destroyed exactly once, if and
only if it finds the pipeline linked or the list empty. -/
theorem unlink_conserves {p s : Pipeline} (hfresh : Fresh p)
    (hrun : pipelineMachine.Reaches (fun _ c => ListsAll c) p s) :
    s.unlink.2 = ESP_OK ∧
    ((s.unlink.1.rbList = [] ∧
      ∀ r, p.rings.length ≤ r → r < s.unlink.1.rings.length →
        s.unlink.1.destroyed r = 1) ↔ s.linked = true ∨ s.rbList = []) := by
  have hinv : Conserves p.rings.length s := by
    refine hrun.invariant (Conserves.of_fresh hfresh) ?_
    intro u c v hu hc hs
    cases hs
    exact hu.exec hc
  constructor
  · rw [Pipeline.unlink]
    split <;> rfl
  · constructor
    · rintro ⟨hempty, -⟩
      cases hl : s.linked with
      | true => exact .inl rfl
      | false =>
          rw [unlink_of_unlinked hl] at hempty
          exact .inr hempty
    · intro hor
      have hempty : s.unlink.1.rbList = [] := by
        cases hl : s.linked with
        | true => rw [unlink_of_linked hl]
        | false =>
            rw [unlink_of_unlinked hl]
            exact hor.resolve_left (by rw [hl]; simp)
      refine ⟨hempty, fun r hle hlt => ?_⟩
      apply hinv.unlink.once r hle hlt
      rw [Pipeline.handles, hempty]
      simp

/-- Linked, broken up and relinked. -/
def linkAndRelink : List Call :=
  [.register 0 (some "a") .ok, .register 1 (some "b") .ok,
    .link ["a", "b"] fun _ => .ok, .breakupElements none,
    .relink ["a", "b"] fun _ => .ok]

/-- Linked twice, the second time in another order. -/
def linkBothWays : List Call :=
  [.register 0 (some "a") .ok, .register 1 (some "b") .ok,
    .link ["a", "b"] fun _ => .ok, .link ["b", "a"] fun _ => .ok]

theorem unlink_conserves_linkBothWays :
    (bare.execAll linkBothWays).unlink.1.rbList = [] ∧
      (bare.execAll linkBothWays).unlink.1.destroyed 0 = 1 ∧
      (bare.execAll linkBothWays).unlink.1.destroyed 1 = 1 := by
  have hall : ∀ c ∈ linkBothWays, ListsAll c := by
    intro c hc
    simp only [linkBothWays, List.mem_cons, List.not_mem_nil, or_false] at hc
    rcases hc with rfl | rfl | rfl | rfl <;> exact trivial
  rcases (unlink_conserves fresh_bare
    (reaches_execAll bare linkBothWays hall)).2.2 (.inl (by decide +kernel))
    with ⟨hempty, honce⟩
  exact ⟨hempty, honce 0 (Nat.zero_le 0) (by decide +kernel),
    honce 1 (Nat.zero_le 1) (by decide +kernel)⟩

/-- After a relink the pipeline does not count as linked: unlinking returns
`ESP_OK` and destroys nothing. -/
theorem relink_leaks :
    pipelineMachine.run bare linkAndRelink =
      some (bare.execAll linkAndRelink) ∧
    ((bare.execAll (linkAndRelink.take 4)).relink ["a", "b"]
      fun _ => .ok).2 = ESP_OK ∧
    (bare.execAll linkAndRelink).unlink.2 = ESP_OK ∧
    (bare.execAll linkAndRelink).unlink.1.handles = [0] ∧
    (bare.execAll linkAndRelink).unlink.1.destroyed 0 = 0 :=
  ⟨run_execAll _ _, by decide +kernel, by decide +kernel, by decide +kernel,
    by decide +kernel⟩

end EspAdf.Ports.AudioPipeline
