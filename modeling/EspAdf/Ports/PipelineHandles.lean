import EspAdf.Ports.PipelineChain

/-!
# The ring buffer handles of a pipeline

The elements hold ring buffers as input and output, and `rb_list` lists those
the pipeline owns.  Every operation but `audio_pipeline_unlink` destroys
nothing, puts only new ring buffers on the list, and gives the elements only
ring buffers that were in use before or are new: it makes the handles *grow*.
`audio_pipeline_unlink` destroys the ring buffers on the list and leaves the
elements as they are.
-/

namespace EspAdf.Ports.AudioPipeline

open EspAdf.Verified

/-! ## Handles in use -/

/-- An element reads or writes the ring buffer. -/
def Pipeline.Holds (p : Pipeline) (el : ElHandle) (r : RbHandle) : Prop :=
  p.getInputRingbuf el = some r ∨ p.getOutputRingbuf el = some r

/-- The handles on `rb_list`. -/
def Pipeline.handles (p : Pipeline) : List RbHandle := p.rbList.map RbItem.rb

/-- The ring buffer is on `rb_list` or held by an element. -/
def Pipeline.Uses (p : Pipeline) (r : RbHandle) : Prop :=
  r ∈ p.handles ∨ ∃ el, p.Holds el r

/-- How often a ring buffer was destroyed. -/
def Pipeline.destroyed (p : Pipeline) (r : RbHandle) : Nat :=
  match p.rings[r]? with
  | some ring => ring.destroyed
  | none => 0

/-- The ring buffer was made between the pipelines `p` and `q`. -/
def Made (p q : Pipeline) (r : Nat) : Prop :=
  p.rings.length ≤ r ∧ r < q.rings.length

theorem Made.mono_left {p q s : Pipeline} {r : Nat} (h : Made q s r)
    (hle : p.rings.length ≤ q.rings.length) : Made p s r :=
  ⟨Nat.le_trans hle h.1, h.2⟩

theorem Made.mono_right {p q s : Pipeline} {r : Nat} (h : Made p q r)
    (hle : q.rings.length ≤ s.rings.length) : Made p s r :=
  ⟨h.1, Nat.lt_of_lt_of_le h.2 hle⟩

/-- What an operation other than unlinking does to the handles. -/
structure Grows (p q : Pipeline) : Prop where
  length : p.rings.length ≤ q.rings.length
  destroyed : ∀ r, q.destroyed r = p.destroyed r
  handles : ∃ new, q.handles = p.handles ++ new ∧ new.Nodup ∧
    ∀ r ∈ new, Made p q r
  holds : ∀ el r, q.Holds el r → p.Uses r ∨ Made p q r

theorem Grows.uses {p q : Pipeline} (h : Grows p q) {r : RbHandle}
    (hr : q.Uses r) : p.Uses r ∨ Made p q r := by
  rcases hr with hlist | ⟨el, hholds⟩
  · rcases h.handles with ⟨new, hnew, -, hrange⟩
    rw [hnew, List.mem_append] at hlist
    rcases hlist with hold | hnew
    · exact .inl (.inl hold)
    · exact .inr (hrange r hnew)
  · exact h.holds el r hholds

/-- Nothing is destroyed, listed or handed out. -/
theorem Grows.of_same {p q : Pipeline} (hrings : q.rings = p.rings)
    (hlist : q.handles = p.handles)
    (hholds : ∀ el r, q.Holds el r → p.Holds el r) : Grows p q where
  length := Nat.le_of_eq (congrArg List.length hrings.symm)
  destroyed := fun r => by rw [Pipeline.destroyed, Pipeline.destroyed, hrings]
  handles := ⟨[], by rw [hlist, List.append_nil], by simp, by simp⟩
  holds := fun el r h => .inl (.inr ⟨el, hholds el r h⟩)

theorem Grows.refl (p : Pipeline) : Grows p p := .of_same rfl rfl fun _ _ => id

theorem Grows.trans {p q s : Pipeline} (h : Grows p q) (h' : Grows q s) :
    Grows p s where
  length := Nat.le_trans h.length h'.length
  destroyed := fun r => (h'.destroyed r).trans (h.destroyed r)
  handles := by
    rcases h.handles with ⟨new, hnew, hnodup, hrange⟩
    rcases h'.handles with ⟨new', hnew', hnodup', hrange'⟩
    refine ⟨new ++ new', ?_, ?_, ?_⟩
    · rw [hnew', hnew, List.append_assoc]
    · apply List.nodup_append.2 ⟨hnodup, hnodup', ?_⟩
      intro a ha b hb heq
      subst heq
      exact Nat.not_lt.2 (hrange' a hb).1 (hrange a ha).2
    · intro r hr
      rcases List.mem_append.1 hr with hr | hr
      · exact (hrange r hr).mono_right h'.length
      · exact (hrange' r hr).mono_left h.length
  holds := by
    intro el r hr
    rcases h'.holds el r hr with huses | hnew
    · rcases h.uses huses with hold | hnew
      · exact .inl hold
      · exact .inr (hnew.mono_right h'.length)
    · exact .inr (hnew.mono_left h.length)

/-- Only the elements' marks and tags change. -/
theorem grows_modifyEl (p : Pipeline) (k : Nat) (f : ElItem → ElItem) :
    Grows p (p.modifyEl k f) := .of_same rfl rfl fun _ _ => id

theorem grows_insertEl (p : Pipeline) (item : ElItem) :
    Grows p (p.insertEl item) := .of_same rfl rfl fun _ _ => id

theorem grows_setTag (p : Pipeline) (el : ElHandle) (tag : Option String) :
    Grows p (p.setTag el tag) := by
  refine .of_same rfl rfl fun e r h => ?_
  rw [Pipeline.Holds, Pipeline.getInputRingbuf, Pipeline.getOutputRingbuf,
    Pipeline.setTag] at h
  by_cases he : e = el
  · rw [he, updateEl_self] at h
    rw [he]
    exact h
  · rw [updateEl_ne he] at h
    exact h

theorem handles_modifyRb (p : Pipeline) (k : Nat) {f : RbItem → RbItem}
    (hf : ∀ item, (f item).rb = item.rb) :
    (p.modifyRb k f).handles = p.handles :=
  map_modify_same hf p.rbList k

/-- An element is given a ring buffer in use to read. -/
theorem grows_setInput {p : Pipeline} {el : ElHandle} {rb : Option RbHandle}
    (hrb : ∀ r, rb = some r → p.Uses r) :
    Grows p (p.setInputRingbuf el rb) := by
  cases rb with
  | none => exact .refl p
  | some r =>
      refine ⟨Nat.le_refl _, fun _ => rfl,
        (Grows.refl p).handles, fun e r' h => .inl ?_⟩
      by_cases he : e = el
      · rw [he, Pipeline.Holds, getInput_setInput, getOutput_setInput] at h
        rcases h with hin | hout
        · cases hin
          exact hrb r rfl
        · exact .inr ⟨el, .inr hout⟩
      · rw [Pipeline.Holds, getInput_of_els (setInput_ne he _),
          getOutput_of_els (setInput_ne he _)] at h
        exact .inr ⟨e, h⟩

/-- An element is given a ring buffer in use to write. -/
theorem grows_setOutput {p : Pipeline} {el : ElHandle} {r : RbHandle}
    (hr : p.Uses r) : Grows p (p.setOutputRingbuf el (some r)) := by
  refine ⟨Nat.le_refl _, fun _ => rfl,
    (Grows.refl p).handles, fun e r' h => .inl ?_⟩
  by_cases he : e = el
  · rw [he, Pipeline.Holds, getInput_setOutput, getOutput_setOutput] at h
    rcases h with hin | hout
    · exact .inr ⟨el, .inl hin⟩
    · cases hout
      exact hr
  · rw [Pipeline.Holds, getInput_of_els (setOutput_ne he _),
      getOutput_of_els (setOutput_ne he _)] at h
    exact .inr ⟨e, h⟩

theorem destroyed_rbCreate (p : Pipeline) (el : ElHandle) (r : Nat) :
    (p.rbCreate el).destroyed r = p.destroyed r := by
  rw [Pipeline.destroyed, Pipeline.destroyed, Pipeline.rbCreate]
  by_cases hlt : r < p.rings.length
  · rw [List.getElem?_append_left hlt]
  · rw [List.getElem?_append_right (by omega),
      List.getElem?_eq_none (l := p.rings) (by omega)]
    cases r - p.rings.length <;> rfl

/-- A new ring buffer that goes on the list. -/
theorem grows_insertRb (p : Pipeline) (el : ElHandle) {item : RbItem}
    (hitem : item.rb = p.rings.length) :
    Grows p ((p.rbCreate el).insertRb item) where
  length := by simp [Pipeline.rbCreate, Pipeline.insertRb]
  destroyed := destroyed_rbCreate p el
  handles := by
    refine ⟨[item.rb], ?_, by simp, ?_⟩
    · simp [Pipeline.handles, Pipeline.rbCreate, Pipeline.insertRb]
    · intro r hr
      obtain rfl : r = item.rb := by simpa using hr
      simp [Made, Pipeline.rbCreate, Pipeline.insertRb, hitem]
  holds := fun e r h => .inl (.inr ⟨e, h⟩)

/-- A new ring buffer for which an element is given the output. -/
theorem grows_newOutput {p q : Pipeline} {el : ElHandle} {r : RbHandle}
    (h : Grows p q) (hr : Made p q r) :
    Grows p (q.setOutputRingbuf el (some r)) := by
  refine ⟨h.length, h.destroyed, h.handles, fun e r' hholds => ?_⟩
  by_cases he : e = el
  · rw [he, Pipeline.Holds, getInput_setOutput, getOutput_setOutput] at hholds
    rcases hholds with hin | hout
    · exact h.holds el r' (.inl hin)
    · cases hout
      exact .inr hr
  · rw [Pipeline.Holds, getInput_of_els (setOutput_ne he _),
      getOutput_of_els (setOutput_ne he _)] at hholds
    exact h.holds e r' hholds

/-! ## The loops -/

/-- The ring buffer for the next element, if any, is in use. -/
def Passes (p : Pipeline) (rb : Option RbHandle) : Prop :=
  ∀ r, rb = some r → p.Uses r

/-- An iteration makes the handles grow, and passes on one in use. -/
def StepGrows (step : Nat → Option RbHandle → String → Pipeline → Iter) :
    Prop :=
  ∀ i rb tag p, Passes p rb → Grows p (step i rb tag p).p ∧
    ((step i rb tag p).err = ESP_OK →
      Passes (step i rb tag p).p (step i rb tag p).rb)

theorem tagLoop_grows
    {step : Nat → Option RbHandle → String → Pipeline → Iter}
    (hstep : StepGrows step) {tags : List String} :
    ∀ {i : Nat} {rb : Option RbHandle} {p : Pipeline}, Passes p rb →
      Grows p (tagLoop step tags i rb p).1 := by
  induction tags with
  | nil =>
      intro i rb p _
      exact .refl p
  | cons tag tags ih =>
      intro i rb p hrb
      rcases hstep i rb tag p hrb with ⟨hgrows, hpasses⟩
      simp only [tagLoop]
      split
      · rename_i herr
        exact hgrows.trans (ih (hpasses herr))
      · exact hgrows

theorem passes_setInput (p : Pipeline) (el : ElHandle)
    (rb : Option RbHandle) : Passes (p.setInputRingbuf el rb) rb := by
  rintro r rfl
  exact .inr ⟨el, .inl (getInput_setInput p el r)⟩

theorem passes_setOutput (p : Pipeline) (el : ElHandle) (r : RbHandle) :
    Passes (p.setOutputRingbuf el (some r)) (some r) := by
  intro r' hr
  cases hr
  exact .inr ⟨el, .inr (getOutput_setOutput p el r)⟩

theorem grows_setInputUnlessFirst {p : Pipeline} (i : Nat) (el : ElHandle)
    {rb : Option RbHandle} (hrb : Passes p rb) :
    Grows p (p.setInputUnlessFirst i el rb) := by
  rw [Pipeline.setInputUnlessFirst]
  split
  · exact .refl p
  · exact grows_setInput hrb

/-- A new ring buffer, on the list or not, is the output of an element. -/
theorem grows_rbCreate_output (p : Pipeline) {q : Pipeline} {el : ElHandle}
    (hq : Grows p q) (hlength : q.rings.length = p.rings.length + 1) :
    Grows p (q.setOutputRingbuf el (some p.rings.length)) :=
  grows_newOutput hq ⟨Nat.le_refl _, by rw [hlength]; exact Nat.lt_succ_self _⟩

theorem setInputUnlessFirst_rings (p : Pipeline) (i : Nat) (el : ElHandle)
    (rb : Option RbHandle) : (p.setInputUnlessFirst i el rb).rings = p.rings := by
  rw [Pipeline.setInputUnlessFirst]
  split
  · rfl
  · cases rb <;> rfl

theorem passes_insertRb {p : Pipeline} {rb : Option RbHandle}
    (hrb : Passes p rb) (el : ElHandle) (item : RbItem) :
    Passes ((p.rbCreate el).insertRb item) rb := by
  intro r hr
  rcases hrb r hr with hlist | hheld
  · apply Or.inl
    rw [Pipeline.handles, Pipeline.insertRb, List.map_append]
    exact List.mem_append_left _ hlist
  · exact .inr hheld

/-- `add_rb_to_audio_pipeline` may fail to list the new ring buffer. -/
theorem grows_addRb (p : Pipeline) (el : ElHandle) (mem : Mem) :
    Grows p ((p.rbCreate el).addRb p.rings.length el mem) := by
  rw [Pipeline.addRb]
  split
  · refine ⟨?_, destroyed_rbCreate p el, (Grows.refl p).handles.imp ?_,
      fun e r h => .inl (.inr ⟨e, h⟩)⟩
    · simp [Pipeline.rbCreate]
    · rintro new ⟨hlist, hnodup, hmade⟩
      exact ⟨hlist, hnodup, fun r hr =>
        (hmade r hr).mono_right (by simp [Pipeline.rbCreate])⟩
  · exact grows_insertRb p el rfl

theorem linkStep_grows (mem : Nat → Mem) (linkNum : Nat) :
    StepGrows (linkStep mem linkNum) := by
  intro i rb tag p hrb
  cases hitem : p.getElItemByTag tag with
  | none =>
      simp only [linkStep, hitem]
      exact ⟨.refl p, fun herr => by cases herr⟩
  | some k =>
      simp only [linkStep, hitem]
      have hmark := grows_modifyEl p k
        fun item => { item with linked := true, keptCtx := true }
      have hrb' : Passes (p.modifyEl k fun item =>
          { item with linked := true, keptCtx := true }) rb := hrb
      split
      · exact ⟨hmark.trans (grows_setInput hrb'),
          fun _ => passes_setInput _ _ rb⟩
      · have hin := hmark.trans
          (grows_setInputUnlessFirst i p.elList[k].el hrb')
        split
        · exact ⟨hin, fun herr => by cases herr⟩
        · refine ⟨hin.trans ?_, fun _ => passes_setOutput _ _ _⟩
          apply grows_rbCreate_output
          · exact grows_insertRb _ _ rfl
          · simp [Pipeline.rbCreate, Pipeline.insertRb]

/-- Only the marks on `rb_list` change. -/
theorem relinkRb_same (p : Pipeline) (item : ElItem) :
    (p.relinkRb item).1.rings = p.rings ∧
      (p.relinkRb item).1.handles = p.handles ∧
      (p.relinkRb item).1.els = p.els := by
  rw [Pipeline.relinkRb]
  split
  · exact ⟨rfl, handles_modifyRb p _ fun _ => rfl, rfl⟩
  · exact ⟨rfl, rfl, rfl⟩

/-- The ring buffer that is found is on the list. -/
theorem relinkRb_mem {p : Pipeline} {item : ElItem} {r : RbHandle}
    (h : (p.relinkRb item).2 = some r) : r ∈ p.handles := by
  rw [Pipeline.relinkRb] at h
  split at h
  · rename_i k _
    cases h
    exact List.mem_map_of_mem (List.getElem_mem k.isLt)
  · cases h

theorem holds_of_els {p q : Pipeline} (h : q.els = p.els) (el : ElHandle)
    (r : RbHandle) : q.Holds el r ↔ p.Holds el r := by
  rw [Pipeline.Holds, Pipeline.Holds, getInput_of_els (congrFun h el),
    getOutput_of_els (congrFun h el)]

theorem setInputUnlessFirst_handles (p : Pipeline) (i : Nat) (el : ElHandle)
    (rb : Option RbHandle) :
    (p.setInputUnlessFirst i el rb).handles = p.handles := by
  rw [Pipeline.setInputUnlessFirst]
  split
  · rfl
  · cases rb <;> rfl

theorem relinkStep_grows (mem : Nat → Mem) (linkNum : Nat) :
    StepGrows (relinkStep mem linkNum) := by
  intro i rb tag p hrb
  cases hitem : p.getElItemByTag tag with
  | none =>
      simp only [relinkStep, hitem]
      exact ⟨.refl p, fun herr => by cases herr⟩
  | some k =>
      simp only [relinkStep, hitem]
      have hsame := relinkRb_same
        (p.modifyEl k fun item => { item with linked := true }) p.elList[k]
      have hmem := @relinkRb_mem
        (p.modifyEl k fun item => { item with linked := true }) p.elList[k]
      generalize hfound : (p.modifyEl k fun item =>
        { item with linked := true }).relinkRb p.elList[k] = found
        at hsame hmem ⊢
      rcases found with ⟨q, cur⟩
      rcases hsame with ⟨hrings, hlist, hels⟩
      have hq : Grows p q :=
        .of_same hrings hlist fun el r => (holds_of_els hels el r).1
      have hrb' : Passes q rb := by
        intro r hr
        rcases hrb r hr with hin | ⟨el, hheld⟩
        · exact .inl (by rw [hlist]; exact hin)
        · exact .inr ⟨el, (holds_of_els hels el r).2 hheld⟩
      simp only
      split
      · exact ⟨hq.trans (grows_setInput hrb'), fun _ => passes_setInput _ _ rb⟩
      · cases cur with
        | some r =>
            refine ⟨(hq.trans (grows_setInputUnlessFirst _ _ hrb')).trans
              (grows_setOutput (.inl ?_)), fun _ => passes_setOutput _ _ _⟩
            rw [setInputUnlessFirst_handles, hlist]
            exact hmem rfl
        | none =>
            simp only
            split
            · exact ⟨hq, fun herr => by cases herr⟩
            · refine ⟨hq.trans ?_, fun _ => passes_setOutput _ _ _⟩
              apply grows_rbCreate_output
              · exact (grows_insertRb q _ rfl).trans
                  (grows_setInputUnlessFirst _ _ (passes_insertRb hrb' _ _))
              · rw [setInputUnlessFirst_rings]
                simp [Pipeline.rbCreate, Pipeline.insertRb]

theorem linkMoreLoop_grows (mem : Nat → Mem) {els : List ElHandle} :
    ∀ {i : Nat} {rb : Option RbHandle} {p : Pipeline}, Passes p rb →
      Grows p (linkMoreLoop mem els i rb p).1 := by
  induction els with
  | nil =>
      intro i rb p _
      exact .of_same rfl rfl fun _ _ => id
  | cons el els ih =>
      intro i rb p hrb
      simp only [linkMoreLoop]
      split
      · exact .refl p
      · have hinsert := grows_insertEl p ⟨el, true, false⟩
        have hrb' : Passes (p.insertEl ⟨el, true, false⟩) rb := hrb
        split
        · exact (hinsert.trans (grows_setInput hrb')).trans
            (ih (passes_setInput _ el rb))
        · have hin := hinsert.trans
            (grows_setInputUnlessFirst i el hrb')
          split
          · exact hin
          · refine (hin.trans ?_).trans (ih (passes_setOutput _ el _))
            apply grows_rbCreate_output
            · exact grows_addRb _ el _
            · simp only [Pipeline.addRb]
              split <;> simp [Pipeline.rbCreate, Pipeline.insertRb]

/-! ## The calls -/

theorem unregister_grows (p : Pipeline) (el : ElHandle) :
    Grows p (p.unregister el).1 := by
  have htag := grows_setTag p el none
  rw [Pipeline.unregister]
  split
  · exact htag.trans (.of_same rfl rfl fun _ _ => id)
  · exact htag

theorem register_grows (p : Pipeline) (el : ElHandle) (name : Option String)
    (mem : Mem) : Grows p (p.register el name mem).1 := by
  have htag := (unregister_grows p el).trans
    (grows_setTag (p.unregister el).1 el name)
  rw [Pipeline.register]
  split
  · exact htag
  · exact htag.trans (grows_insertEl _ _)

theorem registerMore_grows (mem : Nat → Mem) (els : List ElHandle) :
    ∀ (i : Nat) (p : Pipeline), Grows p (Pipeline.registerMore mem els i p).1 := by
  induction els with
  | nil => exact fun _ p => .refl p
  | cons el els ih =>
      intro i p
      rw [Pipeline.registerMore]
      refine Grows.trans ?_ (ih (i + 1) _)
      split
      · exact .refl p
      · exact grows_insertEl p _

/-- The marks of `rb_list` change while breaking up, its handles do not. -/
theorem breakupItem_handles (keptEl : Option ElHandle)
    (output : Option RbHandle) (item : ElItem) (b : Breakup) :
    (breakupItem keptEl output item b).2.rbs.map RbItem.rb =
      b.rbs.map RbItem.rb := by
  have hmodify : ∀ (k : Nat) (kept : Bool),
      (b.rbs.modify k (setKept kept)).map RbItem.rb = b.rbs.map RbItem.rb :=
    fun k kept =>
      map_modify_same (f := setKept kept) (fun _ => rfl) b.rbs k
  unfold breakupItem
  split
  · rfl
  · split
    · split
      · rfl
      · rfl
      · split
        · rfl
        · exact hmodify _ _
    · split
      · rfl
      · split
        · rfl
        · exact hmodify _ _

theorem breakupLoop_handles (p : Pipeline) (keptEl : Option ElHandle)
    (items : List ElItem) (b : Breakup) :
    (breakupLoop p keptEl items b).2.rbs.map RbItem.rb =
      b.rbs.map RbItem.rb := by
  induction items generalizing b with
  | nil => rfl
  | cons item items ih =>
      simp only [breakupLoop]
      rw [ih, breakupItem_handles]

theorem length_rbReset (rs : List RbHandle) (rings : List Ring) :
    (rs.foldl rbReset rings).length = rings.length := by
  induction rs generalizing rings with
  | nil => rfl
  | cons r rs ih => rw [List.foldl_cons, ih, rbReset, List.length_modify]

/-- Resetting does not destroy. -/
theorem destroyed_rbReset (rs : List RbHandle) (rings : List Ring) (s : Nat) :
    ((rs.foldl rbReset rings)[s]?).map Ring.destroyed =
      (rings[s]?).map Ring.destroyed := by
  induction rs generalizing rings with
  | nil => rfl
  | cons r rs ih =>
      rw [List.foldl_cons, ih, rbReset, List.getElem?_modify]
      cases rings[s]? with
      | none => rfl
      | some ring =>
          simp only [Option.map_some]
          split <;> rfl

theorem destroyed_eq (p : Pipeline) (r : Nat) :
    p.destroyed r = ((p.rings[r]?).map Ring.destroyed).getD 0 := by
  rw [Pipeline.destroyed]
  cases p.rings[r]? <;> rfl

theorem breakup_grows (p : Pipeline) (keptEl : Option ElHandle) :
    Grows p (p.breakupElements keptEl).1 := by
  have hhandles := breakupLoop_handles p keptEl p.elList ⟨p.rbList, true⟩
  unfold Pipeline.breakupElements
  generalize breakupLoop p keptEl p.elList ⟨p.rbList, true⟩ = result
    at hhandles ⊢
  rcases result with ⟨items, b⟩
  have hfree : ((b.rbs.map freeRb).map RbItem.rb) = p.handles := by
    show _ = p.rbList.map RbItem.rb
    refine Eq.trans ?_ hhandles
    rw [List.map_map]
    apply List.map_congr_left
    intro item _
    simp only [Function.comp, freeRb]
    split <;> rfl
  refine ⟨?_, ?_, ⟨[], ?_, by simp, by simp⟩,
    fun el r h => .inl (.inr ⟨el, h⟩)⟩
  · exact Nat.le_of_eq (length_rbReset _ _).symm
  · intro r
    rw [destroyed_eq, destroyed_eq, destroyed_rbReset]
  · rw [List.append_nil]
    exact hfree

/-! ## Unlinking -/

/-- The setters that unlinking calls change nothing. -/
theorem unsetRingbufs_eq (items : List ElItem) (p : Pipeline) :
    items.foldl Pipeline.unsetRingbufs p = p := by
  induction items with
  | nil => rfl
  | cons item items ih =>
      rw [List.foldl_cons, Pipeline.unsetRingbufs]
      split <;> exact ih

theorem unlink_of_unlinked {p : Pipeline} (h : p.linked = false) :
    p.unlink.1 = p := by
  rw [Pipeline.unlink, if_pos h]

theorem unlink_of_linked {p : Pipeline} (h : p.linked = true) :
    p.unlink.1 = { p with
      elList := p.elList.map unlinkItem
      rbList := []
      rings := p.handles.foldl rbDestroy p.rings
      linked := false } := by
  rw [Pipeline.unlink, if_neg (by rw [h]; simp)]
  simp only [unsetRingbufs_eq]
  rfl

theorem length_rbDestroy (rs : List RbHandle) (rings : List Ring) :
    (rs.foldl rbDestroy rings).length = rings.length := by
  induction rs generalizing rings with
  | nil => rfl
  | cons r rs ih => rw [List.foldl_cons, ih, rbDestroy, List.length_modify]

/-- Each ring buffer is destroyed once for each time it is listed. -/
theorem destroyed_rbDestroy (rs : List RbHandle) (rings : List Ring)
    (s : Nat) : ((rs.foldl rbDestroy rings)[s]?).map Ring.destroyed =
      (rings[s]?).map fun ring => ring.destroyed + rs.count s := by
  induction rs generalizing rings with
  | nil => simp
  | cons r rs ih =>
      rw [List.foldl_cons, ih, rbDestroy, List.getElem?_modify,
        List.count_cons]
      cases rings[s]? with
      | none => rfl
      | some ring =>
          by_cases h : r = s
          · subst h
            simp [Nat.add_comm, Nat.add_left_comm]
          · simp [h]

theorem unlink_els (p : Pipeline) : p.unlink.1.els = p.els := by
  cases h : p.linked with
  | false => rw [unlink_of_unlinked h]
  | true => rw [unlink_of_linked h]

theorem keeps_unlink (p : Pipeline) : Keeps p p.unlink.1 := by
  refine ⟨?_, fun e => by rw [unlink_els]⟩
  cases h : p.linked with
  | false => rw [unlink_of_unlinked h]
  | true =>
      rw [unlink_of_linked h]
      simp only [List.map_map]
      apply List.map_congr_left
      intro item _
      simp only [Function.comp, unlinkItem]
      split <;> rfl

theorem unlink_rings_length (p : Pipeline) :
    p.unlink.1.rings.length = p.rings.length := by
  cases h : p.linked with
  | false => rw [unlink_of_unlinked h]
  | true =>
      rw [unlink_of_linked h]
      exact length_rbDestroy _ _

theorem unlink_handles {p : Pipeline} (h : p.linked = true) :
    p.unlink.1.handles = [] := by
  rw [unlink_of_linked h]
  rfl

theorem unlink_destroyed {p : Pipeline} (h : p.linked = true) {r : Nat}
    (hr : r < p.rings.length) :
    p.unlink.1.destroyed r = p.destroyed r + p.handles.count r := by
  rw [destroyed_eq, destroyed_eq, unlink_of_linked h]
  simp only
  rw [destroyed_rbDestroy, List.getElem?_eq_getElem hr]
  rfl

/-- The calls that begin with `audio_pipeline_unlink`. -/
def Call.unlinks : Call → Bool
  | .link _ _ => true
  | .linkMore _ _ => true
  | .unlink => true
  | .register _ _ _ => false
  | .unregister _ => false
  | .registerMore _ _ => false
  | .breakupElements _ => false
  | .relink _ _ => false

/-- The pipeline when the unlinking that a call begins with returns. -/
def Pipeline.afterUnlink (p : Pipeline) (c : Call) : Pipeline :=
  if c.unlinks then p.unlink.1 else p

theorem unlink_if_linked (p : Pipeline) :
    (if p.linked then p.unlink.1 else p) = p.unlink.1 := by
  cases h : p.linked with
  | false => rw [unlink_of_unlinked h]; rfl
  | true => rfl

theorem link_grows (p : Pipeline) (linkTag : List String)
    (mem : Nat → Mem) : Grows p.unlink.1 (p.link linkTag mem).1 := by
  rw [Pipeline.link, unlink_if_linked]
  have hgrows : Grows p.unlink.1 (tagLoop (linkStep mem linkTag.length)
      linkTag 0 none p.unlink.1).1 :=
    tagLoop_grows (linkStep_grows mem linkTag.length) fun _ h => nomatch h
  generalize tagLoop (linkStep mem linkTag.length) linkTag 0 none p.unlink.1
    = result at hgrows ⊢
  rcases result with ⟨q, err⟩
  simp only at hgrows ⊢
  split
  · exact hgrows.trans (.of_same rfl rfl fun _ _ => id)
  · exact hgrows

/-- **Every call makes the handles grow**, once it has unlinked. -/
theorem exec_grows (p : Pipeline) (c : Call) :
    Grows (p.afterUnlink c) (p.exec c).1 := by
  cases c with
  | register el name mem => exact register_grows p el name mem
  | unregister el => exact unregister_grows p el
  | registerMore els mem => exact registerMore_grows mem els 0 p
  | link linkTag mem => exact link_grows p linkTag mem
  | linkMore els mem =>
      show Grows p.unlink.1 (p.linkMore els mem).1
      rw [Pipeline.linkMore, unlink_if_linked]
      exact linkMoreLoop_grows mem fun _ h => nomatch h
  | unlink => exact .refl p.unlink.1
  | breakupElements keptEl => exact breakup_grows p keptEl
  | relink linkTag mem =>
      show Grows p (p.relink linkTag mem).1
      rw [Pipeline.relink]
      split
      · exact .refl p
      · exact tagLoop_grows (relinkStep_grows mem linkTag.length)
          fun _ h => nomatch h

/-! ## What holds in every run -/

/-- The handles in use denote ring buffers that were made, and those on
`rb_list` are pairwise different and not destroyed. -/
structure Listed (p : Pipeline) : Prop where
  nodup : p.handles.Nodup
  made : ∀ r : Nat, p.Uses r → r < p.rings.length
  alive : ∀ r ∈ p.handles, p.destroyed r = 0

theorem Listed.of_fresh {p : Pipeline} (h : Fresh p) : Listed p := by
  have hempty : p.handles = [] := by rw [Pipeline.handles, h.rbList]; rfl
  refine ⟨by rw [hempty]; simp, ?_, by rw [hempty]; simp⟩
  rintro r (hlist | ⟨el, hin | hout⟩)
  · rw [hempty] at hlist
    cases hlist
  · exact h.input el r hin
  · exact h.output el r hout

theorem destroyed_of_new {p : Pipeline} {r : Nat} (h : p.rings.length ≤ r) :
    p.destroyed r = 0 := by
  rw [Pipeline.destroyed, List.getElem?_eq_none h]

theorem Listed.grows {p q : Pipeline} (h : Listed p) (hpq : Grows p q) :
    Listed q := by
  rcases hpq.handles with ⟨new, hnew, hnodup, hmade⟩
  refine ⟨?_, ?_, ?_⟩
  · rw [hnew]
    apply List.nodup_append.2 ⟨h.nodup, hnodup, ?_⟩
    intro a ha b hb heq
    subst heq
    exact Nat.not_lt.2 (hmade a hb).1 (h.made a (.inl ha))
  · intro r hr
    rcases hpq.uses hr with hold | hnew
    · exact Nat.lt_of_lt_of_le (h.made r hold) hpq.length
    · exact hnew.2
  · intro r hr
    rw [hpq.destroyed]
    rw [hnew, List.mem_append] at hr
    rcases hr with hr | hr
    · exact h.alive r hr
    · exact destroyed_of_new (hmade r hr).1

theorem Listed.unlink {p : Pipeline} (h : Listed p) : Listed p.unlink.1 := by
  cases hl : p.linked with
  | false => rw [unlink_of_unlinked hl]; exact h
  | true =>
      have hempty := unlink_handles hl
      refine ⟨by rw [hempty]; simp, ?_, by rw [hempty]; simp⟩
      rintro r (hlist | ⟨el, hheld⟩)
      · rw [hempty] at hlist
        cases hlist
      · rw [unlink_rings_length]
        exact h.made r (.inr ⟨el, (holds_of_els (unlink_els p) el r).1 hheld⟩)

theorem Listed.afterUnlink {p : Pipeline} (h : Listed p) (c : Call) :
    Listed (p.afterUnlink c) := by
  rw [Pipeline.afterUnlink]
  split
  · exact h.unlink
  · exact h

theorem Listed.exec {p : Pipeline} (h : Listed p) (c : Call) :
    Listed (p.exec c).1 := (h.afterUnlink c).grows (exec_grows p c)

theorem Listed.of_reachable {p s : Pipeline} (h : Fresh p)
    (hrun : pipelineMachine.Reachable p s) : Listed s := by
  refine hrun.invariant (Listed.of_fresh h) ?_
  intro u c v hu hs
  cases hs
  exact hu.exec c

end EspAdf.Ports.AudioPipeline
