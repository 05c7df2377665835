import EspAdf.Ports.AudioPipeline

/-!
# The chain that linking makes

`audio_pipeline_link` and `audio_pipeline_relink` walk the tags in the same
way: each element but the first reads what the one before it writes, and each
but the last writes the ring buffer that the walk settles on for it.
`Joined` is what one iteration does to the inputs and outputs, and
`tagLoop_chain` what the whole loop does.  Which ring buffers these are is
`loopRbs`, and the chain is simple exactly when they are pairwise distinct.
-/

namespace EspAdf.Ports.AudioPipeline

/-! ## Finding elements by tag -/

/-- The element that a tag names. -/
def Pipeline.elOf (p : Pipeline) (tag : String) : Option ElHandle :=
  (p.elList.map ElItem.el).find? fun el => p.hasTag el tag

/-- The item that a tag names. -/
def Pipeline.itemOf (p : Pipeline) (tag : String) : Option ElItem :=
  p.elList.find? fun item => p.hasTag item.el tag

theorem itemOf_eq (p : Pipeline) (tag : String) :
    p.itemOf tag = (p.getElItemByTag tag).map p.elList.get :=
  List.find?_eq_map_findFinIdx?_getElem

theorem elOf_eq (p : Pipeline) (tag : String) :
    p.elOf tag = (p.itemOf tag).map ElItem.el := by
  rw [Pipeline.elOf, List.find?_map]
  rfl

theorem elOf_of_found {p : Pipeline} {tag : String}
    {k : Fin p.elList.length} (h : p.getElItemByTag tag = some k) :
    p.elOf tag = some (p.elList.get k).el := by
  rw [elOf_eq, itemOf_eq, h]
  rfl

theorem strcasecmp_iff {a b : String} : strcasecmp a b = true ↔
    a.toList.map Char.toLower = b.toList.map Char.toLower := by
  rw [strcasecmp, beq_iff_eq]

/-- Two tags that name one element are the same for `strcasecmp`. -/
theorem strcasecmp_of_elOf {p : Pipeline} {a b : String} {e : ElHandle}
    (ha : p.elOf a = some e) (hb : p.elOf b = some e) :
    strcasecmp a b = true := by
  have ha := List.find?_some ha
  have hb := List.find?_some hb
  simp only [Pipeline.hasTag] at ha hb
  split at ha
  · rename_i tag htag
    rw [htag] at hb
    rw [strcasecmp_iff] at ha hb ⊢
    exact ha.symm.trans hb
  · cases ha

/-- The tags of one call, pairwise different for `strcasecmp`. -/
def DistinctTags (tags : List String) : Prop :=
  tags.Pairwise fun a b => strcasecmp a b = false

instance (tags : List String) : Decidable (DistinctTags tags) :=
  inferInstanceAs (Decidable (tags.Pairwise _))

/-- The elements of the list and all tags are as before. -/
structure Keeps (p q : Pipeline) : Prop where
  els : q.elList.map ElItem.el = p.elList.map ElItem.el
  tags : ∀ e, (q.els e).tag = (p.els e).tag

theorem Keeps.refl (p : Pipeline) : Keeps p p := ⟨rfl, fun _ => rfl⟩

theorem Keeps.trans {p q r : Pipeline} (h : Keeps p q) (h' : Keeps q r) :
    Keeps p r :=
  ⟨h'.els.trans h.els, fun e => (h'.tags e).trans (h.tags e)⟩

theorem Keeps.elOf {p q : Pipeline} (h : Keeps p q) (tag : String) :
    q.elOf tag = p.elOf tag := by
  have hhas : ∀ e, q.hasTag e tag = p.hasTag e tag := by
    intro e
    rw [Pipeline.hasTag, Pipeline.hasTag, h.tags e]
  rw [Pipeline.elOf, Pipeline.elOf, h.els]
  congr 1
  funext e
  exact hhas e

/-- Tags name the same elements before and after. -/
theorem Keeps.names_unique {p q : Pipeline} (h : Keeps p q)
    {tags : List String} {els els' : List ElHandle}
    (hbefore : tags.map p.elOf = els.map some)
    (hafter : tags.map q.elOf = els'.map some) : els = els' := by
  apply List.map_injective_iff.2 (fun _ _ => Option.some.inj)
  rw [← hbefore, ← hafter]
  apply List.map_congr_left
  intro tag _
  exact (h.elOf tag).symm

/-! ## The setters -/

/-- What `f` leaves alone survives a modification by `f`. -/
theorem map_modify_same {α β : Type} {f : α → α} {g : α → β}
    (hf : ∀ a, g (f a) = g a) (l : List α) (k : Nat) :
    (l.modify k f).map g = l.map g := by
  apply List.ext_getElem?
  intro j
  rw [List.getElem?_map, List.getElem?_map, List.getElem?_modify]
  cases l[j]? with
  | none => rfl
  | some a =>
      simp only [Option.map_some]
      split <;> simp [hf]

/-- Where the keys are different, modifying one place is mapping over all. -/
theorem modify_eq_map {α β : Type} [DecidableEq β] {g : α → β} {l : List α}
    (hnodup : (l.map g).Nodup) {k : Nat} (hk : k < l.length) (f : α → α) :
    l.modify k f = l.map fun a => if g a = g l[k] then f a else a := by
  apply List.ext_getElem?
  intro j
  rw [List.getElem?_modify, List.getElem?_map]
  by_cases hj : j < l.length
  · rw [List.getElem?_eq_getElem hj]
    by_cases hkj : k = j
    · subst hkj
      simp
    · have hne : g l[j] ≠ g l[k] := by
        intro heq
        have hj' : j < (l.map g).length := by simpa using hj
        have hk' : k < (l.map g).length := by simpa using hk
        have hget : (l.map g)[j] = (l.map g)[k] := by
          rw [List.getElem_map, List.getElem_map, heq]
        exact hkj ((List.Nodup.getElem_inj_iff hnodup).1 hget).symm
      simp [hkj, hne]
  · rw [List.getElem?_eq_none (by omega)]
    rfl

theorem keeps_modifyEl (p : Pipeline) (k : Nat) {f : ElItem → ElItem}
    (hf : ∀ item, (f item).el = item.el) : Keeps p (p.modifyEl k f) :=
  ⟨map_modify_same hf p.elList k, fun _ => rfl⟩

theorem updateEl_ne {p : Pipeline} {el e : ElHandle} {f : Element → Element}
    (h : e ≠ el) : (p.updateEl el f).els e = p.els e :=
  Function.update_of_ne h _ _

theorem updateEl_self (p : Pipeline) (el : ElHandle) (f : Element → Element) :
    (p.updateEl el f).els el = f (p.els el) :=
  Function.update_self _ _ _

theorem keeps_updateEl (p : Pipeline) (el : ElHandle) {f : Element → Element}
    (hf : ∀ e, (f e).tag = e.tag) : Keeps p (p.updateEl el f) := by
  refine ⟨rfl, fun e => ?_⟩
  by_cases h : e = el
  · rw [h, updateEl_self, hf]
  · rw [updateEl_ne h]

theorem keeps_setInput (p : Pipeline) (el : ElHandle)
    (rb : Option RbHandle) : Keeps p (p.setInputRingbuf el rb) := by
  cases rb with
  | none => exact .refl p
  | some r =>
      exact keeps_updateEl p el (f := fun e => { e with input := .rb (some r) })
        fun _ => rfl

theorem keeps_setOutput (p : Pipeline) (el : ElHandle)
    (rb : Option RbHandle) : Keeps p (p.setOutputRingbuf el rb) := by
  cases rb with
  | none => exact .refl p
  | some r =>
      exact keeps_updateEl p el
        (f := fun e => { e with output := .rb (some r) }) fun _ => rfl

theorem setInput_ne {p : Pipeline} {el e : ElHandle} (h : e ≠ el)
    (rb : Option RbHandle) : (p.setInputRingbuf el rb).els e = p.els e := by
  cases rb with
  | none => rfl
  | some r => exact Function.update_of_ne h _ _

theorem setOutput_ne {p : Pipeline} {el e : ElHandle} (h : e ≠ el)
    (rb : Option RbHandle) : (p.setOutputRingbuf el rb).els e = p.els e := by
  cases rb with
  | none => rfl
  | some r => exact Function.update_of_ne h _ _

theorem getInput_setInput (p : Pipeline) (el : ElHandle) (r : RbHandle) :
    (p.setInputRingbuf el (some r)).getInputRingbuf el = some r := by
  rw [Pipeline.getInputRingbuf, Pipeline.setInputRingbuf, updateEl_self]
  rfl

theorem getOutput_setOutput (p : Pipeline) (el : ElHandle) (r : RbHandle) :
    (p.setOutputRingbuf el (some r)).getOutputRingbuf el = some r := by
  rw [Pipeline.getOutputRingbuf, Pipeline.setOutputRingbuf, updateEl_self]
  rfl

theorem getOutput_setInput (p : Pipeline) (el e : ElHandle)
    (rb : Option RbHandle) :
    (p.setInputRingbuf el rb).getOutputRingbuf e = p.getOutputRingbuf e := by
  cases rb with
  | none => rfl
  | some r =>
      rw [Pipeline.getOutputRingbuf, Pipeline.getOutputRingbuf]
      by_cases h : e = el
      · rw [h, Pipeline.setInputRingbuf, updateEl_self]
      · rw [setInput_ne h]

theorem getInput_setOutput (p : Pipeline) (el e : ElHandle)
    (rb : Option RbHandle) :
    (p.setOutputRingbuf el rb).getInputRingbuf e = p.getInputRingbuf e := by
  cases rb with
  | none => rfl
  | some r =>
      rw [Pipeline.getInputRingbuf, Pipeline.getInputRingbuf]
      by_cases h : e = el
      · rw [h, Pipeline.setOutputRingbuf, updateEl_self]
      · rw [setOutput_ne h]

/-! ## A chain of elements -/

/-- Each element but the last writes a ring buffer of the list, and the next
element reads it. -/
def Chain (p : Pipeline) : List ElHandle → List RbHandle → Prop
  | [], rbs => rbs = []
  | [_], rbs => rbs = []
  | _ :: _ :: _, [] => False
  | e :: e' :: es, r :: rbs =>
      p.getOutputRingbuf e = some r ∧ p.getInputRingbuf e' = some r ∧
        Chain p (e' :: es) rbs

/-- **A simple chain**: the tags name different elements, element `i` writes
what element `i + 1` reads, and these ring buffers are pairwise distinct. -/
def SimpleChain (p : Pipeline) (tags : List String) : Prop :=
  ∃ (els : List ElHandle) (rbs : List RbHandle),
    tags.map p.elOf = els.map some ∧ els.Nodup ∧
    rbs.length = els.length - 1 ∧ rbs.Nodup ∧
    ∀ i r, rbs[i]? = some r → ∃ e e', els[i]? = some e ∧
      els[i + 1]? = some e' ∧ p.getOutputRingbuf e = some r ∧
      p.getInputRingbuf e' = some r

/-- No element of the tags reads and writes the same ring buffer. -/
def InOutApart (p : Pipeline) (tags : List String) : Prop :=
  ∀ tag ∈ tags, ∀ e r, p.elOf tag = some e →
    p.getInputRingbuf e = some r → p.getOutputRingbuf e ≠ some r

theorem Chain.length {p : Pipeline} {els : List ElHandle}
    {rbs : List RbHandle} (h : Chain p els rbs) :
    rbs.length = els.length - 1 := by
  induction els generalizing rbs with
  | nil =>
      obtain rfl : rbs = [] := h
      rfl
  | cons e els ih =>
      cases els with
      | nil =>
          obtain rfl : rbs = [] := h
          rfl
      | cons e' es =>
          cases rbs with
          | nil => exact h.elim
          | cons r rbs =>
              have := ih h.2.2
              simpa using this

theorem Chain.get {p : Pipeline} {els : List ElHandle}
    {rbs : List RbHandle} (h : Chain p els rbs) {i : Nat} {r : RbHandle}
    (hi : rbs[i]? = some r) :
    ∃ e e', els[i]? = some e ∧ els[i + 1]? = some e' ∧
      p.getOutputRingbuf e = some r ∧ p.getInputRingbuf e' = some r := by
  induction els generalizing rbs i with
  | nil =>
      obtain rfl : rbs = [] := h
      cases hi
  | cons e els ih =>
      cases els with
      | nil =>
          obtain rfl : rbs = [] := h
          cases hi
      | cons e' es =>
          cases rbs with
          | nil => exact h.elim
          | cons r' rbs =>
              cases i with
              | zero =>
                  obtain rfl : r' = r := by simpa using hi
                  exact ⟨e, e', rfl, rfl, h.1, h.2.1⟩
              | succ i =>
                  obtain ⟨a, b, ha, hb, hout, hin⟩ := ih h.2.2 (i := i) hi
                  exact ⟨a, b, ha, hb, hout, hin⟩

/-- A chain of different elements is simple when its ring buffers are
pairwise distinct. -/
theorem Chain.simple_iff {p : Pipeline} {tags : List String}
    {els : List ElHandle} {rbs : List RbHandle} (h : Chain p els rbs)
    (htags : tags.map p.elOf = els.map some) (hnodup : els.Nodup) :
    SimpleChain p tags ↔ rbs.Nodup := by
  constructor
  · rintro ⟨els', rbs', htags', -, hlength, hrbs, hget⟩
    have hels : els' = els := (Keeps.refl _).names_unique htags' htags
    subst hels
    have hlen : rbs'.length = rbs.length := by rw [hlength, h.length]
    have hsame : rbs' = rbs := by
      apply List.ext_getElem hlen
      intro i hi hi'
      obtain ⟨e, -, he, -, hout, -⟩ :=
        hget i _ (List.getElem?_eq_getElem hi)
      obtain ⟨a, -, ha, -, hout', -⟩ := h.get (List.getElem?_eq_getElem hi')
      obtain rfl : e = a := Option.some.inj (he.symm.trans ha)
      exact Option.some.inj (hout.symm.trans hout')
    rw [← hsame]
    exact hrbs
  · intro hrbs
    exact ⟨els, rbs, htags, hnodup, h.length, hrbs, fun i r hi => h.get hi⟩

/-- Tags that name different elements are different. -/
theorem distinctTags_of_named {p : Pipeline} {tags : List String}
    {els : List ElHandle} (htags : tags.map p.elOf = els.map some)
    (hnodup : els.Nodup) : DistinctTags tags := by
  have hmap : (tags.map p.elOf).Nodup := by
    rw [htags]
    exact hnodup.map fun _ _ => Option.some.inj
  apply List.Pairwise.imp _ (List.pairwise_map.1 hmap)
  intro a b hne
  cases hcmp : strcasecmp a b with
  | false => rfl
  | true =>
      apply absurd _ hne
      rw [strcasecmp_iff] at hcmp
      rw [Pipeline.elOf, Pipeline.elOf]
      congr 1
      funext e
      rw [Pipeline.hasTag, Pipeline.hasTag]
      split
      · rw [strcasecmp, strcasecmp, hcmp]
      · rfl

/-- The elements of a simple chain have different tags. -/
theorem SimpleChain.distinct {p : Pipeline} {tags : List String}
    (h : SimpleChain p tags) : DistinctTags tags := by
  rcases h with ⟨els, -, htags, hnodup, -⟩
  exact distinctTags_of_named htags hnodup

/-! ## One iteration -/

/-- What an iteration does for the element `el`: it reads `rb`, if there is
one, and writes the ring buffer that the next element reads, unless it is the
last. -/
structure Joined (p : Pipeline) (el : ElHandle) (rb : Option RbHandle)
    (last : Prop) (it : Iter) : Prop where
  keeps : Keeps p it.p
  frame : ∀ e, e ≠ el → it.p.els e = p.els e
  input : it.p.getInputRingbuf el = rb.or (p.getInputRingbuf el)
  stale : last → it.p.getOutputRingbuf el = p.getOutputRingbuf el
  output : ¬last → ∃ r, it.rb = some r ∧ it.p.getOutputRingbuf el = some r

theorem getInput_of_els {p q : Pipeline} {e : ElHandle}
    (h : q.els e = p.els e) : q.getInputRingbuf e = p.getInputRingbuf e := by
  rw [Pipeline.getInputRingbuf, Pipeline.getInputRingbuf, h]

theorem getOutput_of_els {p q : Pipeline} {e : ElHandle}
    (h : q.els e = p.els e) : q.getOutputRingbuf e = p.getOutputRingbuf e := by
  rw [Pipeline.getOutputRingbuf, Pipeline.getOutputRingbuf, h]

theorem getInput_setInput_or (p : Pipeline) (el : ElHandle)
    (rb : Option RbHandle) : (p.setInputRingbuf el rb).getInputRingbuf el =
      rb.or (p.getInputRingbuf el) := by
  cases rb with
  | none => rfl
  | some r => exact getInput_setInput p el r

theorem setInput_els {p q : Pipeline} (h : q.els = p.els) {el : ElHandle}
    {rb : Option RbHandle} :
    (q.setInputRingbuf el rb).els = (p.setInputRingbuf el rb).els := by
  cases rb with
  | none => exact h
  | some r =>
      rw [Pipeline.setInputRingbuf, Pipeline.setInputRingbuf,
        Pipeline.updateEl, Pipeline.updateEl, h]

/-- The first element has nothing to read. -/
theorem setInputUnlessFirst_eq {i : Nat} {rb : Option RbHandle}
    (hfirst : i = 0 → rb = none) (p : Pipeline) (el : ElHandle) :
    p.setInputUnlessFirst i el rb = p.setInputRingbuf el rb := by
  rw [Pipeline.setInputUnlessFirst]
  split
  · rename_i hi
    rw [hfirst hi]
    rfl
  · rfl

/-- The input and then the output is set; a ring buffer may be made before,
after or between. -/
theorem joined_output {p q : Pipeline} {el : ElHandle} {rb : Option RbHandle}
    {last : Prop} (hlast : ¬last)
    (hlist : q.elList.map ElItem.el = p.elList.map ElItem.el)
    (hels : q.els = (p.setInputRingbuf el rb).els) (r : RbHandle) :
    Joined p el rb last ⟨q.setOutputRingbuf el (some r), some r, ESP_OK⟩ where
  keeps := by
    have hq : Keeps p q := by
      refine ⟨hlist, fun e => ?_⟩
      rw [hels]
      exact (keeps_setInput p el rb).tags e
    exact hq.trans (keeps_setOutput q el (some r))
  frame := by
    intro e he
    rw [setOutput_ne he, hels, setInput_ne he]
  input := by
    rw [getInput_setOutput, getInput_of_els (congrFun hels el)]
    exact getInput_setInput_or p el rb
  stale := fun h => absurd h hlast
  output := fun _ => ⟨r, rfl, getOutput_setOutput q el r⟩

/-- The setters of the last iteration. -/
theorem joined_last {p q : Pipeline} {el : ElHandle} {rb : Option RbHandle}
    {last : Prop} (hlast : last) (hkeeps : Keeps p q)
    (hels : q.els = p.els) :
    Joined p el rb last ⟨q.setInputRingbuf el rb, rb, ESP_OK⟩ where
  keeps := hkeeps.trans (keeps_setInput q el rb)
  frame := by
    intro e he
    rw [setInput_ne he, hels]
  input := by
    rw [getInput_setInput_or]
    congr 1
    exact getInput_of_els (congrFun hels el)
  stale := by
    intro _
    show (q.setInputRingbuf el rb).getOutputRingbuf el = _
    rw [getOutput_setInput]
    exact getOutput_of_els (congrFun hels el)
  output := fun h => absurd hlast h

/-- An iteration that succeeds joins the element that the tag names. -/
def Joins (linkNum : Nat)
    (step : Nat → Option RbHandle → String → Pipeline → Iter) : Prop :=
  ∀ i rb tag p, (i = 0 → rb = none) → (step i rb tag p).err = ESP_OK →
    ∃ el, p.elOf tag = some el ∧
      Joined p el rb (i + 1 = linkNum) (step i rb tag p)

theorem linkStep_joins (mem : Nat → Mem) (linkNum : Nat) :
    Joins linkNum (linkStep mem linkNum) := by
  intro i rb tag p hfirst herr
  cases hitem : p.getElItemByTag tag with
  | none =>
      simp only [linkStep, hitem] at herr
      cases herr
  | some k =>
      refine ⟨p.elList[k].el, elOf_of_found hitem, ?_⟩
      have hkeeps := keeps_modifyEl p k
        (f := fun item => { item with linked := true, keptCtx := true })
        fun _ => rfl
      simp only [linkStep, hitem] at herr ⊢
      by_cases hlast : i + 1 = linkNum
      · rw [if_pos hlast]
        exact joined_last hlast hkeeps rfl
      · rw [if_neg hlast] at herr ⊢
        split at herr
        · cases herr
        · rename_i hrb
          rw [if_neg hrb]
          simp only [setInputUnlessFirst_eq hfirst]
          apply joined_output hlast
          · rw [← hkeeps.els]
            exact (keeps_setInput _ _ rb).els
          · exact setInput_els (p := p) (q := p.modifyEl k fun item =>
              { item with linked := true, keptCtx := true }) rfl

theorem relinkRb_els (p : Pipeline) (item : ElItem) :
    (p.relinkRb item).1.els = p.els ∧
      (p.relinkRb item).1.elList = p.elList := by
  rw [Pipeline.relinkRb]
  split <;> exact ⟨rfl, rfl⟩

theorem relinkStep_joins (mem : Nat → Mem) (linkNum : Nat) :
    Joins linkNum (relinkStep mem linkNum) := by
  intro i rb tag p hfirst herr
  cases hitem : p.getElItemByTag tag with
  | none =>
      simp only [relinkStep, hitem] at herr
      cases herr
  | some k =>
      refine ⟨p.elList[k].el, elOf_of_found hitem, ?_⟩
      have hkeeps := keeps_modifyEl p k
        (f := fun item => { item with linked := true }) fun _ => rfl
      simp only [relinkStep, hitem] at herr ⊢
      have hrb := relinkRb_els
        (p.modifyEl k fun item => { item with linked := true }) p.elList[k]
      generalize hfound : (p.modifyEl k fun item =>
        { item with linked := true }).relinkRb p.elList[k] = found
        at herr hrb ⊢
      rcases found with ⟨q, cur⟩
      have hq : Keeps p q := by
        refine hkeeps.trans ⟨?_, fun e => ?_⟩
        · rw [hrb.2]
        · rw [hrb.1]
      have hels : q.els = p.els := hrb.1
      simp only at herr ⊢
      by_cases hlast : i + 1 = linkNum
      · rw [if_pos hlast]
        exact joined_last hlast hq hels
      · rw [if_neg hlast] at herr ⊢
        cases cur with
        | some r =>
            simp only [setInputUnlessFirst_eq hfirst]
            apply joined_output hlast
            · rw [← hq.els]
              exact (keeps_setInput _ _ rb).els
            · exact setInput_els hels
        | none =>
            simp only at herr ⊢
            split at herr
            · cases herr
            · rename_i hnew
              rw [if_neg hnew]
              simp only [setInputUnlessFirst_eq hfirst]
              apply joined_output hlast
              · rw [← hq.els]
                exact (keeps_setInput _ _ rb).els
              · exact setInput_els (p := p)
                  (q := (q.rbCreate p.elList[k].el).insertRb _) hels

/-! ## The loop -/

/-- A loop that succeeds is an iteration that does, and the rest of the loop. -/
theorem tagLoop_cons_ok
    {step : Nat → Option RbHandle → String → Pipeline → Iter} {tag : String}
    {tags : List String} {i : Nat} {rb : Option RbHandle} {p : Pipeline}
    (hok : (tagLoop step (tag :: tags) i rb p).2 = ESP_OK) :
    (step i rb tag p).err = ESP_OK ∧
      tagLoop step (tag :: tags) i rb p =
        tagLoop step tags (i + 1) (step i rb tag p).rb (step i rb tag p).p := by
  rw [tagLoop] at hok ⊢
  by_cases herr : (step i rb tag p).err = ESP_OK
  · exact ⟨herr, if_pos herr⟩
  · rw [if_neg herr] at hok
    exact absurd hok herr

/-- The ring buffers that the elements but the last are given to write. -/
def loopRbs (step : Nat → Option RbHandle → String → Pipeline → Iter) :
    List String → Nat → Option RbHandle → Pipeline → List RbHandle
  | [], _, _, _ => []
  | [_], _, _, _ => []
  | tag :: tags, i, rb, p =>
      let it := step i rb tag p
      it.rb.toList ++ loopRbs step tags (i + 1) it.rb it.p

/-- What the whole loop does, from the pipeline `p` to `q`. -/
structure Chained (p q : Pipeline) (rb : Option RbHandle)
    (els : List ElHandle) (rbs : List RbHandle) : Prop where
  keeps : Keeps p q
  frame : ∀ e ∉ els, q.els e = p.els e
  nodup : els.Nodup
  chain : Chain q els rbs
  first : ∀ e ∈ els.head?, q.getInputRingbuf e = rb.or (p.getInputRingbuf e)
  last : ∀ e ∈ els.getLast?, q.getOutputRingbuf e = p.getOutputRingbuf e

theorem Chained.nil (p : Pipeline) (rb : Option RbHandle) :
    Chained p p rb [] [] where
  keeps := .refl p
  frame := fun _ _ => rfl
  nodup := List.nodup_nil
  chain := rfl
  first := by simp
  last := by simp

/-- One more element in front of the chain. -/
theorem Chained.cons {p q : Pipeline} {el : ElHandle} {it : Iter}
    {rb : Option RbHandle} {els : List ElHandle} {rbs : List RbHandle}
    (hit : Joined p el rb (els = []) it) (h : Chained it.p q it.rb els rbs)
    (hel : el ∉ els) :
    Chained p q rb (el :: els)
      (if els = [] then [] else it.rb.toList ++ rbs) where
  keeps := hit.keeps.trans h.keeps
  frame := by
    intro e he
    rw [List.mem_cons, not_or] at he
    rw [h.frame e he.2, hit.frame e he.1]
  nodup := List.nodup_cons.2 ⟨hel, h.nodup⟩
  chain := by
    cases els with
    | nil => rfl
    | cons e es =>
        rcases hit.output (by simp) with ⟨r, hr, hout⟩
        rw [if_neg (by simp), hr]
        refine ⟨?_, ?_, h.chain⟩
        · rw [getOutput_of_els (h.frame el hel)]
          exact hout
        · rw [h.first e rfl, hr]
          rfl
  first := by
    intro e he
    obtain rfl : el = e := by simpa using he
    rw [getInput_of_els (h.frame el hel)]
    exact hit.input
  last := by
    intro e he
    cases els with
    | nil =>
        obtain rfl : el = e := by simpa using he
        rw [getOutput_of_els (h.frame el hel)]
        exact hit.stale rfl
    | cons e' es =>
        rw [List.getLast?_cons_cons] at he
        rw [h.last e he]
        apply getOutput_of_els
        apply hit.frame
        rintro rfl
        exact hel (List.mem_of_getLast? he)

/-- Different tags name different elements. -/
theorem notMem_of_distinct {p : Pipeline} {tag : String} {tags : List String}
    {el : ElHandle} {els : List ElHandle} (hdist : DistinctTags (tag :: tags))
    (hel : p.elOf tag = some el) (hels : tags.map p.elOf = els.map some) :
    el ∉ els := by
  intro hmem
  have hsome : some el ∈ tags.map p.elOf := by
    rw [hels]
    exact List.mem_map_of_mem hmem
  rcases List.mem_map.1 hsome with ⟨tag', htag', heq⟩
  have hcmp := strcasecmp_of_elOf hel heq
  rw [(List.pairwise_cons.1 hdist).1 tag' htag'] at hcmp
  cases hcmp

/-- **The loop chains the elements**, when it succeeds on different tags. -/
theorem tagLoop_chain {linkNum : Nat}
    {step : Nat → Option RbHandle → String → Pipeline → Iter}
    (hstep : Joins linkNum step) {tags : List String} :
    ∀ {i : Nat} {rb : Option RbHandle} {p : Pipeline}, DistinctTags tags →
      (i = 0 → rb = none) → linkNum = i + tags.length →
      (tagLoop step tags i rb p).2 = ESP_OK →
      ∃ els, tags.map p.elOf = els.map some ∧
        Chained p (tagLoop step tags i rb p).1 rb els
          (loopRbs step tags i rb p) := by
  induction tags with
  | nil =>
      intro i rb p _ _ _ _
      exact ⟨[], rfl, .nil p rb⟩
  | cons tag tags ih =>
      intro i rb p hdist hfirst hnum hok
      rcases tagLoop_cons_ok hok with ⟨herr, heq⟩
      rw [heq] at hok ⊢
      rcases hstep i rb tag p hfirst herr with ⟨el, hel, hjoined⟩
      have hnum' : linkNum = (i + 1) + tags.length := by
        rw [hnum, List.length_cons]
        omega
      rcases ih (List.pairwise_cons.1 hdist).2 (fun h => by omega) hnum'
        hok with ⟨els, hels, hchained⟩
      have hels' : tags.map p.elOf = els.map some := by
        rw [← hels]
        apply List.map_congr_left
        intro t _
        exact (hjoined.keeps.elOf t).symm
      have hempty : i + 1 = linkNum ↔ els = [] := by
        rw [← List.length_eq_zero_iff, ← List.length_map some, ← hels,
          List.length_map]
        omega
      have hjoined' : Joined p el rb (els = []) (step i rb tag p) := by
        rw [← propext hempty]
        exact hjoined
      have hcons := hchained.cons hjoined'
        (notMem_of_distinct hdist hel hels')
      refine ⟨el :: els, ?_, ?_⟩
      · rw [List.map_cons, List.map_cons, hel, hels']
      · have hrbs : loopRbs step (tag :: tags) i rb p =
            if els = [] then []
            else (step i rb tag p).rb.toList ++
              loopRbs step tags (i + 1) (step i rb tag p).rb
                (step i rb tag p).p := by
          cases tags with
          | nil =>
              obtain rfl : els = [] := by simpa using hels.symm
              rfl
          | cons t ts =>
              cases els with
              | nil => cases hels
              | cons e es => rfl
        rw [hrbs]
        exact hcons

/-! ## What a chained element reads and writes -/

section Ends

variable {p q : Pipeline} {els : List ElHandle} {rbs : List RbHandle}

theorem Chained.output (h : Chained p q none els rbs) {i : Nat}
    {e : ElHandle} {r : RbHandle} (he : els[i]? = some e)
    (hr : rbs[i]? = some r) : q.getOutputRingbuf e = some r := by
  rcases h.chain.get hr with ⟨a, -, ha, -, hout, -⟩
  obtain rfl : a = e := Option.some.inj (ha.symm.trans he)
  exact hout

theorem Chained.input (h : Chained p q none els rbs) {i : Nat}
    {e : ElHandle} {r : RbHandle} (he : els[i + 1]? = some e)
    (hr : rbs[i]? = some r) : q.getInputRingbuf e = some r := by
  rcases h.chain.get hr with ⟨-, b, -, hb, -, hin⟩
  obtain rfl : b = e := Option.some.inj (hb.symm.trans he)
  exact hin

theorem Chained.input_first (h : Chained p q none els rbs) {e : ElHandle}
    (he : els.head? = some e) : q.getInputRingbuf e = p.getInputRingbuf e :=
  h.first e he

theorem Chained.output_last (h : Chained p q none els rbs) {e : ElHandle}
    (he : els.getLast? = some e) :
    q.getOutputRingbuf e = p.getOutputRingbuf e := h.last e he

/-- What the first element reads and the last one writes, as before the call,
is not the ring buffer at its other end. -/
structure StaleApart (p : Pipeline) (els : List ElHandle)
    (rbs : List RbHandle) : Prop where
  single : ∀ e r, els = [e] → p.getInputRingbuf e = some r →
    p.getOutputRingbuf e ≠ some r
  first : ∀ e r, els.head? = some e → p.getInputRingbuf e = some r →
    rbs.head? ≠ some r
  last : ∀ e r, els.getLast? = some e → p.getOutputRingbuf e = some r →
    rbs.getLast? ≠ some r

theorem Chained.staleApart (h : Chained p q none els rbs)
    (hapart : ∀ e ∈ els, ∀ r, q.getInputRingbuf e = some r →
      q.getOutputRingbuf e ≠ some r) : StaleApart p els rbs where
  single := by
    rintro e r rfl hin
    rw [← h.input_first (e := e) rfl] at hin
    rw [← h.output_last (e := e) rfl]
    exact hapart e List.mem_cons_self r hin
  first := by
    intro e r he hin hr
    rw [← h.input_first he] at hin
    apply hapart e (List.mem_of_mem_head? he) r hin
    exact h.output (i := 0) (by rw [← List.head?_eq_getElem?]; exact he)
      (by rw [← List.head?_eq_getElem?]; exact hr)
  last := by
    intro e r he hout hr
    rw [← h.output_last he] at hout
    apply fun hin => hapart e (List.mem_of_getLast? he) r hin hout
    have hlength := h.chain.length
    rw [List.getLast?_eq_getElem?] at he hr
    have hpos : rbs.length - 1 < rbs.length :=
      (List.getElem?_eq_some_iff.1 hr).1
    refine h.input (i := rbs.length - 1) ?_ hr
    rw [← he]
    congr 1
    omega

theorem Chained.apart (h : Chained p q none els rbs) (hrbs : rbs.Nodup)
    (hstale : StaleApart p els rbs) {e : ElHandle} (he : e ∈ els)
    {r : RbHandle} (hin : q.getInputRingbuf e = some r) :
    q.getOutputRingbuf e ≠ some r := by
  intro hout
  have hlength := h.chain.length
  rcases List.mem_iff_getElem?.1 he with ⟨i, hi⟩
  have hlt : i < els.length := (List.getElem?_eq_some_iff.1 hi).1
  by_cases hlast : i + 1 = els.length
  · have hend : els.getLast? = some e := by
      rw [List.getLast?_eq_getElem?, ← hi]
      congr 1
      omega
    rw [h.output_last hend] at hout
    cases i with
    | zero =>
        have hone : els = [e] := by
          rcases List.length_eq_one_iff.1 hlast.symm with ⟨a, ha⟩
          rw [ha] at hi ⊢
          rw [Option.some.inj hi]
        rw [h.input_first (by rw [hone]; rfl)] at hin
        exact hstale.single e r hone hin hout
    | succ i =>
        have hi' : i < rbs.length := by omega
        have hr := List.getElem?_eq_getElem hi'
        have hsame : rbs[i] = r :=
          Option.some.inj ((h.input hi hr).symm.trans hin)
        apply hstale.last e r hend hout
        rw [List.getLast?_eq_getElem?, ← hsame, ← hr]
        congr 1
        omega
  · have hi' : i < rbs.length := by omega
    have hr := List.getElem?_eq_getElem hi'
    have hsame : rbs[i] = r :=
      Option.some.inj ((h.output hi hr).symm.trans hout)
    cases i with
    | zero =>
        have hhead : els.head? = some e := by
          rw [List.head?_eq_getElem?]
          exact hi
        rw [h.input_first hhead] at hin
        apply hstale.first e r hhead hin
        rw [List.head?_eq_getElem?, hr, hsame]
    | succ i =>
        have hprev := List.getElem?_eq_getElem (l := rbs) (i := i) (by omega)
        have hsame' : rbs[i] = r :=
          Option.some.inj ((h.input hi hprev).symm.trans hin)
        have := (List.Nodup.getElem_inj_iff hrbs).1 (hsame'.trans hsame.symm)
        omega

/-- The elements of the tags, before or after. -/
theorem Chained.inOutApart_iff {tags : List String}
    (h : Chained p q none els rbs) (htags : tags.map p.elOf = els.map some)
    (hrbs : rbs.Nodup) : InOutApart q tags ↔ StaleApart p els rbs := by
  constructor
  · intro hapart
    apply h.staleApart
    intro e he r hin
    have hsome : some e ∈ tags.map p.elOf := by
      rw [htags]
      exact List.mem_map_of_mem he
    rcases List.mem_map.1 hsome with ⟨tag, htag, hel⟩
    exact hapart tag htag e r ((h.keeps.elOf tag).trans hel) hin
  · intro hstale tag htag e r hel hin
    have hsome : some e ∈ els.map some := by
      rw [← htags, ← hel, h.keeps.elOf]
      exact List.mem_map_of_mem htag
    rcases List.mem_map.1 hsome with ⟨a, ha, heq⟩
    cases heq
    exact h.apart hrbs hstale ha hin

theorem Chained.simple_iff {tags : List String}
    (h : Chained p q none els rbs) (htags : tags.map p.elOf = els.map some) :
    SimpleChain q tags ↔ rbs.Nodup := by
  apply h.chain.simple_iff _ h.nodup
  rw [← htags]
  apply List.map_congr_left
  intro tag _
  exact h.keeps.elOf tag

end Ends

end EspAdf.Ports.AudioPipeline
