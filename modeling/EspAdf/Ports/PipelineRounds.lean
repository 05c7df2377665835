import EspAdf.Ports.PipelineBreakup
import EspAdf.Ports.PipelineTopology

/-!
# Rounds of breaking up and relinking

A round breaks the pipeline up and relinks it.  An element whose context is
kept should come out of it with the ring buffer it writes, and with the bytes
that nobody has read yet.

`audio_pipeline_relink` looks that ring buffer up by `host_el`.  The field is
written when the ring buffer is made and not when it is handed to another
element, so the lookup finds the ring buffer that was made for the element,
which need not be the one it writes.  `kept_context_survives` proves that
nothing else goes wrong: in any sequence of rounds, the context of every kept
element survives each of them if and only if the recorded ring buffer is the
one it writes, and the breaking up does not reset that one.
-/

namespace EspAdf.Ports.AudioPipeline

open EspAdf.Verified

/-! ## The recorded ring buffer -/

/-- What relinking reads of an item of `rb_list`. -/
def RbItem.record (rb : RbItem) : ElHandle × RbHandle := (rb.hostEl, rb.rb)

def Pipeline.records (p : Pipeline) : List (ElHandle × RbHandle) :=
  p.rbList.map RbItem.record

/-- The first ring buffer of the list that was made for the element. -/
def Pipeline.hostRb (p : Pipeline) (el : ElHandle) : Option RbHandle :=
  (p.rbList.find? fun rb => rb.hostEl = el).map RbItem.rb

theorem hostRb_eq (p : Pipeline) (el : ElHandle) : p.hostRb el =
    (p.records.find? fun record => record.1 = el).map Prod.snd := by
  rw [Pipeline.hostRb, Pipeline.records, List.find?_map, Option.map_map]
  rfl

theorem hostRb_congr {p q : Pipeline} (h : q.records = p.records)
    (el : ElHandle) : q.hostRb el = p.hostRb el := by
  rw [hostRb_eq, hostRb_eq, h]

theorem records_modifyRb (p : Pipeline) (k : Nat) {f : RbItem → RbItem}
    (hf : ∀ rb, (f rb).record = rb.record) :
    (p.modifyRb k f).records = p.records :=
  map_modify_same hf p.rbList k

theorem relinkRb_records (p : Pipeline) (item : ElItem) :
    (p.relinkRb item).1.records = p.records := by
  rw [Pipeline.relinkRb]
  split
  · exact records_modifyRb p _ fun _ => rfl
  · rfl

/-- A kept element asks for the ring buffer recorded for it. -/
theorem relinkRb_kept {p : Pipeline} {item : ElItem}
    (h : item.keptCtx = true) :
    (p.relinkRb item).2 = p.hostRb item.el := by
  rw [Pipeline.hostRb, List.find?_eq_map_findFinIdx?_getElem,
    Pipeline.relinkRb, Pipeline.findRelink, if_pos h]
  cases p.rbList.findFinIdx? fun rb => decide (rb.hostEl = item.el) with
  | none => rfl
  | some k => rfl

/-! ## One iteration of relinking -/

/-- What a successful iteration for `item` does.  A kept element that is not
the last is given the ring buffer recorded for it, or else a new one, which is
recorded. -/
structure Relinked (p : Pipeline) (item : ElItem) (last : Prop)
    (q : Pipeline) : Prop where
  items : q.elList.map (fun item => (item.el, item.keptCtx)) =
    p.elList.map fun item => (item.el, item.keptCtx)
  tags : ∀ e, (q.els e).tag = (p.els e).tag
  rings : ∃ new, q.rings = p.rings ++ new
  records : ∃ new, q.records = p.records ++ new ∧
    ∀ record ∈ new, record.1 = item.el
  frame : ∀ e, e ≠ item.el ∨ last →
    q.getOutputRingbuf e = p.getOutputRingbuf e
  given : ¬last → item.keptCtx = true → ∃ r : Nat,
    q.hostRb item.el = some r ∧ q.getOutputRingbuf item.el = some r ∧
      (p.hostRb item.el = some r ∨
        p.hostRb item.el = none ∧ p.rings.length = r)

theorem hostRb_append {p q : Pipeline}
    {new : List (ElHandle × RbHandle)} (h : q.records = p.records ++ new)
    (el : ElHandle) : q.hostRb el =
      (p.hostRb el).or ((new.find? fun record => record.1 = el).map
        Prod.snd) := by
  rw [hostRb_eq, hostRb_eq, h, List.find?_append]
  cases p.records.find? fun record => decide (record.1 = el) <;> rfl

theorem getOutput_setInputUnlessFirst (p : Pipeline) (i : Nat)
    (el e : ElHandle) (rb : Option RbHandle) :
    (p.setInputUnlessFirst i el rb).getOutputRingbuf e =
      p.getOutputRingbuf e := by
  rw [Pipeline.setInputUnlessFirst]
  split
  · rfl
  · exact getOutput_setInput p el e rb

theorem setters_tags (p : Pipeline) (i : Nat) (el : ElHandle)
    (rb : Option RbHandle) (r : RbHandle) (e : ElHandle) :
    (((p.setInputUnlessFirst i el rb).setOutputRingbuf el
      (some r)).els e).tag = (p.els e).tag := by
  rw [(keeps_setOutput _ el (some r)).tags, Pipeline.setInputUnlessFirst]
  split
  · rfl
  · exact (keeps_setInput p el rb).tags e

/-- The input and the output are set, when the ring buffer is on the list. -/
theorem Relinked.of_setters {p q : Pipeline} {item : ElItem} {last : Prop}
    (hlast : ¬last)
    (hitems : q.elList.map (fun item => (item.el, item.keptCtx)) =
      p.elList.map fun item => (item.el, item.keptCtx))
    (hels : q.els = p.els) (hrings : ∃ new, q.rings = p.rings ++ new)
    (hrecords : ∃ new, q.records = p.records ++ new ∧
      ∀ record ∈ new, record.1 = item.el)
    {r : Nat} (hgiven : item.keptCtx = true →
      q.hostRb item.el = some r ∧ (p.hostRb item.el = some r ∨
        p.hostRb item.el = none ∧ p.rings.length = r))
    (i : Nat) (rb : Option RbHandle) :
    Relinked p item last ((q.setInputUnlessFirst i item.el
      rb).setOutputRingbuf item.el (some r)) := by
  rcases setters_lists q i item.el rb r with ⟨hrbs, hring, hlist⟩
  have hrec : ((q.setInputUnlessFirst i item.el rb).setOutputRingbuf item.el
      (some r)).records = q.records := by
    rw [Pipeline.records, Pipeline.records, hrbs]
  refine ⟨by rw [hlist]; exact hitems, ?_, by rw [hring]; exact hrings,
    by rw [hrec]; exact hrecords, ?_, ?_⟩
  · intro e
    rw [setters_tags, hels]
  · intro e he
    have he := he.resolve_right hlast
    rw [getOutput_of_els (setOutput_ne he _), getOutput_setInputUnlessFirst,
      getOutput_of_els (congrFun hels e)]
  · intro _ hkept
    rcases hgiven hkept with ⟨hhost, hfrom⟩
    refine ⟨r, ?_, getOutput_setOutput _ _ _, hfrom⟩
    rw [hostRb_congr hrec]
    exact hhost

/-- Only the input is set for the last element. -/
theorem Relinked.of_last {p q : Pipeline} {item : ElItem} {last : Prop}
    (hlast : last)
    (hitems : q.elList.map (fun item => (item.el, item.keptCtx)) =
      p.elList.map fun item => (item.el, item.keptCtx))
    (hels : q.els = p.els) (hrings : q.rings = p.rings)
    (hrecords : q.records = p.records) (rb : Option RbHandle) :
    Relinked p item last (q.setInputRingbuf item.el rb) := by
  refine ⟨?_, ?_, ⟨[], ?_⟩, ⟨[], ?_, by simp⟩, ?_,
    fun hno => absurd hlast hno⟩
  · cases rb <;> exact hitems
  · intro e
    rw [(keeps_setInput q _ rb).tags, hels]
  · rw [List.append_nil]
    cases rb <;> exact hrings
  · rw [List.append_nil]
    cases rb <;> exact hrecords
  · intro e _
    rw [getOutput_setInput, getOutput_of_els (congrFun hels e)]

theorem records_insertRb (q : Pipeline) (el : ElHandle) :
    ((q.rbCreate el).insertRb ⟨q.rings.length, el, true, false⟩).records =
      q.records ++ [(el, q.rings.length)] := by
  simp [Pipeline.records, Pipeline.insertRb, Pipeline.rbCreate,
    RbItem.record]

theorem relinkStep_relinked {mem : Nat → Mem} {linkNum i : Nat}
    {rb : Option RbHandle} {tag : String} {p : Pipeline}
    (herr : (relinkStep mem linkNum i rb tag p).err = ESP_OK) :
    ∃ item, p.itemOf tag = some item ∧
      Relinked p item (i + 1 = linkNum)
        (relinkStep mem linkNum i rb tag p).p := by
  cases hitem : p.getElItemByTag tag with
  | none =>
      simp only [relinkStep, hitem] at herr
      cases herr
  | some k =>
      refine ⟨p.elList[k], by rw [itemOf_eq, hitem]; rfl, ?_⟩
      have hmarks : (p.modifyEl k fun item =>
          { item with linked := true }).elList.map
            (fun item => (item.el, item.keptCtx)) =
          p.elList.map fun item => (item.el, item.keptCtx) :=
        map_modify_same (f := fun item : ElItem =>
          { item with linked := true }) (fun _ => rfl) p.elList k
      simp only [relinkStep, hitem] at herr ⊢
      have hlists := relinkRb_els
        (p.modifyEl k fun item => { item with linked := true }) p.elList[k]
      have hsame := relinkRb_same
        (p.modifyEl k fun item => { item with linked := true }) p.elList[k]
      have hrecs := relinkRb_records
        (p.modifyEl k fun item => { item with linked := true }) p.elList[k]
      have hfound := @relinkRb_kept
        (p.modifyEl k fun item => { item with linked := true }) p.elList[k]
      generalize (p.modifyEl k fun item =>
        { item with linked := true }).relinkRb p.elList[k] = found
        at hlists hsame hrecs hfound herr ⊢
      rcases found with ⟨q, cur⟩
      rcases hsame with ⟨hrings, -, hels⟩
      have hitems : q.elList.map (fun item => (item.el, item.keptCtx)) =
          p.elList.map fun item => (item.el, item.keptCtx) := by
        rw [hlists.2]
        exact hmarks
      have hrings' : q.rings = p.rings := hrings
      have hrecs' : q.records = p.records := hrecs
      have hels' : q.els = p.els := hels
      have hcur : p.elList[k].keptCtx = true →
          cur = p.hostRb p.elList[k].el := hfound
      simp only at herr ⊢
      by_cases hlast : i + 1 = linkNum
      · rw [if_pos hlast]
        exact .of_last hlast hitems hels' hrings' hrecs' rb
      · rw [if_neg hlast] at herr ⊢
        cases cur with
        | some r =>
            refine .of_setters hlast hitems hels' ⟨[], by simp [hrings']⟩
              ⟨[], by simp [hrecs'], by simp⟩ (fun hkept => ?_) i rb
            have hhost := (hcur hkept).symm
            exact ⟨(hostRb_congr hrecs' _).trans hhost, .inl hhost⟩
        | none =>
            simp only at herr ⊢
            split at herr
            · cases herr
            · rename_i hsize
              rw [if_neg hsize]
              have hrec := records_insertRb q p.elList[k].el
              rw [hrecs'] at hrec
              refine @Relinked.of_setters p ((q.rbCreate
                p.elList[k].el).insertRb
                  ⟨q.rings.length, p.elList[k].el, true, false⟩) _ _ hlast
                hitems hels' ⟨_, by rw [← hrings']; rfl⟩ ⟨_, hrec, by simp⟩ _
                (fun hkept => ?_) i rb
              have hhost := (hcur hkept).symm
              rw [hostRb_append hrec, hhost]
              exact ⟨by simp, .inr ⟨rfl, by rw [hrings']⟩⟩

/-! ## The loop of relinking -/

/-- Whichever tag finds an element, it finds the same item. -/
theorem item_unique {p : Pipeline} {tag tag' : String} {item item' : ElItem}
    (h : p.itemOf tag = some item) (h' : p.itemOf tag' = some item')
    (hel : item.el = item'.el) : item = item' := by
  have htag := List.find?_some h
  have htag' := List.find?_some h'
  rw [hel] at htag
  rw [← hel] at htag'
  rw [Pipeline.itemOf] at h h'
  generalize p.elList = items at h h'
  induction items with
  | nil => cases h
  | cons first items ih =>
      rw [List.find?_cons] at h h'
      split at h
      · cases h
        rw [htag'] at h'
        exact Option.some.inj h'
      · split at h'
        · cases h'
          rename_i hno _
          rw [htag] at hno
          cases hno
        · exact ih h h'

theorem Relinked.itemOf {p q : Pipeline} {item : ElItem} {last : Prop}
    (h : Relinked p item last q) (tag : String) :
    (q.itemOf tag).map (fun item => (item.el, item.keptCtx)) =
      (p.itemOf tag).map fun item => (item.el, item.keptCtx) := by
  have hfind : ∀ s : Pipeline,
      (s.itemOf tag).map (fun item => (item.el, item.keptCtx)) =
        (s.elList.map fun item => (item.el, item.keptCtx)).find?
          fun mark => s.hasTag mark.1 tag := by
    intro s
    rw [List.find?_map]
    rfl
  have hhas : ∀ e, q.hasTag e tag = p.hasTag e tag := by
    intro e
    rw [Pipeline.hasTag, Pipeline.hasTag, h.tags e]
  rw [hfind, hfind, h.items]
  congr 1
  funext mark
  exact hhas mark.1

/-- The context of the element is kept. -/
def Pipeline.keeps (p : Pipeline) (el : ElHandle) : Prop :=
  ∀ tag item, p.itemOf tag = some item → item.el = el → item.keptCtx = true

theorem Relinked.keeps {p q : Pipeline} {item : ElItem} {last : Prop}
    (h : Relinked p item last q) {el : ElHandle} (hkeeps : p.keeps el) :
    q.keeps el := by
  intro tag item' hitem' hel
  have hsame := h.itemOf tag
  rw [hitem', Option.map_some] at hsame
  rcases Option.map_eq_some_iff.1 hsame.symm with ⟨item'', hitem'', heq⟩
  rw [Prod.mk.injEq] at heq
  rw [← heq.2]
  exact hkeeps tag item'' hitem'' (heq.1.trans hel)

theorem Relinked.hostRb_of_some {p q : Pipeline} {item : ElItem} {last : Prop}
    (h : Relinked p item last q) {el : ElHandle} {r : RbHandle}
    (hr : p.hostRb el = some r) : q.hostRb el = some r := by
  rcases h.records with ⟨new, hnew, -⟩
  rw [hostRb_append hnew, hr]
  rfl

theorem Relinked.hostRb_other {p q : Pipeline} {item : ElItem} {last : Prop}
    (h : Relinked p item last q) {el : ElHandle} (hne : el ≠ item.el) :
    q.hostRb el = p.hostRb el := by
  rcases h.records with ⟨new, hnew, hhost⟩
  have hnone : (new.find? fun record => record.1 = el) = none := by
    rw [List.find?_eq_none]
    intro record hrecord
    rw [hhost record hrecord, decide_eq_true_eq]
    exact fun heq => hne heq.symm
  rw [hostRb_append hnew, hnone, Option.map_none, Option.or_none]

/-- Once a kept element has been given the ring buffer recorded for it, it
keeps that one. -/
theorem relinkLoop_settled {mem : Nat → Mem} {linkNum : Nat}
    {tags : List String} {el : ElHandle} {r : RbHandle} :
    ∀ {i : Nat} {rb : Option RbHandle} {p : Pipeline}, p.keeps el →
      p.hostRb el = some r → p.getOutputRingbuf el = some r →
      (tagLoop (relinkStep mem linkNum) tags i rb p).2 = ESP_OK →
      (tagLoop (relinkStep mem linkNum) tags i rb p).1.getOutputRingbuf el =
        some r := by
  induction tags with
  | nil =>
      intro i rb p _ _ hout _
      exact hout
  | cons tag tags ih =>
      intro i rb p hkeeps hhost hout hok
      rcases tagLoop_cons_ok hok with ⟨herr, heq⟩
      rcases relinkStep_relinked herr with ⟨item, hitem, hstep⟩
      rw [heq] at hok ⊢
      refine ih (hstep.keeps hkeeps) (hstep.hostRb_of_some hhost) ?_ hok
      by_cases hother : el ≠ item.el ∨ i + 1 = linkNum
      · rw [hstep.frame el hother]
        exact hout
      · rw [not_or, not_not] at hother
        rcases hother with ⟨rfl, hlast⟩
        rcases hstep.given hlast (hkeeps tag item hitem rfl) with
          ⟨r', -, hout', hfrom | ⟨hfrom, -⟩⟩
        · rw [hout', ← hfrom, hhost]
        · rw [hhost] at hfrom
          cases hfrom

/-- **What a kept element is given**: the ring buffer recorded for it, or else
a new one. -/
theorem relinkLoop_given {mem : Nat → Mem} {linkNum : Nat}
    {tags : List String} {el : ElHandle} :
    ∀ {i j : Nat} {rb : Option RbHandle} {p : Pipeline} {tag : String}
      {item : ElItem}, p.keeps el → tags[j]? = some tag →
      i + j + 1 < linkNum → p.itemOf tag = some item → item.el = el →
      (tagLoop (relinkStep mem linkNum) tags i rb p).2 = ESP_OK →
      ∃ r : Nat, (tagLoop (relinkStep mem linkNum) tags i rb
          p).1.getOutputRingbuf el = some r ∧
        (p.hostRb el = some r ∨ p.hostRb el = none ∧ p.rings.length ≤ r) := by
  induction tags with
  | nil =>
      intro i j rb p tag item _ htag
      cases htag
  | cons first tags ih =>
      intro i j rb p tag item hkeeps htag hlast hitem hel hok
      rcases tagLoop_cons_ok hok with ⟨herr, heq⟩
      rcases relinkStep_relinked herr with ⟨item₁, hitem₁, hstep⟩
      rw [heq] at hok ⊢
      have hlast₁ : ¬i + 1 = linkNum := by omega
      by_cases hel₁ : item₁.el = el
      · rcases hstep.given hlast₁ (hkeeps first item₁ hitem₁ hel₁) with
          ⟨r, hhost, hout, hfrom⟩
        rw [hel₁] at hhost hout hfrom
        refine ⟨r, relinkLoop_settled (hstep.keeps hkeeps) hhost hout hok, ?_⟩
        rcases hfrom with hfrom | ⟨hnone, hlength⟩
        · exact .inl hfrom
        · exact .inr ⟨hnone, Nat.le_of_eq hlength⟩
      · cases j with
        | zero =>
            cases htag
            rw [hitem] at hitem₁
            cases hitem₁
            exact absurd hel hel₁
        | succ j =>
            have hsame := hstep.itemOf tag
            rw [hitem, Option.map_some] at hsame
            rcases Option.map_eq_some_iff.1 hsame with ⟨item', hitem', hmark⟩
            rw [Prod.mk.injEq] at hmark
            rcases ih (hstep.keeps hkeeps) htag (by omega) hitem'
              (hmark.1.trans hel) hok with ⟨r, hout, hfrom⟩
            refine ⟨r, hout, ?_⟩
            rw [hstep.hostRb_other (Ne.symm hel₁)] at hfrom
            rcases hfrom with hfrom | ⟨hnone, hlength⟩
            · exact .inl hfrom
            · rcases hstep.rings with ⟨new, hnew⟩
              rw [hnew, List.length_append] at hlength
              exact .inr ⟨hnone, by omega⟩

/-- Relinking leaves the ring buffers that exist alone. -/
theorem relinkLoop_rings {mem : Nat → Mem} {linkNum : Nat}
    {tags : List String} :
    ∀ {i : Nat} {rb : Option RbHandle} {p : Pipeline},
      (tagLoop (relinkStep mem linkNum) tags i rb p).2 = ESP_OK →
      ∃ new, (tagLoop (relinkStep mem linkNum) tags i rb p).1.rings =
        p.rings ++ new := by
  induction tags with
  | nil =>
      intro i rb p _
      exact ⟨[], (List.append_nil _).symm⟩
  | cons tag tags ih =>
      intro i rb p hok
      rcases tagLoop_cons_ok hok with ⟨herr, heq⟩
      rcases relinkStep_relinked herr with ⟨item, -, hstep⟩
      rw [heq] at hok ⊢
      rcases ih hok with ⟨new', hnew'⟩
      rcases hstep.rings with ⟨new, hnew⟩
      exact ⟨new ++ new', by rw [hnew', hnew, List.append_assoc]⟩

/-! ## The elements that breaking up keeps -/

/-- The first attached element, with which the flag falls. -/
def Pipeline.leader (p : Pipeline) : Option ElHandle :=
  (p.elList.find? p.attached).map ElItem.el

/-- Whether the context of an element is kept, if it is not linked or
attached. -/
def keepsItem (leader keptEl : Option ElHandle) (item : ElItem) : Bool :=
  if item.linked then
    decide (leader = some item.el) || decide (some item.el = keptEl)
  else item.keptCtx

theorem passItem_el (p : Pipeline) (keptEl : Option ElHandle) (kept : Bool)
    (item : ElItem) : (p.passItem keptEl kept item).el = item.el := by
  rw [Pipeline.passItem]
  split <;> rfl

/-- The loop keeps the order of the elements, and what becomes of the first
item of an element. -/
theorem breakupLoop_find {p : Pipeline} {keptEl : Option ElHandle}
    (hnodup : p.handles.Nodup) {f : ElHandle → Bool} {items : List ElItem} :
    ∀ {b : Breakup}, b.rbs.map RbItem.rb = p.handles →
      (breakupLoop p keptEl items b).1.map ElItem.el =
          items.map ElItem.el ∧
        ∀ item item', items.find? (fun item => f item.el) = some item →
          (breakupLoop p keptEl items b).1.find? (fun item => f item.el) =
            some item' → (item.linked = true → p.attached item = true) →
          item'.keptCtx = keepsItem (if b.kept then
            (items.find? p.attached).map ElItem.el else none) keptEl item := by
  induction items with
  | nil =>
      intro b _
      exact ⟨rfl, fun _ _ h => nomatch h⟩
  | cons first items ih =>
      intro b hb
      simp only [breakupLoop, List.map_cons]
      cases hattached : p.attached first with
      | false =>
          rw [breakupItem_unattached hb hattached]
          simp only
          rcases ih hb with ⟨hels, hkept⟩
          refine ⟨by rw [passItem_el, hels], ?_⟩
          intro item item' hitem hitem' himp
          rw [List.find?_cons] at hitem hitem'
          rw [passItem_el] at hitem'
          rw [List.find?_cons_of_neg (by simp [hattached])]
          split at hitem
          · rename_i hf
            rw [hf] at hitem'
            cases hitem
            cases hitem'
            have hlinked : first.linked = false := by
              cases hlinked : first.linked with
              | false => rfl
              | true =>
                  rw [himp hlinked] at hattached
                  cases hattached
            rw [Pipeline.passItem, if_neg (by simp [hlinked]), keepsItem,
              if_neg (by simp [hlinked])]
          · rename_i hf
            rw [hf] at hitem'
            exact hkept item item' hitem hitem' himp
      | true =>
          rw [breakupItem_attached hb hnodup hattached]
          simp only
          rcases @ih ⟨b.rbs.map fun rb => settle p rb
            (first.el, decision keptEl b.kept first.el), false⟩
            ((map_settle_rb p _ b.rbs).trans hb) with ⟨hels, hkept⟩
          refine ⟨by rw [hels], ?_⟩
          intro item item' hitem hitem' himp
          rw [List.find?_cons] at hitem hitem'
          rw [List.find?_cons_of_pos hattached, Option.map_some]
          split at hitem
          · rename_i hf
            rw [hf] at hitem'
            cases hitem
            cases hitem'
            rw [keepsItem, if_pos (attached_iff.1 hattached).1, decision]
            cases b.kept <;> simp
          · rename_i hf
            rw [hf] at hitem'
            rw [hkept item item' hitem hitem' himp]
            -- An element other than the first attached one is found.
            have hne : first.el ≠ item.el := by
              intro heq
              have := List.find?_some hitem
              rw [← heq, hf] at this
              cases this
            simp only [keepsItem]
            cases b.kept <;> simp [hne]

section Breakup

variable {p : Pipeline} {keptEl : Option ElHandle}

theorem keeps_breakup (hlisted : Listed p) :
    Keeps p (p.breakupElements keptEl).1 := by
  refine ⟨?_, fun _ => rfl⟩
  exact (@breakupLoop_find p keptEl hlisted.nodup (fun _ => false) p.elList
    ⟨p.rbList, true⟩ rfl).1

/-- A tag finds the same element afterwards. -/
theorem breakup_itemOf (hlisted : Listed p) (tag : String) :
    ((p.breakupElements keptEl).1.itemOf tag).map ElItem.el =
      (p.itemOf tag).map ElItem.el := by
  rw [← elOf_eq, ← elOf_eq, (keeps_breakup hlisted).elOf]

/-- Which contexts are kept. -/
theorem breakup_kept (hlisted : Listed p) {tag : String}
    {item item' : ElItem} (hitem : p.itemOf tag = some item)
    (hitem' : (p.breakupElements keptEl).1.itemOf tag = some item')
    {r : RbHandle} (hr : r ∈ p.handles)
    (hout : p.getOutputRingbuf item.el = some r) :
    item'.keptCtx = keepsItem p.leader keptEl item := by
  have hkept := (@breakupLoop_find p keptEl hlisted.nodup
    (fun el => p.hasTag el tag) p.elList ⟨p.rbList, true⟩ rfl).2 item item'
  refine hkept hitem hitem' fun hlinked => ?_
  exact attached_iff.2 ⟨hlinked, r, hr, hout⟩

theorem hostRb_breakup (hlisted : Listed p) (el : ElHandle) :
    (p.breakupElements keptEl).1.hostRb el = p.hostRb el := by
  apply hostRb_congr
  rw [Pipeline.records, Pipeline.records, breakup_rbList hlisted.nodup,
    List.map_map]
  apply List.map_congr_left
  intro rb _
  simp only [Function.comp, RbItem.record, breakupRb_rb, breakupRb_hostEl]

/-- The ring buffer is on the list and kept. -/
def Pipeline.keepsRb (p : Pipeline) (keptEl : Option ElHandle)
    (r : RbHandle) : Prop :=
  ∃ rb ∈ p.rbList, rb.rb = r ∧ p.staysKept keptEl rb = true

theorem breakup_resets_iff (hlisted : Listed p) {r : RbHandle}
    (hr : r ∈ p.handles) :
    (p.breakupElements keptEl).1.resets r = p.resets r ↔
      p.keepsRb keptEl r := by
  rcases List.mem_map.1 hr with ⟨rb, hrb, rfl⟩
  have hlt := hlisted.made _ (.inl hr)
  constructor
  · intro hsame
    refine ⟨rb, hrb, rfl, ?_⟩
    cases hstays : p.staysKept keptEl rb with
    | true => rfl
    | false =>
        have := breakup_resets_free hlisted.nodup hrb hlt hstays
        omega
  · rintro ⟨rb', hrb', heq, hstays⟩
    rw [← heq, Pipeline.resets, Pipeline.resets,
      breakup_ring_kept hlisted.nodup hrb' hstays]

end Breakup

/-! ## A round -/

/-- The arguments of one round, and what is unread in each ring buffer when it
starts. -/
structure Round where
  keptEl : Option ElHandle
  linkTag : List String
  mem : Nat → Mem
  unread : RbHandle → List UInt8

def Pipeline.round (p : Pipeline) (R : Round) : Pipeline × Int :=
  (p.breakupElements R.keptEl).1.relink R.linkTag R.mem

/-- What is unread afterwards: `rb_reset` drops it. -/
def unreadAfter (p q : Pipeline) (R : Round) (r : RbHandle) : List UInt8 :=
  if q.resets r = p.resets r then R.unread r else []

/-- Every element that is kept by the breaking up, wrote a ring buffer of the
list and is not the last of the relink still writes it, with what was unread
in it. -/
def KeepsContext (p : Pipeline) (R : Round) : Prop :=
  ∀ i tag item r, R.linkTag[i]? = some tag → i + 1 < R.linkTag.length →
    (p.breakupElements R.keptEl).1.itemOf tag = some item →
    item.keptCtx = true → p.getOutputRingbuf item.el = some r →
    r ∈ p.handles →
    (p.round R).1.getOutputRingbuf item.el = some r ∧
      unreadAfter p (p.round R).1 R r = R.unread r

/-- For every such element the recorded ring buffer is the one it writes, and
that one is kept or has nothing unread. -/
def CarefulRound (p : Pipeline) (R : Round) : Prop :=
  ∀ i tag item r, R.linkTag[i]? = some tag → i + 1 < R.linkTag.length →
    p.itemOf tag = some item → keepsItem p.leader R.keptEl item = true →
    p.getOutputRingbuf item.el = some r → r ∈ p.handles →
    p.hostRb item.el = some r ∧ (p.keepsRb R.keptEl r ∨ R.unread r = [])

section Round

variable {p : Pipeline} {R : Round}

theorem round_loop (hok : (p.round R).2 = ESP_OK) :
    tagLoop (relinkStep R.mem R.linkTag.length) R.linkTag 0 none
      (p.breakupElements R.keptEl).1 = ((p.round R).1, ESP_OK) :=
  relink_ok hok

/-- What is unread survives if the ring buffer is kept, or is nothing. -/
theorem unread_iff (hlisted : Listed p) (hok : (p.round R).2 = ESP_OK)
    {r : Nat} (hr : r ∈ p.handles) :
    unreadAfter p (p.round R).1 R r = R.unread r ↔
      p.keepsRb R.keptEl r ∨ R.unread r = [] := by
  have hloop := round_loop hok
  have hresets : (p.round R).1.resets r =
      (p.breakupElements R.keptEl).1.resets r := by
    have hok' : (tagLoop (relinkStep R.mem R.linkTag.length) R.linkTag 0 none
        (p.breakupElements R.keptEl).1).2 = ESP_OK := by rw [hloop]
    rcases relinkLoop_rings hok' with ⟨new, hnew⟩
    rw [hloop] at hnew
    have hlt : r < (p.breakupElements R.keptEl).1.rings.length :=
      Nat.lt_of_lt_of_le (hlisted.made r (.inl hr))
        (breakup_grows p R.keptEl).length
    rw [Pipeline.resets, Pipeline.resets, hnew, List.getElem?_append_left hlt]
  rw [unreadAfter, hresets, ← breakup_resets_iff hlisted hr]
  split
  · rename_i hsame
    simp [hsame]
  · rename_i hother
    simp only [hother, false_or]
    exact eq_comm

/-- The output of a kept element afterwards. -/
theorem output_iff (hlisted : Listed p) (hok : (p.round R).2 = ESP_OK)
    {i : Nat} {tag : String} {item : ElItem} {r : Nat}
    (htag : R.linkTag[i]? = some tag) (hlast : i + 1 < R.linkTag.length)
    (hitem : (p.breakupElements R.keptEl).1.itemOf tag = some item)
    (hkept : item.keptCtx = true) (hr : r ∈ p.handles) :
    (p.round R).1.getOutputRingbuf item.el = some r ↔
      p.hostRb item.el = some r := by
  have hloop := round_loop hok
  have hok' : (tagLoop (relinkStep R.mem R.linkTag.length) R.linkTag 0 none
      (p.breakupElements R.keptEl).1).2 = ESP_OK := by rw [hloop]
  have hkeeps : (p.breakupElements R.keptEl).1.keeps item.el := by
    intro tag' item' hitem' hel
    rw [item_unique hitem' hitem hel]
    exact hkept
  rcases relinkLoop_given hkeeps htag (by omega) hitem rfl hok' with
    ⟨r', hout, hfrom⟩
  rw [hloop] at hout
  rw [hostRb_breakup hlisted] at hfrom
  have hlt := hlisted.made r (.inl hr)
  have hlength := (breakup_grows p R.keptEl).length
  rcases hfrom with hfrom | ⟨hnone, hle⟩
  · rw [hout, hfrom]
  · rw [hout, hnone]
    constructor
    · intro heq
      have : r' = r := Option.some.inj heq
      omega
    · intro heq
      cases heq

theorem keepsContext_iff (hlisted : Listed p) (hok : (p.round R).2 = ESP_OK) :
    KeepsContext p R ↔ CarefulRound p R := by
  constructor
  · intro h i tag item r htag hlast hitem hkept hout hr
    have hsame := @breakup_itemOf p R.keptEl hlisted tag
    rw [hitem, Option.map_some] at hsame
    rcases Option.map_eq_some_iff.1 hsame with ⟨item', hitem', hel⟩
    have hkept' : item'.keptCtx = true :=
      (breakup_kept hlisted hitem hitem' hr hout).trans hkept
    rcases h i tag item' r htag hlast hitem' hkept' (hel ▸ hout) hr with
      ⟨hout', hunread⟩
    rw [← hel]
    exact ⟨(output_iff hlisted hok htag hlast hitem' hkept' hr).1 hout',
      (unread_iff hlisted hok hr).1 hunread⟩
  · intro h i tag item' r htag hlast hitem' hkept' hout hr
    have hsame := @breakup_itemOf p R.keptEl hlisted tag
    rw [hitem', Option.map_some] at hsame
    rcases Option.map_eq_some_iff.1 hsame.symm with ⟨item, hitem, hel⟩
    have hkept : keepsItem p.leader R.keptEl item = true :=
      (breakup_kept hlisted hitem hitem' hr (hel ▸ hout)).symm.trans hkept'
    rcases h i tag item r htag hlast hitem hkept (hel ▸ hout) hr with
      ⟨hhost, hunread⟩
    rw [hel] at hhost
    exact ⟨(output_iff hlisted hok htag hlast hitem' hkept' hr).2 hhost,
      (unread_iff hlisted hok hr).2 hunread⟩

end Round

/-! ## The result -/

/-- A property of every round of a sequence. -/
def AllRounds (f : Pipeline → Round → Prop) : Pipeline → List Round → Prop
  | _, [] => True
  | p, R :: Rs => f p R ∧ AllRounds f (p.round R).1 Rs

/-- **Kept contexts survive** every round of a sequence if and only if every
round meets the condition; the pipeline may have been through any calls
before. -/
theorem kept_context_survives {p s : Pipeline} (hfresh : Fresh p)
    (hrun : pipelineMachine.Reachable p s) (Rs : List Round)
    (hok : AllRounds (fun u R => (u.round R).2 = ESP_OK) s Rs) :
    AllRounds KeepsContext s Rs ↔ AllRounds CarefulRound s Rs := by
  have hlisted := Listed.of_reachable hfresh hrun
  clear hrun
  induction Rs generalizing s with
  | nil => exact Iff.rfl
  | cons R Rs ih =>
      rcases hok with ⟨hround, hrest⟩
      have hlisted' : Listed (s.round R).1 :=
        (hlisted.exec (.breakupElements R.keptEl)).exec
          (.relink R.linkTag R.mem)
      exact and_congr (keepsContext_iff hlisted hround) (ih hrest hlisted')

/-- The three elements of `registerThree`, linked. -/
def chainOfThree : Pipeline :=
  bare.execAll (registerThree ++ [.link ["a", "b", "c"] fun _ => .ok])

theorem kept_context_survives_second :
    AllRounds KeepsContext chainOfThree
      [⟨some 1, ["b", "c"], fun _ => .ok, fun _ => [7]⟩] := by
  refine (kept_context_survives fresh_bare (reachable_execAll bare _)
    [⟨some 1, ["b", "c"], fun _ => .ok, fun _ => [7]⟩]
    ⟨by decide +kernel, trivial⟩).2 ⟨?_, trivial⟩
  intro i tag item r htag hlast hitem _ hout _
  have hb : chainOfThree.itemOf "b" = some ⟨1, true, true⟩ := by
    decide +kernel
  have hwrites : chainOfThree.getOutputRingbuf 1 = some 1 := by decide +kernel
  obtain rfl : i = 0 := by
    have : i + 1 < 2 := hlast
    omega
  cases htag
  obtain rfl : ⟨1, true, true⟩ = item := Option.some.inj (hb.symm.trans hitem)
  obtain rfl : 1 = r := Option.some.inj (hwrites.symm.trans hout)
  exact ⟨by decide +kernel, .inl ⟨⟨1, 1, true, true⟩, by decide +kernel, rfl,
    by decide +kernel⟩⟩

/-- First `c` goes in front and is given the ring buffer made for `b`; then the
context of `c` is kept, and it is linked in the same order. -/
def moveThenKeep : List Round :=
  [⟨none, ["c", "a", "b"], fun _ => .ok, fun _ => [7]⟩,
    ⟨some 2, ["c", "a", "b"], fun _ => .ok, fun _ => [7]⟩]

/-- The second relink finds no ring buffer that was made for `c` and gives it
a new one. -/
theorem relink_replaces :
    AllRounds (fun u R => (u.round R).2 = ESP_OK) chainOfThree moveThenKeep ∧
    (((chainOfThree.round moveThenKeep[0]).1.breakupElements
      (some 2)).1.itemOf "c") = some ⟨2, false, true⟩ ∧
    (chainOfThree.round moveThenKeep[0]).1.getOutputRingbuf 2 = some 1 ∧
    ((chainOfThree.round moveThenKeep[0]).1.round
      moveThenKeep[1]).1.getOutputRingbuf 2 = some 2 ∧
    ¬AllRounds KeepsContext chainOfThree moveThenKeep := by
  have hitem : ((chainOfThree.round moveThenKeep[0]).1.breakupElements
      (some 2)).1.itemOf "c" = some ⟨2, false, true⟩ := by decide +kernel
  have hbefore : (chainOfThree.round moveThenKeep[0]).1.getOutputRingbuf 2 =
      some 1 := by decide +kernel
  have hafter : ((chainOfThree.round moveThenKeep[0]).1.round
      moveThenKeep[1]).1.getOutputRingbuf 2 = some 2 := by decide +kernel
  refine ⟨⟨by decide +kernel, by decide +kernel, trivial⟩, hitem, hbefore,
    hafter, ?_⟩
  rintro ⟨-, hsecond, -⟩
  have hsame := (hsecond 0 "c" ⟨2, false, true⟩ 1 rfl (by decide) hitem rfl
    hbefore (by decide +kernel)).1
  exact absurd (hafter.symm.trans hsame) (by decide)

end EspAdf.Ports.AudioPipeline
