import EspAdf.Ports.PipelineBreakup
import EspAdf.Ports.PipelineConserve
import EspAdf.Ports.PipelineLinked
import EspAdf.Ports.PipelineTopology

/-!
# What breaking up a pipeline reserves

`audio_pipeline_breakup_elements` announces that the elements up to and
including `kept_ctx_el`, and the ring buffers that connect them, are reserved,
and none for `NULL`.  The flag of its loop reserves the first element in any
case and never an element between the first and `kept_ctx_el`.

For a pipeline that `audio_pipeline_link` linked in registration order,
`breakup_reserves` gives the exact condition under which the announcement
is true: `kept_ctx_el` is the first or the second element, and nothing is left
over from earlier calls.
-/

namespace EspAdf.Ports.AudioPipeline

open EspAdf.Verified

/-! ## A pipeline that was linked in registration order -/

/-- The linked elements, in the order of the list. -/
def Pipeline.linkedEls (p : Pipeline) : List ElHandle :=
  (p.elList.filter ElItem.linked).map ElItem.el

/-- What linking establishes: the linked elements are marked as kept, all but
the last write ring buffers of the list, and no two write the same. -/
structure Lined (p : Pipeline) : Prop where
  listed : Listed p
  once : (p.elList.map ElItem.el).Nodup
  marked : ∀ item ∈ p.elList, item.linked = true → item.keptCtx = true
  writes : ∀ el ∈ p.linkedEls.dropLast,
    ∃ r ∈ p.handles, p.getOutputRingbuf el = some r
  apart : ∀ a ∈ p.linkedEls, ∀ b ∈ p.linkedEls, ∀ r : Nat,
    p.getOutputRingbuf a = some r → p.getOutputRingbuf b = some r → a = b

/-- What a successful link writes into the elements: the last one keeps its
output, the others write new ring buffers. -/
theorem link_outputs {s : Pipeline} {tags : List String} {mem : Nat → Mem}
    (hlisted : Listed s) (hok : (s.link tags mem).2 = ESP_OK)
    (hdist : DistinctTags tags)
    {els : List ElHandle}
    (htags : tags.map (s.link tags mem).1.elOf = els.map some)
    {i : Nat} {el : ElHandle} (hel : els[i]? = some el) :
    (i + 1 < els.length ∧
      (s.link tags mem).1.getOutputRingbuf el = some (s.rings.length + i) ∧
      s.rings.length + i ∈ (s.link tags mem).1.handles) ∨
    (i + 1 = els.length ∧
      (s.link tags mem).1.getOutputRingbuf el = s.getOutputRingbuf el) := by
  have hlt : i < els.length := (List.getElem?_eq_some_iff.1 hel).1
  have hlength : tags.length = els.length := by
    have := congrArg List.length htags
    rwa [List.length_map, List.length_map] at this
  have hgrows := link_grows s tags mem
  have hbal : Balanced s.unlink.1 (s.link tags mem).1 :=
    exec_balanced s (c := .link tags mem) trivial
  rcases link_ok hok with ⟨q, hloop, hq⟩
  have hloop' : (tagLoop (linkStep mem tags.length) tags 0 none
      s.unlink.1).2 = ESP_OK := by rw [hloop]
  rcases tagLoop_chain (linkStep_joins mem tags.length) hdist
    (fun _ => rfl) (by omega) hloop' with ⟨els', htags', hchained⟩
  rw [loopRbs_link (by omega) hloop', hloop, unlink_rings_length] at hchained
  have hkeeps : Keeps s.unlink.1 (s.link tags mem).1 := by
    rw [hq]
    exact ⟨hchained.keeps.els, hchained.keeps.tags⟩
  obtain rfl : els' = els := hkeeps.names_unique htags' htags
  have hout : ∀ e, (s.link tags mem).1.getOutputRingbuf e =
      q.getOutputRingbuf e := by
    intro e
    rw [hq]
    rfl
  by_cases hlast : i + 1 < els'.length
  · left
    have hr : (List.range' s.rings.length (tags.length - 1))[i]? =
        some (s.rings.length + i) := by
      rw [List.getElem?_range' (by omega), Nat.one_mul]
    have hwrites := hchained.output hel hr
    rw [← hout] at hwrites
    refine ⟨hlast, hwrites, ?_⟩
    apply mem_of_balanced hgrows hbal
    rcases hgrows.holds el _ (.inr hwrites) with hold | hmade
    · have hold' := hlisted.unlink.made _ hold
      rw [unlink_rings_length] at hold'
      omega
    · exact hmade
  · right
    refine ⟨by omega, ?_⟩
    have hend : els'.getLast? = some el := by
      rw [List.getLast?_eq_getElem?, ← hel]
      congr 1
      omega
    rw [hout, hchained.output_last hend]
    exact getOutput_of_els (congrFun (unlink_els s) el)

theorem Lined.of_link {s : Pipeline} {tags : List String} {mem : Nat → Mem}
    (hlisted : Listed s) (honce : (s.elList.map ElItem.el).Nodup)
    (hok : (s.link tags mem).2 = ESP_OK)
    (horder : tags.map (s.link tags mem).1.elOf =
      (s.link tags mem).1.linkedEls.map some) :
    Lined (s.link tags mem).1 := by
  have honce' : (s.unlink.1.elList.map ElItem.el).Nodup := by
    rw [(keeps_unlink s).els]
    exact honce
  rcases link_ok hok with ⟨q, hloop, hq⟩
  rcases @linkLoop_marks mem tags.length tags 0 none s.unlink.1 honce' with
    ⟨els, hmarks, -, hnamed, -⟩
  rw [hloop] at hmarks hnamed
  have hkeeps : Keeps s.unlink.1 (s.link tags mem).1 := by
    rw [hq]
    exact ⟨hmarks.keeps.els, hmarks.keeps.tags⟩
  have hels : els = (s.link tags mem).1.linkedEls :=
    hkeeps.names_unique (hnamed rfl) horder
  have hnodup : (s.link tags mem).1.linkedEls.Nodup := by
    refine List.Nodup.sublist (List.filter_sublist.map _) ?_
    rw [hkeeps.els]
    exact honce'
  have hdist := distinctTags_of_named horder hnodup
  have houtput : ∀ {i : Nat} {el : ElHandle},
      (s.link tags mem).1.linkedEls[i]? = some el → _ :=
    fun hel => link_outputs hlisted hok hdist horder hel
  refine ⟨(hlisted.unlink).grows (link_grows s tags mem), ?_, ?_, ?_, ?_⟩
  · rw [hkeeps.els]
    exact honce'
  · intro item hitem hlinked
    have hin : item.el ∈ els := by
      rw [hels]
      exact List.mem_map_of_mem (List.mem_filter.2 ⟨hitem, hlinked⟩)
    rw [hq] at hitem
    have hitem' : item ∈ q.elList := hitem
    rw [hmarks.items] at hitem'
    rcases List.mem_map.1 hitem' with ⟨item', -, rfl⟩
    rw [mark_el] at hin
    rw [mark, if_pos hin]
  · intro el hel
    rcases List.getElem?_of_mem hel with ⟨i, hi⟩
    rw [List.getElem?_dropLast] at hi
    split at hi
    · rename_i hlt
      rcases houtput hi with ⟨-, hout, hmem⟩ | ⟨hlast, -⟩
      · exact ⟨_, hmem, hout⟩
      · omega
    · cases hi
  · intro a ha b hb r hra hrb
    rcases List.getElem?_of_mem ha with ⟨i, hi⟩
    rcases List.getElem?_of_mem hb with ⟨j, hj⟩
    -- The rings are new and numbered, but for the last element's.
    have hnumber : ∀ {k : Nat} {el : ElHandle},
        (s.link tags mem).1.linkedEls[k]? = some el →
        (s.link tags mem).1.getOutputRingbuf el = some r →
        (k + 1 < (s.link tags mem).1.linkedEls.length ∧
          r = s.rings.length + k) ∨
        (k + 1 = (s.link tags mem).1.linkedEls.length ∧
          r < s.rings.length) := by
      intro k el hk hr
      rcases houtput hk with ⟨hlt, hout, -⟩ | ⟨hlast, hout⟩
      · exact .inl ⟨hlt, Option.some.inj (hr.symm.trans hout)⟩
      · exact .inr ⟨hlast,
          hlisted.made r (.inr ⟨_, .inr (hout.symm.trans hr)⟩)⟩
    have hij : i = j := by
      rcases hnumber hi hra with ⟨-, hr⟩ | ⟨hlast, hlt⟩ <;>
        rcases hnumber hj hrb with ⟨-, hr'⟩ | ⟨hlast', hlt'⟩ <;> omega
    rw [hij, hj] at hi
    exact (Option.some.inj hi).symm

/-! ## What is kept of it -/

theorem dropItem_el (p : Pipeline) (keptEl : Option ElHandle)
    (item : ElItem) : (p.dropItem keptEl item).el = item.el := by
  rw [Pipeline.dropItem, Pipeline.passItem]
  split
  · rfl
  · split <;> rfl

theorem dropItem_unlinked (p : Pipeline) (keptEl : Option ElHandle)
    {item : ElItem} (h : item.linked = false) :
    p.dropItem keptEl item = item := by
  have hun : p.attached item = false := by
    rw [Pipeline.attached, h, Bool.false_and]
  rw [Pipeline.dropItem, hun, if_neg (by simp), Pipeline.passItem,
    if_neg (by simp [h])]

/-- What breaking up does to an item of `el_list`. -/
def Pipeline.breakupEl (p : Pipeline) (keptEl : Option ElHandle)
    (first : ElHandle) (item : ElItem) : ElItem :=
  if item.el = first then { item with linked := false, keptCtx := true }
  else p.dropItem keptEl item

theorem breakupEl_el (p : Pipeline) (keptEl : Option ElHandle)
    (first : ElHandle) (item : ElItem) :
    (p.breakupEl keptEl first item).el = item.el := by
  rw [Pipeline.breakupEl]
  split
  · rfl
  · exact dropItem_el p keptEl item

section Kept

variable {p : Pipeline} {keptEl : Option ElHandle} {e₀ e₁ : ElHandle}
  {es : List ElHandle}

theorem linkedEls_nodup (hl : Lined p) : p.linkedEls.Nodup :=
  hl.once.sublist (List.filter_sublist.map _)

theorem mem_linkedEls {item : ElItem} (hitem : item ∈ p.elList)
    (h : item.linked = true) : item.el ∈ p.linkedEls :=
  List.mem_map_of_mem (List.mem_filter.2 ⟨hitem, h⟩)

theorem linked_of_mem (hl : Lined p) {item : ElItem}
    (hitem : item ∈ p.elList) (h : item.el ∈ p.linkedEls) :
    item.linked = true := by
  rcases List.mem_map.1 h with ⟨item', hitem', heq⟩
  rcases List.mem_filter.1 hitem' with ⟨hin, hlinked⟩
  obtain rfl : item' = item := List.inj_on_of_nodup_map hl.once hin hitem heq
  exact hlinked

/-- A linked element that is not the last one is attached. -/
theorem attached_of_early (hl : Lined p) {item : ElItem}
    (h : item.linked = true) (hearly : item.el ∈ p.linkedEls.dropLast) :
    p.attached item = true :=
  attached_iff.2 ⟨h, hl.writes _ hearly⟩

/-- The list around the first linked element. -/
theorem exists_first (hl : Lined p) (hels : p.linkedEls = e₀ :: e₁ :: es) :
    ∃ pre first post, p.elList = pre ++ first :: post ∧
      (∀ item ∈ pre, item.linked = false) ∧ p.attached first = true ∧
      first.el = e₀ ∧ (∀ item ∈ pre, item.el ≠ e₀) ∧
      ∀ item ∈ post, item.el ≠ e₀ := by
  have hearly : e₀ ∈ p.linkedEls.dropLast := by
    rw [hels]
    exact List.mem_cons_self
  rw [Pipeline.linkedEls] at hels
  rcases List.map_eq_cons_iff.1 hels with ⟨first, rest, hfilter, hel, -⟩
  rcases List.filter_eq_cons_iff.1 hfilter with
    ⟨pre, post, hlist, hpre, hlinked, -⟩
  have honce := hl.once
  rw [hlist, List.map_append, List.map_cons, hel] at honce
  rcases List.nodup_append.1 honce with ⟨-, hcons, hapart⟩
  refine ⟨pre, first, post, hlist, ?_, ?_, hel, ?_, ?_⟩
  · intro item hitem
    simpa using hpre item hitem
  · apply attached_of_early hl hlinked
    rw [hel]
    exact hearly
  · intro item hitem heq
    exact hapart item.el (List.mem_map_of_mem hitem) e₀ List.mem_cons_self heq
  · intro item hitem heq
    apply (List.nodup_cons.1 hcons).1
    rw [← heq]
    exact List.mem_map_of_mem hitem

theorem breakup_elList (hl : Lined p)
    (hels : p.linkedEls = e₀ :: e₁ :: es) :
    (p.breakupElements keptEl).1.elList =
      p.elList.map (p.breakupEl keptEl e₀) := by
  rcases exists_first hl hels with
    ⟨pre, first, post, hlist, hpre, hattached, hel, hne, hne'⟩
  have hloop := @breakupLoop_first p keptEl hl.listed.nodup first post
    hattached pre p.rbList rfl hpre
  rw [Pipeline.breakupElements]
  simp only [hlist, hloop]
  rw [List.map_append, List.map_cons]
  have hmappre : pre.map (p.breakupEl keptEl e₀) = pre := by
    refine (List.map_congr_left ?_).trans (List.map_id pre)
    intro item hitem
    rw [Pipeline.breakupEl, if_neg (hne item hitem),
      dropItem_unlinked p keptEl (hpre item hitem)]
    rfl
  have hmappost : post.map (p.breakupEl keptEl e₀) =
      post.map (p.dropItem keptEl) := by
    apply List.map_congr_left
    intro item hitem
    rw [Pipeline.breakupEl, if_neg (hne' item hitem)]
  rw [hmappre, hmappost, Pipeline.breakupEl, if_pos hel]

/-- The decisions: the first element is kept, and `kept_ctx_el`. -/
theorem mem_verdicts (hl : Lined p) (hels : p.linkedEls = e₀ :: e₁ :: es)
    {v : Verdict} (hv : v ∈ p.verdicts keptEl) :
    v.1 ∈ p.linkedEls ∧
      v.2 = (decide (v.1 = e₀) || decide (some v.1 = keptEl)) := by
  rcases exists_first hl hels with
    ⟨pre, first, post, hlist, hpre, hattached, hel, -, hne⟩
  have hnone : pre.filter p.attached = [] := by
    apply List.filter_eq_nil_iff.2
    intro item hitem
    rw [Pipeline.attached, hpre item hitem]
    simp
  have hin : ∀ item ∈ p.elList, p.attached item = true →
      item.el ∈ p.linkedEls :=
    fun item hitem h => mem_linkedEls hitem (attached_iff.1 h).1
  rw [Pipeline.verdicts, hlist, List.filter_append, hnone, List.nil_append,
    List.filter_cons_of_pos hattached, verdictsFrom] at hv
  rcases List.mem_cons.1 hv with rfl | hv
  · refine ⟨hin first (by simp [hlist]) hattached, ?_⟩
    simp [decision, hel]
  · rcases List.mem_map.1 hv with ⟨item, hitem, rfl⟩
    rcases List.mem_filter.1 hitem with ⟨hpost, hitem'⟩
    refine ⟨hin item (by simp [hlist, hpost]) hitem', ?_⟩
    simp [verdict, decision, hne item hpost]

theorem exists_verdict {item : ElItem} (hitem : item ∈ p.elList)
    (h : p.attached item = true) :
    ∃ v ∈ p.verdicts keptEl, v.1 = item.el := by
  have hmem : item.el ∈ (p.verdicts keptEl).map Prod.fst := by
    have hfst : (p.verdicts keptEl).map Prod.fst =
        (p.elList.filter p.attached).map ElItem.el := by
      rw [Pipeline.verdicts]
      cases p.elList.filter p.attached with
      | nil => rfl
      | cons first rest =>
          rw [verdictsFrom, List.map_cons, List.map_map]
          rfl
    rw [hfst]
    exact List.mem_map_of_mem (List.mem_filter.2 ⟨hitem, h⟩)
  rcases List.mem_map.1 hmem with ⟨v, hv, heq⟩
  exact ⟨v, hv, heq⟩

/-- A ring buffer that a linked element writes is kept with the element. -/
theorem staysKept_written (hl : Lined p)
    (hels : p.linkedEls = e₀ :: e₁ :: es) {el : ElHandle}
    (hel : el ∈ p.linkedEls) {rb : RbItem} (hrb : rb ∈ p.rbList)
    (hout : p.getOutputRingbuf el = some rb.rb) :
    p.staysKept keptEl rb =
      (decide (el = e₀) || decide (some el = keptEl)) := by
  rcases List.mem_map.1 hel with ⟨item, hitem, rfl⟩
  rcases List.mem_filter.1 hitem with ⟨hin, hlinked⟩
  have hattached : p.attached item = true :=
    attached_iff.2 ⟨hlinked, rb.rb, List.mem_map_of_mem hrb, hout⟩
  rcases @exists_verdict p keptEl item hin hattached with ⟨v, hv, hveq⟩
  have hmem : v ∈ (p.verdicts keptEl).filter fun v =>
      p.getOutputRingbuf v.1 = some rb.rb :=
    List.mem_filter.2 ⟨hv, by simpa [hveq] using hout⟩
  rw [Pipeline.staysKept, Pipeline.lastVerdict]
  cases hlast : ((p.verdicts keptEl).filter fun v =>
      p.getOutputRingbuf v.1 = some rb.rb).getLast? with
  | none =>
      rw [List.getLast?_eq_none_iff] at hlast
      rw [hlast] at hmem
      cases hmem
  | some w =>
      rcases List.mem_filter.1 (List.mem_of_getLast? hlast) with ⟨hw, hwout⟩
      rcases mem_verdicts hl hels hw with ⟨hwel, hwkept⟩
      have hsame : w.1 = item.el :=
        hl.apart _ hwel _ hel rb.rb (of_decide_eq_true hwout) hout
      rw [Option.map_some, Option.getD_some, hwkept, hsame]

/-- One that none writes keeps its mark. -/
theorem staysKept_unwritten (hl : Lined p)
    (hels : p.linkedEls = e₀ :: e₁ :: es) {rb : RbItem}
    (h : ∀ el ∈ p.linkedEls, p.getOutputRingbuf el ≠ some rb.rb) :
    p.staysKept keptEl rb = rb.keptCtx := by
  have hnone : ((p.verdicts keptEl).filter fun v =>
      p.getOutputRingbuf v.1 = some rb.rb) = [] := by
    apply List.filter_eq_nil_iff.2
    intro v hv hout
    exact h v.1 (mem_verdicts hl hels hv).1 (of_decide_eq_true hout)
  rw [Pipeline.staysKept, Pipeline.lastVerdict, hnone]
  rfl

/-! ## The announced effect -/

/-- The elements up to and including `kept_ctx_el`; for `NULL`, none. -/
def reserved (els : List ElHandle) : Option ElHandle → List ElHandle
  | none => []
  | some k => els.take (els.idxOf k + 1)

/-- Exactly the reserved elements and the ring buffers they write are kept,
these unchanged; everything else is unlinked, and the other ring buffers are
reset. -/
structure KeepsPrefix (p : Pipeline) (keptEl : Option ElHandle)
    (q : Pipeline) : Prop where
  els : ∀ item ∈ q.elList, item.keptCtx = true ↔
    item.el ∈ reserved p.linkedEls keptEl
  unlinked : ∀ item ∈ q.elList, item.keptCtx = false → item.linked = false
  rbs : ∀ rb ∈ q.rbList, rb.keptCtx = true ↔
    ∃ el ∈ reserved p.linkedEls keptEl, p.getOutputRingbuf el = some rb.rb
  contents : ∀ rb ∈ q.rbList, rb.keptCtx = true →
    q.rings[rb.rb]? = p.rings[rb.rb]?
  reset : ∀ rb ∈ q.rbList, rb.keptCtx = false →
    rb.linked = false ∧ q.resets rb.rb = p.resets rb.rb + 1

/-- `kept_ctx_el` is the first or the second linked element, and nothing is
left over: the last linked element, unless it is `kept_ctx_el`, writes no ring
buffer outside the list, no other element is marked as kept, and no ring
buffer that no linked element writes. -/
structure Reservable (p : Pipeline) (keptEl : Option ElHandle) : Prop where
  early : ∃ k ∈ p.linkedEls.take 2, keptEl = some k
  last : ∀ el r, p.linkedEls.getLast? = some el → keptEl ≠ some el →
    p.getOutputRingbuf el = some r → r ∈ p.handles
  unlinked : ∀ item ∈ p.elList, item.linked = false → item.keptCtx = false
  written : ∀ rb ∈ p.rbList, rb.keptCtx = true →
    ∃ el ∈ p.linkedEls, p.getOutputRingbuf el = some rb.rb

theorem reserved_subset (els : List ElHandle) (keptEl : Option ElHandle)
    {el : ElHandle} (h : el ∈ reserved els keptEl) : el ∈ els := by
  cases keptEl with
  | none => cases h
  | some k => exact (List.take_sublist _ _).subset h

/-- With `kept_ctx_el` among the first two, the reserved elements are the
first one and itself. -/
theorem mem_reserved (hk : ∃ k ∈ (e₀ :: e₁ :: es).take 2, keptEl = some k)
    (el : ElHandle) : el ∈ reserved (e₀ :: e₁ :: es) keptEl ↔
      (decide (el = e₀) || decide (some el = keptEl)) = true := by
  rcases hk with ⟨k, hk, rfl⟩
  rw [reserved]
  by_cases hfirst : k = e₀
  · subst hfirst
    simp
  · obtain rfl : k = e₁ := by
      have : k = e₀ ∨ k = e₁ := by simpa using hk
      exact this.resolve_left hfirst
    simp [List.idxOf_cons_ne _ (Ne.symm hfirst)]

/-- An element that is not reserved and was not marked before is not kept, and
the others are. -/
theorem breakupEl_kept (hl : Lined p) (hels : p.linkedEls = e₀ :: e₁ :: es)
    (h : Reservable p keptEl) {item : ElItem} (hitem : item ∈ p.elList) :
    ((p.breakupEl keptEl e₀ item).keptCtx = true ↔
      item.el ∈ reserved p.linkedEls keptEl) ∧
      ((p.breakupEl keptEl e₀ item).keptCtx = false →
        (p.breakupEl keptEl e₀ item).linked = false) := by
  have hmem := fun el => @mem_reserved keptEl e₀ e₁ es (hels ▸ h.early) el
  rw [← hels] at hmem
  rw [hmem, Pipeline.breakupEl]
  by_cases hfirst : item.el = e₀
  · rw [if_pos hfirst]
    simp [hfirst]
  rw [if_neg hfirst]
  simp only [hfirst, decide_false, Bool.false_or]
  cases hlinked : item.linked with
  | false =>
      rw [dropItem_unlinked p keptEl hlinked, h.unlinked item hitem hlinked]
      refine ⟨?_, fun _ => hlinked⟩
      have hne : some item.el ≠ keptEl := by
        intro heq
        rcases h.early with ⟨k, hk, hkept⟩
        rw [hkept] at heq
        cases heq
        have := linked_of_mem hl hitem ((List.take_sublist _ _).subset hk)
        rw [hlinked] at this
        cases this
      simp [hne]
  | true =>
      rw [Pipeline.dropItem]
      cases hattached : p.attached item with
      | true => simp [decision]
      | false =>
          rw [if_neg (by simp), Pipeline.passItem]
          -- Only the last element can be unattached.
          have hlast : p.linkedEls.getLast? = some item.el := by
            have hin := mem_linkedEls hitem hlinked
            have hne : p.linkedEls ≠ [] := List.ne_nil_of_mem hin
            rw [← List.dropLast_append_getLast hne, List.mem_append] at hin
            rcases hin with hearly | hin
            · rw [attached_of_early hl hlinked hearly] at hattached
              cases hattached
            · rw [List.getLast?_eq_some_getLast hne, List.mem_singleton.1 hin]
          by_cases hkept : some item.el = keptEl
          · rw [if_neg (by simp [decision, hkept])]
            simp [hkept, hl.marked item hitem hlinked]
          · have hout : p.getOutputRingbuf item.el = none := by
              cases hr : p.getOutputRingbuf item.el with
              | none => rfl
              | some r =>
                  have hin := h.last item.el r hlast (Ne.symm hkept) hr
                  rw [attached_iff.2 ⟨hlinked, r, hin, hr⟩] at hattached
                  cases hattached
            have hhandles : p.handles ≠ [] := by
              have hearly : e₀ ∈ p.linkedEls.dropLast := by
                rw [hels]
                exact List.mem_cons_self
              rcases hl.writes e₀ hearly with ⟨r, hr, -⟩
              exact List.ne_nil_of_mem hr
            rw [if_pos ⟨hlinked, by simp [decision, hkept], hout, hhandles⟩]
            simp [hkept]

/-- What happens to the ring buffers in any case. -/
theorem breakup_contents (hlisted : Listed p) {rb : RbItem}
    (hrb : rb ∈ (p.breakupElements keptEl).1.rbList) :
    (rb.keptCtx = true →
      (p.breakupElements keptEl).1.rings[rb.rb]? = p.rings[rb.rb]?) ∧
    (rb.keptCtx = false → rb.linked = false ∧
      (p.breakupElements keptEl).1.resets rb.rb = p.resets rb.rb + 1) := by
  rw [breakup_rbList hlisted.nodup] at hrb
  rcases List.mem_map.1 hrb with ⟨rb', hrb', rfl⟩
  rw [breakupRb_keptCtx, breakupRb_rb]
  constructor
  · exact breakup_ring_kept hlisted.nodup hrb'
  · intro hfree
    refine ⟨breakupRb_linked hfree, ?_⟩
    refine breakup_resets_free hlisted.nodup hrb' ?_ hfree
    exact hlisted.made _ (.inl (List.mem_map_of_mem hrb'))

theorem KeepsPrefix.of_reservable (hl : Lined p)
    (hels : p.linkedEls = e₀ :: e₁ :: es) (h : Reservable p keptEl) :
    KeepsPrefix p keptEl (p.breakupElements keptEl).1 := by
  have hmem := fun el => @mem_reserved keptEl e₀ e₁ es (hels ▸ h.early) el
  rw [← hels] at hmem
  refine ⟨?_, ?_, ?_, fun rb hrb => (breakup_contents hl.listed hrb).1,
    fun rb hrb => (breakup_contents hl.listed hrb).2⟩
  · rw [breakup_elList hl hels]
    intro item hitem
    rcases List.mem_map.1 hitem with ⟨item', hitem', rfl⟩
    rw [breakupEl_el]
    exact (breakupEl_kept hl hels h hitem').1
  · rw [breakup_elList hl hels]
    intro item hitem
    rcases List.mem_map.1 hitem with ⟨item', hitem', rfl⟩
    exact (breakupEl_kept hl hels h hitem').2
  · rw [breakup_rbList hl.listed.nodup]
    intro rb hrb
    rcases List.mem_map.1 hrb with ⟨rb', hrb', rfl⟩
    rw [breakupRb_keptCtx, breakupRb_rb]
    by_cases hwritten : ∃ el ∈ p.linkedEls,
        p.getOutputRingbuf el = some rb'.rb
    · rcases hwritten with ⟨el, hel, hout⟩
      rw [staysKept_written hl hels hel hrb' hout, ← hmem]
      constructor
      · exact fun hin => ⟨el, hin, hout⟩
      · rintro ⟨el', hin, hout'⟩
        obtain rfl : el' = el :=
          hl.apart _ (reserved_subset _ _ hin) _ hel _ hout' hout
        exact hin
    · rw [staysKept_unwritten hl hels fun el hel hout =>
        hwritten ⟨el, hel, hout⟩]
      constructor
      · exact fun hkept => absurd (h.written rb' hrb' hkept) hwritten
      · rintro ⟨el, hin, hout⟩
        exact absurd ⟨el, reserved_subset _ _ hin, hout⟩ hwritten

theorem exists_linked {el : ElHandle} (hel : el ∈ p.linkedEls) :
    ∃ item ∈ p.elList, item.linked = true ∧ item.el = el := by
  rcases List.mem_map.1 hel with ⟨item, hin, rfl⟩
  rcases List.mem_filter.1 hin with ⟨hin, hlinked⟩
  exact ⟨item, hin, hlinked, rfl⟩

theorem first_notMem (hl : Lined p) (hels : p.linkedEls = e₀ :: e₁ :: es) :
    e₀ ∉ e₁ :: es := by
  have hnodup := linkedEls_nodup hl
  rw [hels] at hnodup
  exact (List.nodup_cons.1 hnodup).1

/-! What a breakup that keeps its announcement says about each item before
it. -/

theorem KeepsPrefix.marks (hl : Lined p)
    (hels : p.linkedEls = e₀ :: e₁ :: es)
    (h : KeepsPrefix p keptEl (p.breakupElements keptEl).1)
    {item : ElItem} (hitem : item ∈ p.elList) :
    ((p.breakupEl keptEl e₀ item).keptCtx = true ↔
      item.el ∈ reserved p.linkedEls keptEl) ∧
    ((p.breakupEl keptEl e₀ item).keptCtx = false →
      (p.breakupEl keptEl e₀ item).linked = false) := by
  have hin : p.breakupEl keptEl e₀ item ∈
      (p.breakupElements keptEl).1.elList := by
    rw [breakup_elList hl hels]
    exact List.mem_map_of_mem hitem
  have hels' := h.els _ hin
  rw [breakupEl_el] at hels'
  exact ⟨hels', h.unlinked _ hin⟩

/-- With a later `kept_ctx_el` the second element would not be kept, with
`NULL` the first one would. -/
theorem KeepsPrefix.early (hl : Lined p)
    (hels : p.linkedEls = e₀ :: e₁ :: es)
    (hlinked : ∀ k, keptEl = some k → k ∈ p.linkedEls)
    (h : KeepsPrefix p keptEl (p.breakupElements keptEl).1) :
    ∃ k ∈ p.linkedEls.take 2, keptEl = some k := by
  cases keptEl with
  | none =>
      have hfirst : e₀ ∈ p.linkedEls := by simp [hels]
      rcases exists_linked hfirst with ⟨item, hin, -, hel⟩
      have hkept : item.el ∈ reserved p.linkedEls none :=
        (h.marks hl hels hin).1.1 (by rw [Pipeline.breakupEl, if_pos hel])
      cases hkept
  | some k =>
      by_contra hlate
      have hk : k ∉ p.linkedEls.take 2 := fun hk => hlate ⟨k, hk, rfl⟩
      have hk' := hlinked k rfl
      rw [hels] at hk hk'
      have hk₀ : k ≠ e₀ := fun heq => hk (by simp [heq])
      have hk₁ : k ≠ e₁ := fun heq => hk (by simp [heq])
      have hes : k ∈ es := by simpa [hk₀, hk₁] using hk'
      have hsecond : e₁ ∈ p.linkedEls := by simp [hels]
      rcases exists_linked hsecond with ⟨item, hin, hlinked, hel⟩
      have hne : item.el ≠ e₀ := by
        rw [hel]
        rintro rfl
        exact first_notMem hl hels List.mem_cons_self
      have hattached : p.attached item = true := by
        apply attached_of_early hl hlinked
        rw [hels, hel]
        cases es with
        | nil => cases hes
        | cons e es => simp
      have hreserved : item.el ∈ reserved p.linkedEls (some k) := by
        rw [hels, hel, reserved, List.idxOf_cons_ne _ (Ne.symm hk₀),
          List.idxOf_cons_ne _ (Ne.symm hk₁)]
        simp
      have hkept := (h.marks hl hels hin).1.2 hreserved
      rw [Pipeline.breakupEl, if_neg hne, Pipeline.dropItem,
        if_pos hattached] at hkept
      simp [decision, hel, Ne.symm hk₁] at hkept

/-- An unattached last element with an output would stay linked. -/
theorem KeepsPrefix.last (hl : Lined p)
    (hels : p.linkedEls = e₀ :: e₁ :: es)
    (hearly : ∃ k ∈ p.linkedEls.take 2, keptEl = some k)
    (h : KeepsPrefix p keptEl (p.breakupElements keptEl).1) {el : ElHandle}
    {r : RbHandle} (hlast : p.linkedEls.getLast? = some el)
    (hne : keptEl ≠ some el) (hout : p.getOutputRingbuf el = some r) :
    r ∈ p.handles := by
  by_contra hr
  have hmem := fun el => @mem_reserved keptEl e₀ e₁ es (hels ▸ hearly) el
  rw [← hels] at hmem
  rcases exists_linked (List.mem_of_getLast? hlast) with
    ⟨item, hin, hlinked, rfl⟩
  have hfirst : item.el ≠ e₀ := by
    rw [hels, List.getLast?_cons_cons] at hlast
    intro heq
    apply first_notMem hl hels
    rw [← heq]
    exact List.mem_of_getLast? hlast
  have hattached : p.attached item = false := by
    cases hattached : p.attached item with
    | false => rfl
    | true =>
        rcases (attached_iff.1 hattached).2 with ⟨r', hr', hout'⟩
        rw [hout] at hout'
        cases hout'
        exact absurd hr' hr
  have hstays : p.breakupEl keptEl e₀ item = item := by
    rw [Pipeline.breakupEl, if_neg hfirst, Pipeline.dropItem, hattached,
      if_neg (by simp), Pipeline.passItem, if_neg (by simp [hout])]
  rcases h.marks hl hels hin with ⟨hkept, hunlinked⟩
  rw [hstays] at hkept hunlinked
  cases hctx : item.keptCtx with
  | false =>
      rw [hunlinked hctx] at hlinked
      cases hlinked
  | true =>
      have hreserved := (hmem item.el).1 (hkept.1 hctx)
      simp [hfirst, Ne.symm hne] at hreserved

/-- An unlinked element keeps its mark. -/
theorem KeepsPrefix.unmarked (hl : Lined p)
    (hels : p.linkedEls = e₀ :: e₁ :: es)
    (h : KeepsPrefix p keptEl (p.breakupElements keptEl).1)
    {item : ElItem} (hin : item ∈ p.elList) (hunlinked : item.linked = false) :
    item.keptCtx = false := by
  have hnot : item.el ∉ p.linkedEls := by
    intro hel
    rw [linked_of_mem hl hin hel] at hunlinked
    cases hunlinked
  have hfirst : item.el ≠ e₀ := fun heq => hnot (by simp [heq, hels])
  have hkept := (h.marks hl hels hin).1
  rw [Pipeline.breakupEl, if_neg hfirst,
    dropItem_unlinked p keptEl hunlinked] at hkept
  cases hctx : item.keptCtx with
  | false => rfl
  | true => exact absurd (reserved_subset _ _ (hkept.1 hctx)) hnot

/-- So does a ring buffer that no linked element writes. -/
theorem KeepsPrefix.written (hl : Lined p)
    (hels : p.linkedEls = e₀ :: e₁ :: es)
    (h : KeepsPrefix p keptEl (p.breakupElements keptEl).1) {rb : RbItem}
    (hrb : rb ∈ p.rbList) (hkept : rb.keptCtx = true) :
    ∃ el ∈ p.linkedEls, p.getOutputRingbuf el = some rb.rb := by
  by_contra hwritten
  have hin : p.breakupRb keptEl rb ∈
      (p.breakupElements keptEl).1.rbList := by
    rw [breakup_rbList hl.listed.nodup]
    exact List.mem_map_of_mem hrb
  have hstays := h.rbs _ hin
  rw [breakupRb_keptCtx, breakupRb_rb, staysKept_unwritten hl hels
    fun el hel hout => hwritten ⟨el, hel, hout⟩] at hstays
  rcases hstays.1 hkept with ⟨el, hel, hout⟩
  exact hwritten ⟨el, reserved_subset _ _ hel, hout⟩

theorem KeepsPrefix.reservable (hl : Lined p)
    (hels : p.linkedEls = e₀ :: e₁ :: es)
    (hlinked : ∀ k, keptEl = some k → k ∈ p.linkedEls)
    (h : KeepsPrefix p keptEl (p.breakupElements keptEl).1) :
    Reservable p keptEl := by
  have hearly := h.early hl hels hlinked
  exact
    { early := hearly
      last := fun _ _ hlast hne hout => h.last hl hels hearly hlast hne hout
      unlinked := fun _ hitem => h.unmarked hl hels hitem
      written := fun _ hrb => h.written hl hels hrb }

end Kept

/-! ## The result -/

/-- **When breaking up keeps what it announces**, for a pipeline that was
linked in registration order, after any run: exactly when `kept_ctx_el` is the
first or the second linked element and nothing is left over. -/
theorem breakup_reserves {p s : Pipeline} (hfresh : Fresh p)
    (hrun : pipelineMachine.Reachable p s) {tags : List String}
    {mem : Nat → Mem} (hok : (s.link tags mem).2 = ESP_OK)
    (honce : (s.elList.map ElItem.el).Nodup)
    (horder : tags.map (s.link tags mem).1.elOf =
      (s.link tags mem).1.linkedEls.map some)
    (htwo : 2 ≤ tags.length) {keptEl : Option ElHandle}
    (hkept : ∀ k, keptEl = some k → k ∈ (s.link tags mem).1.linkedEls) :
    KeepsPrefix (s.link tags mem).1 keptEl
        ((s.link tags mem).1.breakupElements keptEl).1 ↔
      Reservable (s.link tags mem).1 keptEl := by
  have hl := Lined.of_link (Listed.of_reachable hfresh hrun) honce hok horder
  have hlength : tags.length = (s.link tags mem).1.linkedEls.length := by
    have := congrArg List.length horder
    rwa [List.length_map, List.length_map] at this
  rw [hlength] at htwo
  generalize hels : (s.link tags mem).1.linkedEls = els at htwo
  rcases els with _ | ⟨e₀, _ | ⟨e₁, es⟩⟩
  · simp at htwo
  · simp at htwo
  · exact ⟨fun h => h.reservable hl hels hkept, .of_reservable hl hels⟩

/-- The three elements of `registerThree`, linked. -/
def linkedThree : Pipeline :=
  ((bare.execAll registerThree).link ["a", "b", "c"] fun _ => .ok).1

theorem breakup_reserves_second :
    KeepsPrefix linkedThree (some 1)
      (linkedThree.breakupElements (some 1)).1 := by
  refine (breakup_reserves fresh_bare
    (reachable_execAll bare registerThree) (by decide +kernel)
    (by decide +kernel) (by decide +kernel) (by decide) ?_).2
    ⟨⟨1, by decide +kernel, rfl⟩, ?_, by decide +kernel, by decide +kernel⟩
  · intro k hk
    cases hk
    decide +kernel
  · intro el r hlast _ hout
    have hels : linkedThree.linkedEls = [0, 1, 2] := by decide +kernel
    have hnone : linkedThree.getOutputRingbuf 2 = none := by decide +kernel
    have hlast' : linkedThree.linkedEls.getLast? = some el := hlast
    rw [hels] at hlast'
    obtain rfl : 2 = el := by simpa using hlast'
    exact absurd (hnone.symm.trans hout) (by simp)

/-- With `NULL` the first element and its ring buffer are kept; with the third
element the second one is not. -/
theorem breakup_keeps_others :
    (linkedThree.breakupElements none).1.elList =
      [⟨0, false, true⟩, ⟨1, false, false⟩, ⟨2, false, false⟩] ∧
    (linkedThree.breakupElements none).1.rbList =
      [⟨0, 0, true, true⟩, ⟨1, 1, false, false⟩] ∧
    (linkedThree.breakupElements (some 2)).1.elList =
      [⟨0, false, true⟩, ⟨1, false, false⟩, ⟨2, true, true⟩] ∧
    ¬KeepsPrefix linkedThree none (linkedThree.breakupElements none).1 ∧
    ¬KeepsPrefix linkedThree (some 2)
      (linkedThree.breakupElements (some 2)).1 := by
  have hnull : (linkedThree.breakupElements none).1.elList =
      [⟨0, false, true⟩, ⟨1, false, false⟩, ⟨2, false, false⟩] := by
    decide +kernel
  have hthird : (linkedThree.breakupElements (some 2)).1.elList =
      [⟨0, false, true⟩, ⟨1, false, false⟩, ⟨2, true, true⟩] := by
    decide +kernel
  refine ⟨hnull, by decide +kernel, hthird, ?_, ?_⟩
  · intro h
    have hkept := (h.els ⟨0, false, true⟩ (by rw [hnull]; simp)).1 rfl
    cases hkept
  · intro h
    have hreserved : (1 : ElHandle) ∈
        reserved linkedThree.linkedEls (some 2) := by decide +kernel
    have hkept := (h.els ⟨1, false, false⟩ (by rw [hthird]; simp)).2 hreserved
    cases hkept

end EspAdf.Ports.AudioPipeline
