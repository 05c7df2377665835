import EspAdf.Ports.PipelineHandles

/-!
# Which elements are marked as linked

`audio_pipeline_link` marks each element as it walks the tags, and a failing
call returns in the middle without taking the marks back.  `pipeline->linked`
stays unset, so nothing else takes them back either: the next successful link
leaves elements marked that its tags do not name (`link_leaves_marks`).

`link_truthful` proves that this is the only way to go wrong.  From a
pipeline on which every failing link failed at its first tag, a link marks
exactly the elements it names, or none at all, if and only if it does not
fail after its first tag; `Linkable` says in terms of its arguments when it
does not fail.
-/

namespace EspAdf.Ports.AudioPipeline

open EspAdf.Verified

/-! ## The marks that one loop sets -/

/-- The marks that `audio_pipeline_link` sets on the items of `els`. -/
def mark (els : List ElHandle) (item : ElItem) : ElItem :=
  if item.el ∈ els then { item with linked := true, keptCtx := true } else item

theorem mark_el (els : List ElHandle) (item : ElItem) :
    (mark els item).el = item.el := by
  rw [mark]
  split <;> rfl

theorem mark_mark (els els' : List ElHandle) (item : ElItem) :
    mark els' (mark els item) = mark (els ++ els') item := by
  simp only [mark]
  by_cases h : item.el ∈ els
  · simp [h]
  · simp [h]

/-- Items of different elements: modifying the one of `el`. -/
theorem modify_eq_mark {items : List ElItem}
    (hnodup : (items.map ElItem.el).Nodup) {k : Nat} (hk : k < items.length) :
    (items.modify k fun item => { item with linked := true, keptCtx := true }) =
      items.map (mark [items[k].el]) := by
  rw [modify_eq_map hnodup hk]
  apply List.map_congr_left
  intro item _
  simp only [mark, List.mem_singleton]

/-- What the walk over the tags of the elements `els` does. -/
structure Marks (p q : Pipeline) (els : List ElHandle) : Prop where
  keeps : Keeps p q
  items : q.elList = p.elList.map (mark els)
  sizes : ∀ e, (q.els e).outRbSize = (p.els e).outRbSize

theorem Marks.refl (p : Pipeline) : Marks p p [] := by
  refine ⟨.refl p, ?_, fun _ => rfl⟩
  rw [show mark [] = id from funext fun item => by simp [mark], List.map_id]

theorem Marks.trans {p q s : Pipeline} {els els' : List ElHandle}
    (h : Marks p q els) (h' : Marks q s els') : Marks p s (els ++ els') := by
  refine ⟨h.keeps.trans h'.keeps, ?_, fun e => (h'.sizes e).trans (h.sizes e)⟩
  rw [h'.items, h.items, List.map_map]
  apply List.map_congr_left
  intro item _
  exact mark_mark els els' item

theorem Marks.of_same {p q : Pipeline} (hlist : q.elList = p.elList)
    (htags : ∀ e, (q.els e).tag = (p.els e).tag)
    (hsizes : ∀ e, (q.els e).outRbSize = (p.els e).outRbSize) :
    Marks p q [] := by
  have hrefl := Marks.refl p
  exact ⟨⟨by rw [hlist], htags⟩, by rw [hlist]; exact hrefl.items, hsizes⟩

theorem marks_updateEl (p : Pipeline) (el : ElHandle)
    {f : Element → Element} (htag : ∀ e, (f e).tag = e.tag)
    (hsize : ∀ e, (f e).outRbSize = e.outRbSize) :
    Marks p (p.updateEl el f) [] := by
  refine .of_same rfl (keeps_updateEl p el htag).tags fun e => ?_
  by_cases h : e = el
  · rw [h, updateEl_self, hsize]
  · rw [updateEl_ne h]

theorem marks_setInput (p : Pipeline) (el : ElHandle)
    (rb : Option RbHandle) : Marks p (p.setInputRingbuf el rb) [] := by
  cases rb with
  | none => exact .refl p
  | some r =>
      exact marks_updateEl p el
        (f := fun e => { e with input := .rb (some r) })
        (fun _ => rfl) fun _ => rfl

theorem marks_setInputUnlessFirst (p : Pipeline) (i : Nat) (el : ElHandle)
    (rb : Option RbHandle) : Marks p (p.setInputUnlessFirst i el rb) [] := by
  rw [Pipeline.setInputUnlessFirst]
  split
  · exact .refl p
  · exact marks_setInput p el rb

theorem marks_newOutput (p : Pipeline) (el : ElHandle) (item : RbItem)
    (r : RbHandle) :
    Marks p (((p.rbCreate el).insertRb item).setOutputRingbuf el (some r))
      [] := by
  have hset := marks_updateEl ((p.rbCreate el).insertRb item) el
    (f := fun e => { e with output := .rb (some r) }) (fun _ => rfl)
    fun _ => rfl
  exact (Marks.of_same (p := p) (q := (p.rbCreate el).insertRb item) rfl
    (fun _ => rfl) fun _ => rfl).trans hset

theorem marks_modifyEl {p : Pipeline}
    (hnodup : (p.elList.map ElItem.el).Nodup) (k : Fin p.elList.length) :
    Marks p (p.modifyEl k fun item =>
      { item with linked := true, keptCtx := true }) [(p.elList.get k).el] :=
  ⟨keeps_modifyEl p k fun _ => rfl, modify_eq_mark hnodup k.isLt,
    fun _ => rfl⟩

/-! ## One iteration -/

/-- Whether the iteration for `tag` succeeds: the tag names an element, and
unless it is the last, a ring buffer can be made. -/
def LinksTag (p : Pipeline) (mem : Nat → Mem) (linkNum i : Nat)
    (tag : String) : Prop :=
  ∃ el, p.elOf tag = some el ∧
    (i + 1 = linkNum ∨ p.rbFails el (mem i ≠ .ok) = false)

theorem Marks.rbFails {p q : Pipeline} {els : List ElHandle}
    (h : Marks p q els) (el : ElHandle) (failed : Bool) :
    q.rbFails el failed = p.rbFails el failed := by
  rw [Pipeline.rbFails, Pipeline.rbFails, h.sizes]

theorem linkStep_unknown {mem : Nat → Mem} {linkNum i : Nat}
    {rb : Option RbHandle} {tag : String} {p : Pipeline}
    (h : p.elOf tag = none) :
    linkStep mem linkNum i rb tag p = ⟨p, rb, ESP_FAIL⟩ := by
  cases hitem : p.getElItemByTag tag with
  | none => simp only [linkStep, hitem]
  | some k =>
      rw [elOf_of_found hitem] at h
      cases h

/-- An iteration for a known tag marks its element, whether it succeeds or
not. -/
theorem linkStep_marks {mem : Nat → Mem} {linkNum i : Nat}
    {rb : Option RbHandle} {tag : String} {p : Pipeline} {el : ElHandle}
    (hnodup : (p.elList.map ElItem.el).Nodup) (h : p.elOf tag = some el) :
    Marks p (linkStep mem linkNum i rb tag p).p [el] ∧
      ((linkStep mem linkNum i rb tag p).err = ESP_OK ↔
        i + 1 = linkNum ∨ p.rbFails el (mem i ≠ .ok) = false) := by
  cases hitem : p.getElItemByTag tag with
  | none =>
      rw [elOf_eq, itemOf_eq, hitem] at h
      cases h
  | some k =>
      obtain rfl : p.elList[k].el = el :=
        Option.some.inj ((elOf_of_found hitem).symm.trans h)
      have hmark := marks_modifyEl hnodup k
      simp only [linkStep, hitem]
      by_cases hlast : i + 1 = linkNum
      · rw [if_pos hlast]
        exact ⟨hmark.trans (marks_setInput _ _ rb), by simp [hlast]⟩
      · have hin := hmark.trans
          (marks_setInputUnlessFirst _ i p.elList[k].el rb)
        rw [if_neg hlast, hin.rbFails]
        cases hfails : p.rbFails p.elList[k].el (mem i ≠ .ok) with
        | true => exact ⟨hin, by simp [hlast, ESP_ERR_NO_MEM, ESP_OK]⟩
        | false =>
            exact ⟨hin.trans (marks_newOutput _ _ _ _), by simp⟩

/-! ## The loop -/

/-- Every iteration succeeds. -/
def LinksTags (p : Pipeline) (mem : Nat → Mem) (linkNum : Nat) :
    Nat → List String → Prop
  | _, [] => True
  | i, tag :: tags =>
      LinksTag p mem linkNum i tag ∧ LinksTags p mem linkNum (i + 1) tags

/-- All tags name elements and every ring buffer can be made. -/
def Linkable (p : Pipeline) (tags : List String) (mem : Nat → Mem) : Prop :=
  LinksTags p mem tags.length 0 tags

/-- That depends on the elements' names and output sizes only. -/
theorem linksTags_congr {p q : Pipeline} (hkeeps : Keeps p q)
    (hsizes : ∀ e, (q.els e).outRbSize = (p.els e).outRbSize)
    (mem : Nat → Mem) (linkNum : Nat) :
    ∀ (tags : List String) (i : Nat),
      LinksTags q mem linkNum i tags ↔ LinksTags p mem linkNum i tags := by
  intro tags
  induction tags with
  | nil => exact fun _ => Iff.rfl
  | cons tag tags ih =>
      intro i
      simp only [LinksTags, LinksTag, Pipeline.rbFails, hkeeps.elOf, hsizes,
        ih]

/-- A loop whose first tag is unknown does nothing. -/
theorem linkLoop_unknown {mem : Nat → Mem} {linkNum i : Nat}
    {rb : Option RbHandle} {tag : String} {tags : List String} {p : Pipeline}
    (h : p.elOf tag = none) :
    tagLoop (linkStep mem linkNum) (tag :: tags) i rb p = (p, ESP_FAIL) := by
  rw [tagLoop, linkStep_unknown h]
  rfl

/-- The loop marks the elements of some of its tags, of all when it succeeds;
the first is among them if its tag is known. -/
theorem linkLoop_marks {mem : Nat → Mem} {linkNum : Nat}
    {tags : List String} :
    ∀ {i : Nat} {rb : Option RbHandle} {p : Pipeline},
      (p.elList.map ElItem.el).Nodup →
      ∃ els, Marks p (tagLoop (linkStep mem linkNum) tags i rb p).1 els ∧
        ((tagLoop (linkStep mem linkNum) tags i rb p).2 = ESP_OK ↔
          LinksTags p mem linkNum i tags) ∧
        ((tagLoop (linkStep mem linkNum) tags i rb p).2 = ESP_OK →
          tags.map p.elOf = els.map some) ∧
        ∀ tag rest el, tags = tag :: rest → p.elOf tag = some el →
          el ∈ els := by
  induction tags with
  | nil =>
      intro i rb p _
      exact ⟨[], .refl p, by simp [tagLoop, LinksTags], fun _ => rfl,
        fun _ _ _ h => absurd h (by simp)⟩
  | cons tag tags ih =>
      intro i rb p hnodup
      cases hel : p.elOf tag with
      | none =>
          have hnone : ¬LinksTags p mem linkNum i (tag :: tags) := by
            rintro ⟨⟨el, hel', -⟩, -⟩
            rw [hel] at hel'
            cases hel'
          rw [linkLoop_unknown hel]
          refine ⟨[], .refl p, ?_, (fun herr => by cases herr), ?_⟩
          · simp [hnone, ESP_FAIL, ESP_OK]
          · intro tag' rest el heq hel'
            cases heq
            rw [hel] at hel'
            cases hel'
      | some el =>
          rcases @linkStep_marks mem linkNum i rb tag p el hnodup hel with
            ⟨hmarks, herr⟩
          have htag : LinksTag p mem linkNum i tag ↔
              (linkStep mem linkNum i rb tag p).err = ESP_OK := by
            rw [herr, LinksTag]
            simp [hel]
          rw [tagLoop]
          by_cases hok : (linkStep mem linkNum i rb tag p).err = ESP_OK
          · rw [if_pos hok]
            have hnodup' : ((linkStep mem linkNum i rb tag p).p.elList.map
                ElItem.el).Nodup := by
              rw [hmarks.keeps.els]
              exact hnodup
            rcases @ih (i + 1) (linkStep mem linkNum i rb tag p).rb
              (linkStep mem linkNum i rb tag p).p hnodup' with
              ⟨els, hrest, hlinks, hnamed, -⟩
            refine ⟨el :: els, hmarks.trans hrest, ?_, ?_, ?_⟩
            · rw [hlinks, linksTags_congr hmarks.keeps hmarks.sizes, LinksTags,
                htag]
              simp [hok]
            · intro hall
              rw [List.map_cons, List.map_cons, hel, ← hnamed hall]
              congr 1
              apply List.map_congr_left
              intro t _
              exact (hmarks.keeps.elOf t).symm
            · intro tag' rest el' heq hel'
              cases heq
              obtain rfl : el = el' := Option.some.inj (hel.symm.trans hel')
              exact List.mem_cons_self
          · rw [if_neg hok]
            refine ⟨[el], hmarks, ?_, fun h => absurd h hok, ?_⟩
            · rw [LinksTags, htag]
              simp [hok]
            · intro tag' rest el' heq hel'
              cases heq
              obtain rfl : el = el' := Option.some.inj (hel.symm.trans hel')
              exact List.mem_cons_self

/-! ## The effect of a link -/

/-- After a link that succeeds exactly the named elements are marked; after
one that fails none is, and there is no ring buffer on the list. -/
def LinkTruthful (q : Pipeline) (tags : List String) (err : Int) : Prop :=
  if err = ESP_OK then
    ∀ item ∈ q.elList,
      item.linked = true ↔ ∃ tag ∈ tags, q.elOf tag = some item.el
  else (∀ item ∈ q.elList, item.linked = false) ∧ q.rbList = []

/-- The first tag names no element. -/
def FirstUnknown (p : Pipeline) (tags : List String) : Prop :=
  ∃ tag rest, tags = tag :: rest ∧ p.elOf tag = none

/-- A link does not fail after its first tag. -/
def CarefulLink (p : Pipeline) : Call → Prop
  | .link tags mem => Linkable p tags mem ∨ FirstUnknown p tags
  | _ => True

/-- Registering, linking and their inverses; no relink and no breakup. -/
def OnlyLinks : Call → Prop
  | .register _ _ _ => True
  | .unregister _ => True
  | .link _ _ => True
  | .unlink => True
  | _ => False

/-- Each element is registered once, and while the pipeline is not linked, no
element is marked and no ring buffer listed. -/
structure Tidy (p : Pipeline) : Prop where
  nodup : (p.elList.map ElItem.el).Nodup
  unmarked : p.linked = false → ∀ item ∈ p.elList, item.linked = false
  unlisted : p.linked = false → p.rbList = []

theorem Tidy.of_fresh {p : Pipeline} (h : Fresh p) : Tidy p where
  nodup := by rw [h.elList]; exact List.nodup_nil
  unmarked := by rw [h.elList]; simp
  unlisted := fun _ => h.rbList

theorem unlink_linked (p : Pipeline) : p.unlink.1.linked = false := by
  cases h : p.linked with
  | false => rw [unlink_of_unlinked h, h]
  | true => rw [unlink_of_linked h]

theorem Tidy.unlink {p : Pipeline} (h : Tidy p) : Tidy p.unlink.1 := by
  cases hl : p.linked with
  | false => rw [unlink_of_unlinked hl]; exact h
  | true =>
      refine ⟨?_, ?_, ?_⟩
      · rw [(keeps_unlink p).els]
        exact h.nodup
      · intro _ item hitem
        rw [unlink_of_linked hl] at hitem
        rcases List.mem_map.1 hitem with ⟨item', -, rfl⟩
        rw [unlinkItem]
        split
        · rfl
        · rename_i hno
          exact Bool.eq_false_iff.2 hno
      · intro _
        rw [unlink_of_linked hl]

theorem Tidy.unregister {p : Pipeline} (h : Tidy p) (el : ElHandle) :
    Tidy (p.unregister el).1 ∧
      el ∉ (p.unregister el).1.elList.map ElItem.el := by
  rw [Pipeline.unregister]
  split
  · rename_i k hk
    have hlt : k.val < (p.elList.map ElItem.el).length := by
      rw [List.length_map]
      exact k.isLt
    have hel : (p.elList.map ElItem.el)[k.val] = el := by
      rw [List.getElem_map]
      exact of_decide_eq_true (List.findFinIdx?_eq_some_iff.1 hk).1
    have hmap : (p.elList.eraseIdx k).map ElItem.el =
        (p.elList.map ElItem.el).eraseIdx k :=
      (List.eraseIdx_map ElItem.el p.elList k).symm
    refine ⟨⟨?_, ?_, h.unlisted⟩, ?_⟩
    · show ((p.elList.eraseIdx k).map ElItem.el).Nodup
      rw [hmap]
      exact h.nodup.sublist (List.eraseIdx_sublist _ _)
    · intro hl item hitem
      exact h.unmarked hl item (List.mem_of_mem_eraseIdx hitem)
    · show el ∉ (p.elList.eraseIdx k).map ElItem.el
      rw [hmap]
      intro hmem
      rcases List.mem_eraseIdx_iff_getElem?.1 hmem with ⟨j, hne, hj⟩
      rcases List.getElem?_eq_some_iff.1 hj with ⟨hj', hvalj⟩
      exact hne ((List.Nodup.getElem_inj_iff h.nodup).1 (hvalj.trans hel.symm))
  · rename_i hnone
    refine ⟨⟨h.nodup, h.unmarked, h.unlisted⟩, ?_⟩
    intro hmem
    rcases List.mem_map.1 hmem with ⟨item, hitem, hel⟩
    have := List.findFinIdx?_eq_none_iff.1 hnone item hitem
    simp [hel] at this

theorem Tidy.register {p : Pipeline} (h : Tidy p) (el : ElHandle)
    (name : Option String) (mem : Mem) : Tidy (p.register el name mem).1 := by
  rcases h.unregister el with ⟨htidy, hnotin⟩
  rw [Pipeline.register]
  split
  · exact ⟨htidy.nodup, htidy.unmarked, htidy.unlisted⟩
  · refine ⟨?_, ?_, htidy.unlisted⟩
    · show (((p.unregister el).1.elList ++
        [(⟨el, false, false⟩ : ElItem)]).map ElItem.el).Nodup
      rw [List.map_append]
      refine List.nodup_append.2 ⟨htidy.nodup, by simp, ?_⟩
      rintro a ha b hb rfl
      obtain rfl : a = el := by simpa using hb
      exact hnotin ha
    · intro hl item hitem
      rcases List.mem_append.1 hitem with hold | hnew
      · exact htidy.unmarked hl item hold
      · obtain rfl : item = ⟨el, false, false⟩ := by simpa using hnew
        rfl

theorem linkable_unlink (p : Pipeline) (tags : List String)
    (mem : Nat → Mem) :
    LinksTags p.unlink.1 mem tags.length 0 tags ↔ Linkable p tags mem :=
  linksTags_congr (keeps_unlink p) (fun e => by rw [unlink_els]) mem
    tags.length tags 0

/-- A link that does not fail late leaves the pipeline tidy. -/
theorem Tidy.link {p : Pipeline} (h : Tidy p) {tags : List String}
    {mem : Nat → Mem} (hcareful : CarefulLink p (.link tags mem)) :
    Tidy (p.link tags mem).1 := by
  rcases hcareful with hlinkable | ⟨tag, rest, rfl, hnone⟩
  · rcases @linkLoop_marks mem tags.length tags 0 none p.unlink.1
      h.unlink.nodup with ⟨els, hmarks, hok, -, -⟩
    rw [Pipeline.link, unlink_if_linked]
    generalize tagLoop (linkStep mem tags.length) tags 0 none p.unlink.1
      = result at hmarks hok ⊢
    rcases result with ⟨q, err⟩
    have herr : err = ESP_OK := hok.2 ((linkable_unlink p tags mem).2 hlinkable)
    simp only [if_pos herr]
    refine ⟨?_, (fun hl => by cases hl), (fun hl => by cases hl)⟩
    show (q.elList.map ElItem.el).Nodup
    rw [hmarks.keeps.els]
    exact h.unlink.nodup
  · have hnone' : p.unlink.1.elOf tag = none := by
      rw [(keeps_unlink p).elOf]
      exact hnone
    rw [Pipeline.link, unlink_if_linked, linkLoop_unknown hnone']
    exact h.unlink

/-- A link that succeeds marks the elements it names, no others. -/
theorem Tidy.truthful_of_linkable {p : Pipeline} (h : Tidy p)
    {tags : List String} {mem : Nat → Mem} (hsucc : Linkable p tags mem) :
    LinkTruthful (p.link tags mem).1 tags (p.link tags mem).2 := by
  have hu := h.unlink
  have hunmarked := hu.unmarked (unlink_linked p)
  rcases @linkLoop_marks mem tags.length tags 0 none p.unlink.1 hu.nodup with
    ⟨els, hmarks, hok, hnamed, -⟩
  have herr := hok.2 ((linkable_unlink p tags mem).2 hsucc)
  have htags := hnamed herr
  rw [Pipeline.link, unlink_if_linked]
  generalize tagLoop (linkStep mem tags.length) tags 0 none p.unlink.1
    = result at hmarks herr ⊢
  rcases result with ⟨q, err⟩
  simp only at hmarks herr ⊢
  rw [if_pos herr, LinkTruthful, if_pos rfl]
  intro item hitem
  rw [show ({ q with linked := true } : Pipeline).elList = q.elList from rfl,
    hmarks.items] at hitem
  rcases List.mem_map.1 hitem with ⟨item', hmem, rfl⟩
  have hnames : (∃ tag ∈ tags, q.elOf tag = some (mark els item').el) ↔
      item'.el ∈ els := by
    rw [mark_el]
    constructor
    · rintro ⟨tag, htag, hel⟩
      rw [hmarks.keeps.elOf] at hel
      have hsome : some item'.el ∈ els.map some := by
        rw [← htags, ← hel]
        exact List.mem_map_of_mem htag
      simpa using hsome
    · intro hin
      have hsome : some item'.el ∈ tags.map p.unlink.1.elOf := by
        rw [htags]
        exact List.mem_map_of_mem hin
      rcases List.mem_map.1 hsome with ⟨tag, htag, hel⟩
      exact ⟨tag, htag, (hmarks.keeps.elOf tag).trans hel⟩
  refine Iff.trans ?_ hnames.symm
  rw [mark]
  split
  · rename_i hin
    simp [hin]
  · rename_i hin
    simp [hin, hunmarked item' hmem]

/-- A link that fails at its first tag leaves nothing behind. -/
theorem Tidy.truthful_of_unknown {p : Pipeline} (h : Tidy p)
    {tags : List String} (mem : Nat → Mem) (hunknown : FirstUnknown p tags) :
    LinkTruthful (p.link tags mem).1 tags (p.link tags mem).2 := by
  have hu := h.unlink
  rcases hunknown with ⟨tag, rest, rfl, hnone⟩
  rw [← (keeps_unlink p).elOf] at hnone
  rw [Pipeline.link, unlink_if_linked, linkLoop_unknown hnone]
  exact ⟨hu.unmarked (unlink_linked p), hu.unlisted (unlink_linked p)⟩

/-- A link that fails later leaves its first element marked. -/
theorem Tidy.not_truthful_of_late {p : Pipeline} (h : Tidy p)
    {tags : List String} {mem : Nat → Mem} (hfails : ¬Linkable p tags mem)
    (hknown : ¬FirstUnknown p tags) :
    ¬LinkTruthful (p.link tags mem).1 tags (p.link tags mem).2 := by
  rcases @linkLoop_marks mem tags.length tags 0 none p.unlink.1
    h.unlink.nodup with ⟨els, hmarks, hok, -, hfirst⟩
  have herr : (tagLoop (linkStep mem tags.length) tags 0 none
      p.unlink.1).2 ≠ ESP_OK := fun hz =>
    hfails ((linkable_unlink p tags mem).1 (hok.1 hz))
  cases tags with
  | nil => exact absurd trivial hfails
  | cons tag rest =>
      cases hel : p.unlink.1.elOf tag with
      | none =>
          rw [(keeps_unlink p).elOf] at hel
          exact absurd ⟨tag, rest, rfl, hel⟩ hknown
      | some el =>
          have hin := hfirst tag rest el rfl hel
          rw [Pipeline.link, unlink_if_linked]
          generalize tagLoop (linkStep mem (tag :: rest).length)
            (tag :: rest) 0 none p.unlink.1 = result at hmarks herr ⊢
          rcases result with ⟨q, err⟩
          simp only at hmarks herr ⊢
          rw [if_neg herr, LinkTruthful, if_neg herr]
          rintro ⟨hnone, -⟩
          have hmem := List.mem_of_find?_eq_some hel
          rcases List.mem_map.1 hmem with ⟨item, hitem, rfl⟩
          have hmarked : mark els item ∈ q.elList := by
            rw [hmarks.items]
            exact List.mem_map_of_mem hitem
          have hunmarked := hnone _ hmarked
          rw [mark, if_pos hin] at hunmarked
          cases hunmarked

/-- From a tidy pipeline a link does what it should exactly when it does not
fail after its first tag. -/
theorem Tidy.linkTruthful_iff {p : Pipeline} (h : Tidy p)
    (tags : List String) (mem : Nat → Mem) :
    LinkTruthful (p.link tags mem).1 tags (p.link tags mem).2 ↔
      Linkable p tags mem ∨ FirstUnknown p tags := by
  constructor
  · intro htruthful
    by_contra hbad
    rw [not_or] at hbad
    exact h.not_truthful_of_late hbad.1 hbad.2 htruthful
  · rintro (hsucc | hunknown)
    · exact h.truthful_of_linkable hsucc
    · exact h.truthful_of_unknown mem hunknown

/-! ## The result -/

/-- **A link marks what it says**, in every run whose links do not fail after
their first tag: exactly the elements it names when it succeeds, none when it
fails.  A link from such a state does so if and only if it does not fail late
itself. -/
theorem link_truthful {p s : Pipeline} (hfresh : Fresh p)
    (hrun : pipelineMachine.Reaches (fun u c => OnlyLinks c ∧ CarefulLink u c)
      p s) (tags : List String) (mem : Nat → Mem) :
    LinkTruthful (s.link tags mem).1 tags (s.link tags mem).2 ↔
      Linkable s tags mem ∨ FirstUnknown s tags := by
  have htidy : Tidy s := by
    refine hrun.invariant (Tidy.of_fresh hfresh) ?_
    rintro u c v hu ⟨honly, hcareful⟩ hs
    cases hs
    cases c with
    | register el name mem => exact hu.register el name mem
    | unregister el => exact (hu.unregister el).1
    | link tags mem => exact hu.link hcareful
    | unlink => exact hu.unlink
    | registerMore els mem => exact honly.elim
    | linkMore els mem => exact honly.elim
    | breakupElements keptEl => exact honly.elim
    | relink tags mem => exact honly.elim
  exact htidy.linkTruthful_iff tags mem

/-- Two elements, and a link whose tag names neither of them. -/
def linkStranger : List Call :=
  [.register 0 (some "a") .ok, .register 1 (some "b") .ok,
    .link ["x"] fun _ => .ok]

theorem link_truthful_stranger :
    LinkTruthful ((bare.execAll linkStranger).link ["b"] fun _ => .ok).1 ["b"]
      ((bare.execAll linkStranger).link ["b"] fun _ => .ok).2 := by
  have hstranger : CarefulLink (bare.execAll (linkStranger.take 2))
      (.link ["x"] fun _ => .ok) := .inr ⟨"x", [], rfl, by decide +kernel⟩
  have hrun : pipelineMachine.Reaches
      (fun u c => OnlyLinks c ∧ CarefulLink u c) bare
      (bare.execAll linkStranger) := by
    refine .head ⟨.register 0 (some "a") .ok, ⟨trivial, trivial⟩, rfl⟩ ?_
    refine .head ⟨.register 1 (some "b") .ok, ⟨trivial, trivial⟩, rfl⟩ ?_
    exact .head ⟨.link ["x"] fun _ => .ok, ⟨trivial, hstranger⟩, rfl⟩ .refl
  refine (link_truthful fresh_bare hrun ["b"] fun _ => .ok).2 (.inl ?_)
  exact ⟨⟨1, by decide +kernel, .inl rfl⟩, trivial⟩

/-- Two elements, and a link whose second tag names neither of them. -/
def linkHalfway : List Call :=
  [.register 0 (some "a") .ok, .register 1 (some "b") .ok,
    .link ["a", "x"] fun _ => .ok]

/-- The failing link leaves its first element marked and a ring buffer on the
list; so does the next link, which names the other element and succeeds. -/
theorem link_leaves_marks :
    ((bare.execAll (linkHalfway.take 2)).link ["a", "x"] fun _ => .ok).2 =
      ESP_FAIL ∧
    (bare.execAll linkHalfway).elList = [⟨0, true, true⟩, ⟨1, false, false⟩] ∧
    (bare.execAll linkHalfway).handles = [0] ∧
    ((bare.execAll linkHalfway).link ["b"] fun _ => .ok).2 = ESP_OK ∧
    ((bare.execAll linkHalfway).link ["b"] fun _ => .ok).1.elList =
      [⟨0, true, true⟩, ⟨1, true, true⟩] ∧
    ¬LinkTruthful ((bare.execAll linkHalfway).link ["b"] fun _ => .ok).1 ["b"]
      ((bare.execAll linkHalfway).link ["b"] fun _ => .ok).2 := by
  have hok : ((bare.execAll linkHalfway).link ["b"] fun _ => .ok).2 =
      ESP_OK := by decide +kernel
  have hlist : ((bare.execAll linkHalfway).link ["b"]
      fun _ => .ok).1.elList = [⟨0, true, true⟩, ⟨1, true, true⟩] := by
    decide +kernel
  refine ⟨by decide +kernel, by decide +kernel, by decide +kernel, hok, hlist,
    ?_⟩
  intro htruthful
  rw [LinkTruthful, if_pos hok] at htruthful
  have hmarked := (htruthful ⟨0, true, true⟩ (by rw [hlist]; simp)).1 rfl
  rcases hmarked with ⟨tag, htag, hel⟩
  obtain rfl : tag = "b" := by simpa using htag
  revert hel
  decide +kernel

end EspAdf.Ports.AudioPipeline
