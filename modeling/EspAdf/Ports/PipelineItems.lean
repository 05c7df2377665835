import EspAdf.Ports.PipelineHandles

/-!
# Does `audio_pipeline_check_items_state` count every element once?

Each item of `el_list` has an `el_state`.  `audio_pipeline_check_items_state`
stores the status in the first item that the element's tag names, and then
compares the status of every linked item with it.  So it relies on every
element having one item: `audio_pipeline_register_more`, `_link_more` and
`_link_insert` insert an item whether or not there is one already, and the
second one never gets a status.

The operations on the pipeline are those of `AudioPipeline`, with
`audio_pipeline_link_insert` added; `elState` runs along `el_list`, and an
inserted item starts with `AEL_STATUS_NONE`.

`check_exact_iff` proves that checks are exact as long as elements are
inserted once and a check finds something linked, and only then.
-/

namespace EspAdf.Ports.PipelineItems

open EspAdf.Verified
open EspAdf.Ports.AudioPipeline

/-! ## The system -/

/-- `audio_element_status_t`. -/
inductive Status where
  | none
  | errorOpen
  | errorInput
  | errorProcess
  | errorOutput
  | errorClose
  | errorTimeout
  | errorUnknown
  | inputDone
  | inputBuffering
  | outputDone
  | outputBuffering
  | stateRunning
  | statePaused
  | stateStopped
  | mounted
  | unmounted
  deriving DecidableEq, Repr

structure Sys where
  p : Pipeline
  /-- `el_state` of the items of `el_list`. -/
  elState : List Status
  /-- History: the last status given for an element since the last reset. -/
  given : ElHandle → Status

/-- `audio_pipeline_register_element`; `mem` says whether the item can be
allocated. -/
def registerElement (mem : Bool) (el : ElHandle) (p : Pipeline) : Pipeline :=
  if mem then p.insertEl ⟨el, true, false⟩ else p

/-- What the allocations of `audio_pipeline_link_insert` do. -/
structure InsertMem where
  prev : Bool
  next : Bool
  rb : Mem
  deriving DecidableEq, Repr

/-- `audio_pipeline_link_insert`. -/
def linkInsert (p : Pipeline) (first : Bool) (prev : ElHandle)
    (conectRb : RbHandle) (next : ElHandle) (mem : InsertMem) : Pipeline :=
  let p := if first then registerElement mem.prev prev p else p
  let p := registerElement mem.next next p
  let p := p.setOutputRingbuf prev (some conectRb)
  let p := p.setInputRingbuf next (some conectRb)
  { p.addRb conectRb prev mem.rb with linked := true }

/-- The items with their states. -/
def Sys.items (s : Sys) : List (ElItem × Status) := s.p.elList.zip s.elState

/-- `audio_pipeline_check_items_state`: undefined for an element that has no
tag, or whose tag names no item. -/
def checkItemsState (s : Sys) (el : ElHandle) (status : Status) :
    Option (Sys × Int) :=
  match (s.p.els el).tag with
  | none => none
  | some tag =>
      match s.p.getElItemByTag tag with
      | none => none
      | some it =>
          let s : Sys := { s with
            elState := s.elState.set it status
            given := Function.update s.given el status }
          let linked := s.items.filter fun x => x.1.linked
          let elCnt := linked.length
          let elStaCnt := linked.countP fun x =>
            x.2 ≠ .none ∧ status = x.2
          some (s, if elCnt ≠ 0 ∧ elStaCnt = elCnt then ESP_OK else ESP_FAIL)

/-- `audio_pipeline_reset_items_state`. -/
def resetItemsState (s : Sys) : Sys :=
  { s with
    elState := s.items.map fun x => if x.1.linked then .none else x.2
    given := fun _ => .none }

/-- The operations that build a pipeline. -/
inductive Build where
  | registerMore (els : List ElHandle) (mem : Nat → Mem)
  | linkMore (els : List ElHandle) (mem : Nat → Mem)
  | unlink
  | linkInsert (first : Bool) (prev : ElHandle) (conectRb : RbHandle)
      (next : ElHandle) (mem : InsertMem)

def Build.exec (p : Pipeline) : Build → Pipeline
  | .registerMore els mem => (Pipeline.registerMore mem els 0 p).1
  | .linkMore els mem => (p.linkMore els mem).1
  | .unlink => p.unlink.1
  | .linkInsert first prev conectRb next mem =>
      PipelineItems.linkInsert p first prev conectRb next mem

inductive ItemCall where
  | build (b : Build)
  | check (el : ElHandle) (status : Status)
  | reset

def itemStep (s : Sys) : ItemCall → Option Sys
  | .build b =>
      let p := b.exec s.p
      some { s with
        p := p
        elState := s.elState ++
          List.replicate (p.elList.length - s.elState.length) .none }
  | .check el status => (checkItemsState s el status).map Prod.fst
  | .reset => some (resetItemsState s)

def itemMachine : Machine Sys ItemCall := ⟨itemStep⟩

/-! ## The property and the condition -/

/-- The elements of the list. -/
def els (p : Pipeline) : List ElHandle := p.elList.map ElItem.el

/-- The status was given for every linked element. -/
def AllReported (s : Sys) (status : Status) : Prop :=
  status ≠ .none ∧
    ∀ item ∈ s.p.elList, item.linked = true → s.given item.el = status

/-- What the property says of one call: a check succeeds when the status was
given for every linked element, and each element has one item. -/
structure Exact (s : Sys) (c : ItemCall) : Prop where
  check : ∀ el status s' ret, c = .check el status →
    checkItemsState s el status = some (s', ret) →
    (ret = ESP_OK ↔ AllReported s' status)
  once : ∀ s', itemStep s c = some s' → (els s'.p).Nodup

/-- The elements that `audio_pipeline_register_more` inserts. -/
def registerMoreEls (mem : Nat → Mem) : List ElHandle → Nat → List ElHandle
  | [], _ => []
  | el :: els, i =>
      (if mem i ≠ .ok then [] else [el]) ++ registerMoreEls mem els (i + 1)

/-- The elements that `audio_pipeline_link_more` inserts before an allocation
fails. -/
def linkMoreEls (p : Pipeline) (mem : Nat → Mem) :
    List ElHandle → Nat → List ElHandle
  | [], _ => []
  | el :: els, i =>
      if mem i = .noItem then []
      else if els ≠ [] ∧ p.rbFails el (mem i = .noRb) = true then [el]
      else el :: linkMoreEls p mem els (i + 1)

/-- The elements that an operation inserts. -/
def Build.inserts (p : Pipeline) : Build → List ElHandle
  | .registerMore els mem => registerMoreEls mem els 0
  | .linkMore els mem => linkMoreEls p mem els 0
  | .unlink => []
  | .linkInsert first prev _ next mem =>
      (if first && mem.prev then [prev] else []) ++
        (if mem.next then [next] else [])

/-- The condition on a call: elements are inserted that have no item, and a
check of an element that has one finds something linked. -/
def CallOk (s : Sys) : ItemCall → Prop
  | .build b => (b.inserts s.p).Nodup ∧ ∀ el ∈ b.inserts s.p, el ∉ els s.p
  | .check el status => el ∈ els s.p → status ≠ .none →
      ∃ item ∈ s.p.elList, item.linked = true
  | .reset => True

instance (s : Sys) (c : ItemCall) : Decidable (CallOk s c) :=
  match c with
  | .build b => inferInstanceAs (Decidable ((b.inserts s.p).Nodup ∧
      ∀ el ∈ b.inserts s.p, el ∉ els s.p))
  | .check el status => inferInstanceAs (Decidable (el ∈ els s.p →
      status ≠ .none → ∃ item ∈ s.p.elList, item.linked = true))
  | .reset => inferInstanceAs (Decidable True)

/-- The elements have tags, pairwise different for `strcasecmp`. -/
def Tagged (p : Pipeline) : Prop :=
  ∀ e, ∃ tag, (p.els e).tag = some tag ∧
    ∀ e', p.hasTag e' tag = true ↔ e' = e

/-! ## What building does -/

/-- A step of building appends linked items and keeps the tags and sizes. -/
structure Appends (p q : Pipeline) (new : List ElHandle) : Prop where
  list : q.elList = p.elList ++ new.map fun el => ⟨el, true, false⟩
  tags : ∀ e, (q.els e).tag = (p.els e).tag
  sizes : ∀ e, (q.els e).outRbSize = (p.els e).outRbSize

theorem Appends.nothing {p q : Pipeline} (hlist : q.elList = p.elList)
    (hels : ∀ e, (q.els e).tag = (p.els e).tag ∧
      (q.els e).outRbSize = (p.els e).outRbSize) : Appends p q [] where
  list := by rw [hlist, List.map_nil, List.append_nil]
  tags := fun e => (hels e).1
  sizes := fun e => (hels e).2

theorem Appends.trans {p q r : Pipeline} {new new' : List ElHandle}
    (h : Appends p q new) (h' : Appends q r new') :
    Appends p r (new ++ new') where
  list := by rw [h'.list, h.list, List.map_append, List.append_assoc]
  tags := fun e => (h'.tags e).trans (h.tags e)
  sizes := fun e => (h'.sizes e).trans (h.sizes e)

theorem appends_insertEl (p : Pipeline) (el : ElHandle) :
    Appends p (p.insertEl ⟨el, true, false⟩) [el] :=
  ⟨rfl, fun _ => rfl, fun _ => rfl⟩

theorem appends_updateEl (p : Pipeline) (el : ElHandle)
    {f : Element → Element} (htag : ∀ e, (f e).tag = e.tag)
    (hsize : ∀ e, (f e).outRbSize = e.outRbSize) :
    Appends p (p.updateEl el f) [] := by
  refine .nothing rfl fun e => ?_
  by_cases he : e = el
  · subst he
    simp [Pipeline.updateEl, htag, hsize]
  · simp [Pipeline.updateEl, Function.update_of_ne he]

theorem appends_setInput (p : Pipeline) (el : ElHandle)
    (rb : Option RbHandle) : Appends p (p.setInputRingbuf el rb) [] := by
  cases rb with
  | none => exact .nothing rfl fun _ => ⟨rfl, rfl⟩
  | some r =>
      exact appends_updateEl p el
        (f := fun e => { e with input := .rb (some r) })
        (fun _ => rfl) fun _ => rfl

theorem appends_setOutput (p : Pipeline) (el : ElHandle)
    (rb : Option RbHandle) : Appends p (p.setOutputRingbuf el rb) [] := by
  cases rb with
  | none => exact .nothing rfl fun _ => ⟨rfl, rfl⟩
  | some r =>
      exact appends_updateEl p el
        (f := fun e => { e with output := .rb (some r) })
        (fun _ => rfl) fun _ => rfl

theorem appends_setInputUnlessFirst (p : Pipeline) (i : Nat) (el : ElHandle)
    (rb : Option RbHandle) :
    Appends p (p.setInputUnlessFirst i el rb) [] := by
  unfold Pipeline.setInputUnlessFirst
  split
  · exact .nothing rfl fun _ => ⟨rfl, rfl⟩
  · exact appends_setInput p el rb

theorem appends_addRb (p : Pipeline) (r : RbHandle) (el : ElHandle)
    (mem : Mem) : Appends p (p.addRb r el mem) [] := by
  unfold Pipeline.addRb
  split <;> exact .nothing rfl fun _ => ⟨rfl, rfl⟩

theorem appends_registerMore (mem : Nat → Mem) (els : List ElHandle)
    (i : Nat) (p : Pipeline) :
    Appends p (Pipeline.registerMore mem els i p).1
      (registerMoreEls mem els i) := by
  induction els generalizing i p with
  | nil => exact .nothing rfl fun _ => ⟨rfl, rfl⟩
  | cons el els ih =>
      rw [Pipeline.registerMore, registerMoreEls]
      by_cases hm : mem i ≠ .ok
      · rw [if_pos hm]
        simp only [if_pos hm]
        exact ih (i + 1) p
      · rw [if_neg hm]
        simp only [if_neg hm]
        exact (appends_insertEl p el).trans (ih (i + 1) _)

/-- Whether a ring buffer can be made does not depend on the links. -/
theorem linkMoreEls_congr {p q : Pipeline}
    (h : ∀ e, (q.els e).outRbSize = (p.els e).outRbSize) (mem : Nat → Mem)
    (els : List ElHandle) (i : Nat) :
    linkMoreEls q mem els i = linkMoreEls p mem els i := by
  induction els generalizing i with
  | nil => rfl
  | cons el els ih =>
      rw [linkMoreEls, linkMoreEls, ih, Pipeline.rbFails, Pipeline.rbFails,
        h el]

theorem appends_linkMoreLoop (mem : Nat → Mem) (els : List ElHandle)
    (i : Nat) (rb : Option RbHandle) (p : Pipeline) :
    Appends p (linkMoreLoop mem els i rb p).1 (linkMoreEls p mem els i) := by
  induction els generalizing i rb p with
  | nil => exact .nothing rfl fun _ => ⟨rfl, rfl⟩
  | cons el els ih =>
      rw [linkMoreLoop, linkMoreEls]
      split
      · exact .nothing rfl fun _ => ⟨rfl, rfl⟩
      · have hinsert := appends_insertEl p el
        by_cases hlast : els = []
        · subst hlast
          have hin := hinsert.trans (appends_setInput _ el rb)
          simp only [ne_eq, not_true_eq_false, false_and, if_false]
          exact hin.trans (ih (i + 1) rb _)
        · have hin := hinsert.trans
            (appends_setInputUnlessFirst _ i el rb)
          have hfails : ((p.insertEl ⟨el, true, false⟩).setInputUnlessFirst i
              el rb).rbFails el (mem i = .noRb) =
              p.rbFails el (mem i = .noRb) := by
            rw [Pipeline.rbFails, Pipeline.rbFails, hin.sizes]
          simp only [if_neg hlast, hfails]
          by_cases hf : p.rbFails el (mem i = .noRb) = true
          · rw [if_pos hf, if_pos ⟨hlast, hf⟩]
            exact hin
          · rw [if_neg hf, if_neg fun h => hf h.2]
            generalize (p.insertEl ⟨el, true, false⟩).setInputUnlessFirst i
              el rb = q at hin ⊢
            have hcreate : Appends q (q.rbCreate el) [] :=
              .nothing rfl fun _ => ⟨rfl, rfl⟩
            have hlisted := (hin.trans hcreate).trans
              (appends_addRb (q.rbCreate el) q.rings.length el (mem i))
            have hstep := hlisted.trans
              (appends_setOutput _ el (some q.rings.length))
            rw [← linkMoreEls_congr hstep.sizes mem els (i + 1)]
            exact hstep.trans (ih (i + 1) _ _)

theorem appends_registerElement (mem : Bool) (el : ElHandle) (p : Pipeline) :
    Appends p (registerElement mem el p) (if mem then [el] else []) := by
  cases mem with
  | false => exact .nothing rfl fun _ => ⟨rfl, rfl⟩
  | true => exact appends_insertEl p el

theorem appends_linkInsert (p : Pipeline) (first : Bool) (prev : ElHandle)
    (conectRb : RbHandle) (next : ElHandle) (mem : InsertMem) :
    Appends p (linkInsert p first prev conectRb next mem)
      ((if first && mem.prev then [prev] else []) ++
        (if mem.next then [next] else [])) := by
  have hprev : Appends p
      (if first then registerElement mem.prev prev p else p)
      (if first && mem.prev then [prev] else []) := by
    cases first with
    | false => exact .nothing rfl fun _ => ⟨rfl, rfl⟩
    | true => exact appends_registerElement mem.prev prev p
  have hnext := hprev.trans (appends_registerElement mem.next next _)
  have hout := hnext.trans (appends_setOutput _ prev (some conectRb))
  have hin := hout.trans (appends_setInput _ next (some conectRb))
  have hrb := hin.trans (appends_addRb _ conectRb prev mem.rb)
  simp only [List.append_nil] at hrb
  exact ⟨hrb.list, hrb.tags, hrb.sizes⟩

/-- What an operation does to the list: the items that are there stay and may
be unmarked, and the inserted ones follow them. -/
structure Builds (p q : Pipeline) (new : List ElHandle) : Prop where
  list : ∃ f : ElItem → ElItem, (∀ item, (f item).el = item.el ∧
      ((f item).linked = true → item.linked = true)) ∧
    q.elList = p.elList.map f ++ new.map fun el => ⟨el, true, false⟩
  tags : ∀ e, (q.els e).tag = (p.els e).tag

theorem Appends.builds {p q : Pipeline} {new : List ElHandle}
    (h : Appends p q new) : Builds p q new where
  list := ⟨id, fun _ => ⟨rfl, id⟩, by rw [List.map_id, h.list]⟩
  tags := h.tags

theorem builds_unlink (p : Pipeline) : Builds p p.unlink.1 [] := by
  refine ⟨?_, (keeps_unlink p).tags⟩
  cases h : p.linked with
  | false =>
      rw [unlink_of_unlinked h]
      exact ⟨id, fun _ => ⟨rfl, id⟩, by simp⟩
  | true =>
      rw [unlink_of_linked h]
      refine ⟨unlinkItem, fun item => ?_, by simp⟩
      unfold unlinkItem
      split
      · exact ⟨rfl, fun h => nomatch h⟩
      · exact ⟨rfl, id⟩

theorem Builds.appends {p q r : Pipeline} {new : List ElHandle}
    (h : Builds p q []) (h' : Appends q r new) : Builds p r new := by
  rcases h.list with ⟨f, hf, hlist⟩
  refine ⟨⟨f, hf, ?_⟩, fun e => (h'.tags e).trans (h.tags e)⟩
  rw [h'.list, hlist, List.map_nil, List.append_nil]

/-- What each operation inserts. -/
theorem builds_exec (p : Pipeline) (b : Build) :
    Builds p (b.exec p) (b.inserts p) := by
  cases b with
  | registerMore els mem => exact (appends_registerMore mem els 0 p).builds
  | linkMore els mem =>
      have hloop := appends_linkMoreLoop mem els 0 none p.unlink.1
      have hsame := linkMoreEls_congr
        (fun e => congrArg (fun f => (f e).outRbSize) (unlink_els p))
        mem els 0
      rw [hsame] at hloop
      rw [Build.exec, Pipeline.linkMore, unlink_if_linked]
      exact (builds_unlink p).appends hloop
  | unlink => exact builds_unlink p
  | linkInsert first prev conectRb next mem =>
      exact (appends_linkInsert p first prev conectRb next mem).builds

theorem Builds.els {p q : Pipeline} {new : List ElHandle}
    (h : Builds p q new) : els q = els p ++ new := by
  rcases h.list with ⟨f, hf, hlist⟩
  have hold : ElItem.el ∘ f = ElItem.el := funext fun item => (hf item).1
  have hnew : (ElItem.el ∘ fun el => ElItem.mk el true false) = id := rfl
  rw [PipelineItems.els, PipelineItems.els, hlist, List.map_append,
    List.map_map, List.map_map, hold, hnew, List.map_id]

theorem hasTag_congr {p q : Pipeline}
    (h : ∀ e, (q.els e).tag = (p.els e).tag) (e : ElHandle) (tag : String) :
    q.hasTag e tag = p.hasTag e tag := by
  rw [Pipeline.hasTag, Pipeline.hasTag, h]

theorem Tagged.congr {p q : Pipeline} (hp : Tagged p)
    (h : ∀ e, (q.els e).tag = (p.els e).tag) : Tagged q := by
  intro e
  rcases hp e with ⟨tag, htag, honly⟩
  refine ⟨tag, (h e).trans htag, fun e' => ?_⟩
  rw [hasTag_congr h]
  exact honly e'

/-! ## The invariant -/

/-- Each element has one item, and that of a linked one holds the status that
was given. -/
structure Known (s : Sys) : Prop where
  nodup : (els s.p).Nodup
  tagged : Tagged s.p
  length : s.elState.length = s.p.elList.length
  state : ∀ x ∈ s.items, x.1.linked = true → x.2 = s.given x.1.el
  fresh : ∀ el, el ∉ els s.p → s.given el = .none

/-- A pipeline without items. -/
structure Starts (s : Sys) : Prop where
  tagged : Tagged s.p
  elList : s.p.elList = []
  elState : s.elState = []
  given : ∀ el, s.given el = .none

theorem Starts.known {s : Sys} (h : Starts s) : Known s where
  nodup := by rw [els, h.elList]; exact List.nodup_nil
  tagged := h.tagged
  length := by rw [h.elList, h.elState]; rfl
  state := by
    intro x hx
    rw [Sys.items, h.elList] at hx
    cases hx
  fresh := fun el _ => h.given el

/-- An item after an operation is one from before, or a new one without a
status. -/
theorem mem_items_build {s : Sys} {q : Pipeline} {new : List ElHandle}
    (hlength : s.elState.length = s.p.elList.length)
    (h : Builds s.p q new) {x : ElItem × Status}
    (hx : x ∈ q.elList.zip (s.elState ++
      List.replicate (q.elList.length - s.elState.length) .none)) :
    (∃ y ∈ s.items, x.1.el = y.1.el ∧ x.2 = y.2 ∧
      (x.1.linked = true → y.1.linked = true)) ∨
    x.1.el ∈ new ∧ x.2 = .none := by
  rcases h.list with ⟨f, hf, hlist⟩
  rw [hlist, List.zip_append (by simp [hlength]), List.zip_map_left,
    List.mem_append] at hx
  rcases hx with hold | hnew
  · rcases List.mem_map.1 hold with ⟨y, hy, rfl⟩
    exact .inl ⟨y, hy, (hf y.1).1, rfl, (hf y.1).2⟩
  · have hboth := List.of_mem_zip hnew
    rcases List.mem_map.1 hboth.1 with ⟨el, hel, heq⟩
    rw [← heq]
    exact .inr ⟨hel, List.eq_of_mem_replicate hboth.2⟩

theorem Known.build {s t : Sys} (h : Known s) {b : Build}
    (hok : CallOk s (.build b)) (hs : itemStep s (.build b) = some t) :
    Known t := by
  cases hs
  have hb := builds_exec s.p b
  have hels := hb.els
  refine ⟨?_, h.tagged.congr hb.tags, ?_, ?_, ?_⟩
  · rw [hels, List.nodup_append]
    exact ⟨h.nodup, hok.1, fun e he e' he' heq => hok.2 e' he' (heq ▸ he)⟩
  · have hle : s.elState.length ≤ (b.exec s.p).elList.length := by
      have hlen := congrArg List.length hels
      simp only [els, List.length_map, List.length_append] at hlen
      rw [h.length, hlen]
      exact Nat.le_add_right _ _
    simp only [List.length_append, List.length_replicate]
    omega
  · intro x hx hlinked
    rcases mem_items_build h.length hb hx with ⟨y, hy, hel, hst, hl⟩ | hnew
    · rw [hst, hel]
      exact h.state y hy (hl hlinked)
    · rw [hnew.2]
      exact (h.fresh _ (hok.2 _ hnew.1)).symm
  · intro el hel
    rw [hels, List.mem_append] at hel
    exact h.fresh el fun hin => hel (.inl hin)

theorem Known.reset {s : Sys} (h : Known s) : Known (resetItemsState s) := by
  refine ⟨h.nodup, h.tagged, ?_, ?_, fun _ _ => rfl⟩
  · simp [resetItemsState, Sys.items, h.length]
  · intro x hx hlinked
    rcases List.mem_iff_getElem?.1 hx with ⟨i, hi⟩
    rw [Sys.items, List.getElem?_zip_eq_some] at hi
    rcases hi with ⟨hitem, hst⟩
    simp only [resetItemsState, Sys.items, List.getElem?_map] at hitem hst
    rcases Option.map_eq_some_iff.1 hst with ⟨y, hy, heq⟩
    rw [List.getElem?_zip_eq_some] at hy
    have hy1 : y.1 = x.1 := Option.some.inj (hy.1.symm.trans hitem)
    rw [hy1, if_pos hlinked] at heq
    exact heq.symm

/-- The item that the tag of an element names is its own. -/
theorem found_item {p : Pipeline} (h : Tagged p) {el : ElHandle}
    {tag : String} (htag : (p.els el).tag = some tag)
    (e : ElHandle) : p.hasTag e tag = true ↔ e = el := by
  rcases h el with ⟨tag', htag', honly⟩
  cases htag.symm.trans htag'
  exact honly e

/-- The counters of a check agree when all linked items have the status. -/
theorem counted_iff (items : List (ElItem × Status)) (status : Status) :
    ((items.filter fun x => x.1.linked).length ≠ 0 ∧
      ((items.filter fun x => x.1.linked).countP fun x =>
        x.2 ≠ .none ∧ status = x.2) =
        (items.filter fun x => x.1.linked).length) ↔
    (∃ x ∈ items, x.1.linked = true) ∧
      ∀ x ∈ items, x.1.linked = true → x.2 ≠ .none ∧ status = x.2 := by
  rw [List.countP_eq_length, ← Nat.pos_iff_ne_zero,
    List.length_filter_pos_iff]
  refine and_congr_right fun _ => ?_
  constructor
  · intro h x hx hlinked
    exact of_decide_eq_true (h x (List.mem_filter.2 ⟨hx, hlinked⟩))
  · intro h x hx
    have hmem := List.mem_filter.1 hx
    exact decide_eq_true (h x hmem.1 hmem.2)

/-- What a check finds and what it stores. -/
theorem check_cases {s t : Sys} (h : Known s) {el : ElHandle}
    {status : Status} {ret : Int}
    (hs : checkItemsState s el status = some (t, ret)) :
    ∃ it : Fin s.p.elList.length, s.p.elList[it].el = el ∧
      t = { s with
        elState := s.elState.set it status
        given := Function.update s.given el status } ∧
      (ret = ESP_OK ↔ (∃ x ∈ t.items, x.1.linked = true) ∧
        ∀ x ∈ t.items, x.1.linked = true → x.2 ≠ .none ∧ status = x.2) := by
  simp only [checkItemsState] at hs
  split at hs
  · cases hs
  · rename_i tag htag
    split at hs
    · cases hs
    · rename_i it hit
      simp only [Option.some.injEq, Prod.mk.injEq] at hs
      rcases hs with ⟨ht, hret⟩
      have hel := (List.findFinIdx?_eq_some_iff.1 hit).1
      refine ⟨it, (found_item h.tagged htag _).1 hel, ht.symm, ?_⟩
      rw [ht] at hret
      rw [← hret, ← counted_iff]
      split
      · exact iff_of_true rfl ‹_›
      · exact iff_of_false (by decide) ‹_›

theorem Known.check {s t : Sys} (h : Known s) {el : ElHandle}
    {status : Status} {ret : Int}
    (hs : checkItemsState s el status = some (t, ret)) : Known t := by
  rcases check_cases h hs with ⟨it, hel, rfl, -⟩
  refine ⟨h.nodup, h.tagged, ?_, ?_, ?_⟩
  · exact List.length_set.trans h.length
  · intro x hx hlinked
    rcases List.mem_iff_getElem?.1 hx with ⟨i, hi⟩
    rw [Sys.items, List.getElem?_zip_eq_some] at hi
    rcases hi with ⟨hitem, hst⟩
    simp only at hitem hst
    by_cases hit : it = i
    · rw [← hit] at hitem hst
      rw [List.getElem?_set_self (by rw [h.length]; exact it.isLt)] at hst
      have hx1 : x.1.el = el := by
        rw [← hel]
        rw [List.getElem?_eq_getElem it.isLt] at hitem
        exact congrArg ElItem.el (Option.some.inj hitem.symm)
      simp only [hx1, Function.update_self]
      exact (Option.some.inj hst).symm
    · rw [List.getElem?_set_ne hit] at hst
      have hother : x.1.el ≠ el := by
        intro heq
        refine hit ?_
        have hlt := (List.getElem?_eq_some_iff.1 hitem).1
        refine (List.getElem?_inj (l := els s.p) ?_ h.nodup).1 ?_
        · rw [els, List.length_map]
          exact it.isLt
        · rw [els, List.getElem?_map, List.getElem?_map, hitem,
            List.getElem?_eq_getElem it.isLt]
          exact congrArg some (hel.trans heq.symm)
      simp only [Function.update_of_ne hother]
      exact h.state x (List.mem_iff_getElem?.2
        ⟨i, List.getElem?_zip_eq_some.2 ⟨hitem, hst⟩⟩) hlinked
  · intro e he
    have hne : e ≠ el := by
      rintro rfl
      refine he ?_
      rw [← hel]
      exact List.mem_map_of_mem (List.getElem_mem it.isLt)
    simp only [Function.update_of_ne hne]
    exact h.fresh e he

/-- Every item has a state. -/
theorem Known.mem_items {s : Sys} (h : Known s) {item : ElItem}
    (hitem : item ∈ s.p.elList) : ∃ st, (item, st) ∈ s.items := by
  rcases List.mem_iff_getElem?.1 hitem with ⟨i, hi⟩
  have hlt : i < s.elState.length := by
    rw [h.length]
    exact (List.getElem?_eq_some_iff.1 hi).1
  exact ⟨s.elState[i], List.mem_iff_getElem?.2 ⟨i,
    List.getElem?_zip_eq_some.2 ⟨hi, List.getElem?_eq_getElem hlt⟩⟩⟩

/-- A check succeeds when something is linked and the status was given for all
of it. -/
theorem check_iff {s t : Sys} (h : Known s) {el : ElHandle}
    {status : Status} {ret : Int}
    (hs : checkItemsState s el status = some (t, ret)) :
    ret = ESP_OK ↔
      (∃ item ∈ s.p.elList, item.linked = true) ∧ AllReported t status := by
  have ht := h.check hs
  rcases check_cases h hs with ⟨it, -, hdef, hret⟩
  have hlist : s.p = t.p := by rw [hdef]
  rw [hret, hlist]
  constructor
  · rintro ⟨⟨x, hx, hlinked⟩, hall⟩
    refine ⟨⟨x.1, (List.of_mem_zip hx).1, hlinked⟩, ?_, ?_⟩
    · have hsame := hall x hx hlinked
      rw [hsame.2]
      exact hsame.1
    · intro item hitem hl
      rcases ht.mem_items hitem with ⟨st, hst⟩
      rw [← ht.state _ hst hl]
      exact (hall _ hst hl).2.symm
  · rintro ⟨⟨item, hitem, hl⟩, hne, hall⟩
    rcases ht.mem_items hitem with ⟨st, hst⟩
    refine ⟨⟨_, hst, hl⟩, fun x hx hlinked => ?_⟩
    have hgiven := hall x.1 (List.of_mem_zip hx).1 hlinked
    rw [ht.state x hx hlinked, hgiven]
    exact ⟨hne, rfl⟩

/-- A check of an element that has an item is defined. -/
theorem check_defined {s : Sys} (h : Known s) {el : ElHandle}
    (hel : el ∈ els s.p) (status : Status) :
    ∃ t ret, checkItemsState s el status = some (t, ret) := by
  rcases h.tagged el with ⟨tag, htag, honly⟩
  rcases List.mem_map.1 hel with ⟨item, hitem, rfl⟩
  simp only [checkItemsState, htag]
  cases hfind : s.p.getElItemByTag tag with
  | none =>
      exact absurd ((honly item.el).2 rfl)
        (List.findFinIdx?_eq_none_iff.1 hfind item hitem)
  | some it => exact ⟨_, _, rfl⟩

theorem Known.step {s t : Sys} (h : Known s) {c : ItemCall}
    (hok : CallOk s c) (hs : itemStep s c = some t) : Known t := by
  cases c with
  | build b => exact h.build hok hs
  | check el status =>
      rw [itemStep, Option.map_eq_some_iff] at hs
      rcases hs with ⟨⟨u, ret⟩, hcheck, rfl⟩
      exact h.check hcheck
  | reset =>
      cases hs
      exact h.reset

/-- One call is exact when it meets the condition, and only then. -/
theorem exact_iff {s : Sys} (h : Known s) (c : ItemCall) :
    Exact s c ↔ CallOk s c := by
  cases c with
  | build b =>
      have hels := (builds_exec s.p b).els
      constructor
      · intro hexact
        have hnodup := hexact.once _ rfl
        simp only [hels, List.nodup_append] at hnodup
        exact ⟨hnodup.2.1, fun e he hin => hnodup.2.2 e hin e he rfl⟩
      · intro hok
        exact ⟨fun _ _ _ _ hc => (nomatch hc),
          fun t ht => (h.build hok ht).nodup⟩
  | check el status =>
      constructor
      · intro hexact hel hne
        rcases check_defined h hel status with ⟨t, ret, hs⟩
        have hiff := hexact.check el status t ret rfl hs
        rw [check_iff h hs] at hiff
        by_contra hnone
        have hlist : t.p = s.p := by
          rcases check_cases h hs with ⟨it, -, rfl, -⟩
          rfl
        refine hnone (hiff.2 ⟨hne, fun item hitem hl => ?_⟩).1
        exact absurd ⟨item, hlist ▸ hitem, hl⟩ hnone
      · intro hok
        refine ⟨fun el' status' t ret hc hs => ?_, fun t ht => ?_⟩
        · cases hc
          rw [check_iff h hs]
          refine and_iff_right_of_imp fun hall => hok ?_ hall.1
          rcases check_cases h hs with ⟨it, hel, -, -⟩
          rw [← hel]
          exact List.mem_map_of_mem (List.getElem_mem it.isLt)
        · exact (h.step hok ht).nodup
  | reset =>
      refine iff_of_true ⟨fun _ _ _ _ hc => (nomatch hc), ?_⟩ trivial
      intro t ht
      cases ht
      exact h.nodup

/-- **Checks are exact, and every element has one item, as long as elements
are inserted once and a check finds something linked, and only then.** -/
theorem check_exact_iff {start : Sys} (h : Starts start)
    (calls : List ItemCall) :
    itemMachine.Meets Exact start calls ↔
      itemMachine.Meets CallOk start calls := by
  refine Machine.meets_congr (I := Known) ?_ ?_ h.known calls
  · exact fun _ c hs => exact_iff hs c
  · exact fun _ _ _ hs hok hstep => hs.step hok hstep

/-! ## Two pipelines -/

/-- Element `e` has a tag of `e` letters. -/
def lettered : Pipeline :=
  { bare with
    els := fun e => { bare.els e with
      tag := some (String.ofList (List.replicate e 'a')) } }

theorem lettered_tagged : Tagged lettered := by
  intro e
  refine ⟨_, rfl, fun e' => ?_⟩
  rw [Pipeline.hasTag]
  simp only [lettered, strcasecmp_iff, String.toList_ofList,
    List.map_replicate, List.replicate_inj]
  exact and_iff_left (.inr trivial)

def fresh : Sys := ⟨lettered, [], fun _ => .none⟩

theorem fresh_starts : Starts fresh :=
  ⟨lettered_tagged, rfl, rfl, fun _ => rfl⟩

def linkBoth : ItemCall := .build (.linkMore [0, 1] fun _ => .ok)

def report : List ItemCall :=
  [.check 0 .stateRunning, .check 1 .stateRunning]

/-- Two elements are linked once and report. -/
theorem check_exact_once :
    itemMachine.Meets Exact fresh (linkBoth :: report ++ [.reset]) := by
  have hrun : (itemMachine.runIf CallOk fresh
      (linkBoth :: report ++ [.reset])).isSome = true := by
    decide +kernel
  obtain ⟨s, hs⟩ := Option.isSome_iff_exists.1 hrun
  exact (check_exact_iff fresh_starts _).2 (Machine.meets_of_runIf hs).2

/-- Two elements are linked again: both report that they run, and no check
succeeds. -/
theorem check_blind : ∃ s t,
    itemMachine.run fresh (linkBoth :: .build .unlink :: linkBoth :: report) =
      some s ∧
    checkItemsState s 1 .stateRunning = some (t, ESP_FAIL) ∧
    AllReported t .stateRunning ∧ els t.p = [0, 1, 0, 1] ∧
    ¬Exact s (.check 1 .stateRunning) := by
  have h : (itemMachine.run fresh
      (linkBoth :: .build .unlink :: linkBoth :: report)).map (fun s =>
        (checkItemsState s 1 .stateRunning).map fun x =>
          (x.2, x.1.p.elList, x.1.given 0, x.1.given 1)) =
      some (some (ESP_FAIL, [⟨0, false, false⟩, ⟨1, false, false⟩,
        ⟨0, true, false⟩, ⟨1, true, false⟩], .stateRunning,
        .stateRunning)) := by
    decide +kernel
  simp only [Option.map_eq_some_iff, Prod.mk.injEq] at h
  obtain ⟨s, hrun, ⟨t, ret⟩, hcheck, hret, hlist, h0, h1⟩ := h
  have hall : AllReported t .stateRunning := by
    refine ⟨by decide, ?_⟩
    rw [hlist]
    simpa using ⟨h0, h1⟩
  cases hret
  refine ⟨s, t, hrun, hcheck, hall, by rw [els, hlist]; rfl, fun hexact => ?_⟩
  exact absurd ((hexact.check _ _ t ESP_FAIL rfl hcheck).2 hall) (by decide)

end EspAdf.Ports.PipelineItems
