import EspAdf.Ports.PipelineHandles
import EspAdf.Verified.FirstFit

/-!
# When linking makes a simple chain

`audio_pipeline_link` gives every element a ring buffer of its own.
`audio_pipeline_relink` reuses those on `rb_list`: an element with kept
context looks its ring buffer up by `host_el`, any other takes the first one
that is free.  But `host_el` is who created a ring buffer, not who writes it,
and is not updated when a free one is handed on; so a ring buffer may be
handed out as free and then again to its creator (`relink_twice`).

Relinking is first fit with reserved slots.  `links_form_chain` says that
after every successful link and relink of different tags the elements form a
simple chain, except when a relink meets a clash in the sense of `FirstFit`:
exactly then two of them share a ring buffer.  The first element keeps its
old input and the last its old output; the theorem also says when one of
these is the ring buffer at its other end.
-/

namespace EspAdf.Ports.AudioPipeline

open EspAdf.Verified
open EspAdf.Verified.FirstFit

/-! ## Linking -/

theorem length_newOutput (p : Pipeline) (el : ElHandle) (item : RbItem)
    (r : RbHandle) :
    (((p.rbCreate el).insertRb item).setOutputRingbuf el
      (some r)).rings.length = p.rings.length + 1 := by
  simp [Pipeline.setOutputRingbuf, Pipeline.updateEl, Pipeline.insertRb,
    Pipeline.rbCreate]

/-- An iteration that is not the last makes a ring buffer. -/
theorem linkStep_rb {mem : Nat → Mem} {linkNum i : Nat}
    {rb : Option RbHandle} {tag : String} {p : Pipeline}
    (hlast : i + 1 ≠ linkNum)
    (herr : (linkStep mem linkNum i rb tag p).err = ESP_OK) :
    (linkStep mem linkNum i rb tag p).rb = some p.rings.length ∧
      (linkStep mem linkNum i rb tag p).p.rings.length =
        p.rings.length + 1 := by
  cases hitem : p.getElItemByTag tag with
  | none =>
      simp only [linkStep, hitem] at herr
      cases herr
  | some k =>
      simp only [linkStep, hitem, if_neg hlast] at herr ⊢
      have hrings : ((p.modifyEl k fun item =>
          { item with linked := true, keptCtx := true }).setInputUnlessFirst i
            p.elList[k].el rb).rings = p.rings :=
        setInputUnlessFirst_rings _ i p.elList[k].el rb
      generalize (p.modifyEl k fun item =>
        { item with linked := true, keptCtx := true }).setInputUnlessFirst i
          p.elList[k].el rb = q at hrings herr ⊢
      split at herr
      · cases herr
      · rename_i hnew
        rw [if_neg hnew, ← hrings]
        exact ⟨rfl, length_newOutput q _ _ _⟩

/-- Linking gives out the ring buffers in the order it makes them. -/
theorem loopRbs_link {mem : Nat → Mem} {linkNum : Nat}
    {tags : List String} :
    ∀ {i : Nat} {rb : Option RbHandle} {p : Pipeline},
      linkNum = i + tags.length →
      (tagLoop (linkStep mem linkNum) tags i rb p).2 = ESP_OK →
      loopRbs (linkStep mem linkNum) tags i rb p =
        List.range' p.rings.length (tags.length - 1) := by
  induction tags with
  | nil =>
      intro i rb p _ _
      rfl
  | cons tag tags ih =>
      intro i rb p hnum hok
      cases tags with
      | nil => rfl
      | cons tag' tags =>
          rcases tagLoop_cons_ok hok with ⟨herr, heq⟩
          rw [heq] at hok
          have hlast : i + 1 ≠ linkNum := by
            rw [hnum, List.length_cons, List.length_cons]
            omega
          have hnum' : linkNum = (i + 1) + (tag' :: tags).length := by
            rw [hnum, List.length_cons (a := tag)]
            omega
          rcases linkStep_rb hlast herr with ⟨hrb, hlength⟩
          rw [loopRbs, ih hnum' hok, hlength, hrb]
          · rfl
          · exact List.cons_ne_nil _ _

/-! ## Relinking is first fit -/

/-- The marks of `rb_list`. -/
def Pipeline.slots (p : Pipeline) : List Bool := p.rbList.map RbItem.free

/-- What relinking asks for an element item. -/
def Pipeline.requestOf (p : Pipeline) (item : ElItem) : Request :=
  if item.keptCtx then
    match p.rbList.findIdx? fun rb => rb.hostEl = item.el with
    | some k => .own k
    | none => .fresh
  else .any

def Pipeline.request (p : Pipeline) (tag : String) : Request :=
  match p.itemOf tag with
  | some item => p.requestOf item
  | none => .fresh

/-- The ring buffer of a place on `rb_list`; beyond its end, the one that
will be made for that place. -/
def Pipeline.handleAt (p : Pipeline) (k : Nat) : Nat :=
  match p.handles[k]? with
  | some r => r
  | none => p.rings.length + (k - p.handles.length)

theorem length_handles (p : Pipeline) : p.handles.length = p.slots.length := by
  rw [Pipeline.handles, Pipeline.slots, List.length_map, List.length_map]

theorem handleAt_of_lt {p : Pipeline} {k : Nat} (h : k < p.handles.length) :
    p.handleAt k = p.handles[k] := by
  rw [Pipeline.handleAt, List.getElem?_eq_getElem h]

theorem handleAt_of_ge {p : Pipeline} {k : Nat} (h : p.handles.length ≤ k) :
    p.handleAt k = p.rings.length + (k - p.handles.length) := by
  rw [Pipeline.handleAt, List.getElem?_eq_none h]

theorem handleAt_congr {p q : Pipeline} (hlist : q.handles = p.handles)
    (hrings : q.rings = p.rings) : q.handleAt = p.handleAt := by
  funext k
  rw [Pipeline.handleAt, Pipeline.handleAt, hlist, hrings]

/-- Making the next ring buffer changes no place. -/
theorem handleAt_insert {p q : Pipeline}
    (hlist : q.handles = p.handles ++ [p.rings.length])
    (hrings : q.rings.length = p.rings.length + 1) :
    q.handleAt = p.handleAt := by
  have hlength : q.handles.length = p.handles.length + 1 := by
    rw [hlist, List.length_append]
    rfl
  funext k
  by_cases hlt : k < p.handles.length
  · rw [handleAt_of_lt hlt, handleAt_of_lt (by omega)]
    simp only [hlist, List.getElem_append_left hlt]
  · by_cases heq : k = p.handles.length
    · subst heq
      rw [handleAt_of_lt (by omega), handleAt_of_ge (Nat.le_refl _)]
      simp [hlist]
    · rw [handleAt_of_ge (by omega), handleAt_of_ge (by omega), hlength,
        hrings]
      omega

/-- A ring buffer that was made before is at a place of the list. -/
theorem lt_of_handleAt {p : Pipeline} {k : Nat}
    (h : p.handleAt k < p.rings.length) : k < p.handles.length := by
  by_cases hlt : k < p.handles.length
  · exact hlt
  · rw [handleAt_of_ge (by omega)] at h
    omega

theorem Listed.handle_lt {p : Pipeline} (h : Listed p) {k : Nat}
    (hk : k < p.handles.length) : p.handleAt k < p.rings.length := by
  rw [handleAt_of_lt hk]
  exact h.made _ (.inl (List.getElem_mem hk))

/-- Different places have different ring buffers. -/
theorem handleAt_injective {p : Pipeline} (h : Listed p) :
    Function.Injective p.handleAt := by
  intro a b hab
  by_cases ha : a < p.handles.length
  · have hb := lt_of_handleAt (hab ▸ h.handle_lt ha)
    rw [handleAt_of_lt ha, handleAt_of_lt hb] at hab
    exact (List.Nodup.getElem_inj_iff h.nodup).1 hab
  · by_cases hb : b < p.handles.length
    · exact absurd (lt_of_handleAt (hab ▸ h.handle_lt hb)) ha
    · rw [handleAt_of_ge (by omega), handleAt_of_ge (by omega)] at hab
      omega

theorem slots_modify (rbs : List RbItem) (k : Nat) :
    (rbs.modify k fun rb => { rb with linked := true }).map RbItem.free =
      (rbs.map RbItem.free).set k false := by
  apply List.ext_getElem?
  intro j
  rw [List.getElem?_map, List.getElem?_modify, List.getElem?_set,
    List.getElem?_map, List.length_map]
  by_cases hjk : k = j
  · subst hjk
    by_cases hlt : k < rbs.length
    · simp [hlt, RbItem.free]
    · simp [hlt]
  · simp [hjk]

theorem findFinIdx_val {rbs : List RbItem} {f : RbItem → Bool}
    {k : Fin rbs.length} (h : rbs.findFinIdx? f = some k) :
    rbs.findIdx? f = some k.val := by
  rw [List.findIdx?_eq_map_findFinIdx?_val, h]
  rfl

theorem findFinIdx_none {rbs : List RbItem} {f : RbItem → Bool}
    (h : rbs.findFinIdx? f = none) : rbs.findIdx? f = none := by
  rw [List.findIdx?_eq_map_findFinIdx?_val, h]
  rfl

/-- A request that is served from the list. -/
theorem serve_of_found {p : Pipeline} {item : ElItem}
    {k : Fin p.rbList.length} (h : p.findRelink item = some k) :
    serve p.slots (p.requestOf item) = (k.val, p.slots.set k false) := by
  rw [Pipeline.findRelink] at h
  rw [Pipeline.requestOf]
  split at h
  · rename_i hkept
    rw [if_pos hkept, findFinIdx_val h]
    rfl
  · rename_i hkept
    have hfind : p.slots.findIdx? id = some k.val := by
      rw [Pipeline.slots, List.findIdx?_map]
      exact findFinIdx_val h
    rw [if_neg hkept, serve]
    simp only [hfind]

/-- A request that needs a new ring buffer. -/
theorem serve_of_none {p : Pipeline} {item : ElItem}
    (h : p.findRelink item = none) :
    serve p.slots (p.requestOf item) =
      (p.slots.length, p.slots ++ [false]) := by
  rw [Pipeline.findRelink] at h
  rw [Pipeline.requestOf]
  split at h
  · rename_i hkept
    rw [if_pos hkept, findFinIdx_none h]
    rfl
  · rename_i hkept
    have hfind : p.slots.findIdx? id = none := by
      rw [Pipeline.slots, List.findIdx?_map]
      exact findFinIdx_none h
    rw [if_neg hkept, serve]
    simp only [hfind]

/-- An iteration gives the element `el` the ring buffer that first fit
serves.  It leaves what the requests of other elements depend on: whether
their context is kept, and the ring buffers recorded for them. -/
structure Serves (p : Pipeline) (r : Request) (el : ElHandle) (it : Iter) :
    Prop where
  rb : it.rb = some (p.handleAt (serve p.slots r).1)
  slots : it.p.slots = (serve p.slots r).2
  handleAt : it.p.handleAt = p.handleAt
  items : it.p.elList.map (fun item => (item.el, item.keptCtx)) =
    p.elList.map fun item => (item.el, item.keptCtx)
  hosts : ∃ new, it.p.rbList.map RbItem.hostEl =
    p.rbList.map RbItem.hostEl ++ new ∧ ∀ host ∈ new, host = el

/-- The ring buffer recorded for an element, as a request for a kept one. -/
def hostRequest (hosts : List ElHandle) (el : ElHandle) : Request :=
  match hosts.findIdx? fun host => host = el with
  | some k => .own k
  | none => .fresh

/-- What a request depends on: the element, whether its context is kept, and
the recorded hosts. -/
theorem request_eq (p : Pipeline) (tag : String) : p.request tag =
    match (p.elList.map fun item => (item.el, item.keptCtx)).find?
      fun item => p.hasTag item.1 tag with
    | some item =>
        if item.2 then hostRequest (p.rbList.map RbItem.hostEl) item.1
        else .any
    | none => .fresh := by
  rw [Pipeline.request, Pipeline.itemOf, List.find?_map]
  simp only [Function.comp_def]
  cases p.elList.find? fun item => p.hasTag item.el tag with
  | none => rfl
  | some item =>
      simp only [Option.map_some, Pipeline.requestOf, hostRequest,
        List.findIdx?_map, Function.comp_def]

theorem hostRequest_append {hosts new : List ElHandle} {el el' : ElHandle}
    (hnew : ∀ host ∈ new, host = el') (hne : el ≠ el') :
    hostRequest (hosts ++ new) el = hostRequest hosts el := by
  have hnone : new.findIdx? (fun host => decide (host = el)) = none := by
    rw [List.findIdx?_eq_none_iff]
    intro host hhost
    rw [hnew host hhost, decide_eq_false_iff_not]
    exact fun heq => hne heq.symm
  rw [hostRequest, hostRequest, List.findIdx?_append, hnone]
  cases hosts.findIdx? fun host => decide (host = el) <;> rfl

theorem Serves.request {p : Pipeline} {r : Request} {el : ElHandle}
    {it : Iter} (h : Serves p r el it) (hkeeps : Keeps p it.p) {tag : String}
    (htag : p.elOf tag ≠ some el) : it.p.request tag = p.request tag := by
  have hhas : ∀ e, it.p.hasTag e tag = p.hasTag e tag := by
    intro e
    rw [Pipeline.hasTag, Pipeline.hasTag, hkeeps.tags e]
  rcases h.hosts with ⟨new, hnew, hhost⟩
  rw [request_eq, request_eq, h.items, hnew]
  simp only [hhas]
  cases hfind : (p.elList.map fun item => (item.el, item.keptCtx)).find?
    fun item => p.hasTag item.1 tag with
  | none => rfl
  | some item =>
      have hel : p.elOf tag = some item.1 := by
        rw [Pipeline.elOf]
        rw [List.find?_map] at hfind ⊢
        rcases Option.map_eq_some_iff.1 hfind with ⟨item', hitem', rfl⟩
        rw [Function.comp_def] at hitem' ⊢
        rw [hitem']
        rfl
      have hne : item.1 ≠ el := by
        rintro rfl
        exact htag hel
      simp only [hostRequest_append hhost hne]

/-- The setters of an iteration leave the lists alone. -/
theorem setters_lists (p : Pipeline) (i : Nat) (el : ElHandle)
    (rb : Option RbHandle) (r : RbHandle) :
    let q := (p.setInputUnlessFirst i el rb).setOutputRingbuf el (some r)
    q.rbList = p.rbList ∧ q.rings = p.rings ∧ q.elList = p.elList := by
  simp only [Pipeline.setInputUnlessFirst]
  split
  · exact ⟨rfl, rfl, rfl⟩
  · cases rb <;> exact ⟨rfl, rfl, rfl⟩

theorem relinkRb_found {p : Pipeline} {item : ElItem}
    {k : Fin p.rbList.length} (h : p.findRelink item = some k) :
    p.relinkRb item = (p.modifyRb k fun rb => { rb with linked := true },
      some (p.handleAt k)) := by
  have hk : k.val < p.handles.length := by
    rw [Pipeline.handles, List.length_map]
    exact k.isLt
  simp only [Pipeline.relinkRb, h]
  rw [handleAt_of_lt hk]
  simp [Pipeline.handles]

theorem relinkRb_none {p : Pipeline} {item : ElItem}
    (h : p.findRelink item = none) : p.relinkRb item = (p, none) := by
  simp only [Pipeline.relinkRb, h]

/-- The element is given a ring buffer of the list. -/
theorem serves_found {p : Pipeline} {item : ElItem}
    {k : Fin p.rbList.length} (h : p.findRelink item = some k) (i : Nat)
    (rb : Option RbHandle) :
    Serves p (p.requestOf item) item.el
      ⟨((p.modifyRb k fun rb => { rb with linked := true }).setInputUnlessFirst
        i item.el rb).setOutputRingbuf item.el (some (p.handleAt k)),
        some (p.handleAt k), ESP_OK⟩ := by
  have hlists := setters_lists (p.modifyRb k fun rb =>
    { rb with linked := true }) i item.el rb (p.handleAt k)
  rcases hlists with ⟨hrbs, hrings, hitems⟩
  have hserve := serve_of_found h
  exact {
    rb := by rw [hserve]
    slots := by
      rw [hserve, Pipeline.slots, hrbs]
      exact slots_modify p.rbList k
    handleAt := by
      apply handleAt_congr
      · rw [Pipeline.handles, hrbs]
        exact handles_modifyRb p k fun _ => rfl
      · exact hrings
    items := by
      rw [hitems]
      rfl
    hosts := by
      refine ⟨[], ?_, by simp⟩
      rw [hrbs, List.append_nil]
      exact map_modify_same
        (f := fun rb : RbItem => { rb with linked := true })
        (fun _ => rfl) p.rbList k }

/-- The element is given a new ring buffer. -/
theorem serves_new {p : Pipeline} {item : ElItem}
    (h : p.findRelink item = none) (i : Nat) (rb : Option RbHandle) :
    Serves p (p.requestOf item) item.el
      ⟨(((p.rbCreate item.el).insertRb
        ⟨p.rings.length, item.el, true, false⟩).setInputUnlessFirst
          i item.el rb).setOutputRingbuf item.el (some p.rings.length),
        some p.rings.length, ESP_OK⟩ := by
  have hlists := setters_lists ((p.rbCreate item.el).insertRb
    ⟨p.rings.length, item.el, true, false⟩) i item.el rb p.rings.length
  rcases hlists with ⟨hrbs, hrings, hitems⟩
  have hserve := serve_of_none h
  exact {
    rb := by
      rw [hserve, ← length_handles, handleAt_of_ge (Nat.le_refl _),
        Nat.sub_self]
      rfl
    slots := by
      rw [hserve, Pipeline.slots, hrbs]
      simp [Pipeline.insertRb, Pipeline.rbCreate, Pipeline.slots, RbItem.free]
    handleAt := by
      apply handleAt_insert
      · rw [Pipeline.handles, hrbs]
        simp [Pipeline.insertRb, Pipeline.rbCreate, Pipeline.handles]
      · rw [hrings]
        simp [Pipeline.insertRb, Pipeline.rbCreate]
    items := by
      rw [hitems]
      rfl
    hosts := by
      refine ⟨[item.el], ?_, by simp⟩
      rw [hrbs]
      simp [Pipeline.insertRb, Pipeline.rbCreate] }

/-- Marking the element item comes first. -/
theorem Serves.of_mark {p : Pipeline} {r : Request} {el : ElHandle}
    {it : Iter} {k : Nat}
    (h : Serves (p.modifyEl k fun item => { item with linked := true })
      r el it) : Serves p r el it where
  rb := h.rb
  slots := h.slots
  handleAt := h.handleAt
  items := h.items.trans <| map_modify_same
    (f := fun item : ElItem => { item with linked := true })
    (fun _ => rfl) p.elList k
  hosts := h.hosts

/-- **One iteration of relinking is one step of first fit.** -/
theorem relinkStep_serves {mem : Nat → Mem} {linkNum i : Nat}
    {rb : Option RbHandle} {tag : String} {p : Pipeline}
    (hlast : i + 1 ≠ linkNum)
    (herr : (relinkStep mem linkNum i rb tag p).err = ESP_OK) :
    ∃ el, p.elOf tag = some el ∧
      Serves p (p.request tag) el (relinkStep mem linkNum i rb tag p) := by
  cases hitem : p.getElItemByTag tag with
  | none =>
      simp only [relinkStep, hitem] at herr
      cases herr
  | some k =>
      refine ⟨p.elList[k].el, elOf_of_found hitem, ?_⟩
      have hrequest : p.request tag = p.requestOf p.elList[k] := by
        rw [Pipeline.request, itemOf_eq, hitem]
        rfl
      rw [hrequest]
      simp only [relinkStep, hitem, if_neg hlast] at herr ⊢
      apply Serves.of_mark (k := k)
      cases hfind : p.findRelink p.elList[k] with
      | some m =>
          rw [@relinkRb_found (p.modifyEl k fun item =>
            { item with linked := true }) p.elList[k] m hfind]
          exact @serves_found (p.modifyEl k fun item =>
            { item with linked := true }) p.elList[k] m hfind i rb
      | none =>
          rw [@relinkRb_none (p.modifyEl k fun item =>
            { item with linked := true }) p.elList[k] hfind] at herr ⊢
          simp only at herr ⊢
          split at herr
          · cases herr
          · rename_i hnew
            rw [if_neg hnew]
            exact @serves_new (p.modifyEl k fun item =>
              { item with linked := true }) p.elList[k] hfind i rb

/-- Another tag names another element. -/
theorem elOf_ne_of_distinct {p : Pipeline} {a b : String} {el : ElHandle}
    (h : strcasecmp a b = false) (ha : p.elOf a = some el) :
    p.elOf b ≠ some el := by
  intro hb
  rw [strcasecmp_of_elOf ha hb] at h
  cases h

/-- **Relinking is first fit**: the ring buffers that the elements but the
last are given are those that first fit serves. -/
theorem loopRbs_relink {mem : Nat → Mem} {linkNum : Nat}
    {tags : List String} :
    ∀ {i : Nat} {rb : Option RbHandle} {p : Pipeline}, DistinctTags tags →
      (i = 0 → rb = none) → linkNum = i + tags.length →
      (tagLoop (relinkStep mem linkNum) tags i rb p).2 = ESP_OK →
      loopRbs (relinkStep mem linkNum) tags i rb p =
        (serveAll p.slots (tags.dropLast.map p.request)).map p.handleAt := by
  induction tags with
  | nil =>
      intro i rb p _ _ _ _
      rfl
  | cons tag tags ih =>
      intro i rb p hdist hfirst hnum hok
      cases tags with
      | nil => rfl
      | cons tag' tags =>
          rcases tagLoop_cons_ok hok with ⟨herr, heq⟩
          rw [heq] at hok
          have hlast : i + 1 ≠ linkNum := by
            rw [hnum, List.length_cons, List.length_cons]
            omega
          have hnum' : linkNum = (i + 1) + (tag' :: tags).length := by
            rw [hnum, List.length_cons]
            omega
          rcases List.pairwise_cons.1 hdist with ⟨hhead, htail⟩
          rcases relinkStep_serves hlast herr with ⟨el, hel, hserves⟩
          have hkeeps : Keeps p (relinkStep mem linkNum i rb tag p).p := by
            rcases relinkStep_joins mem linkNum i rb tag p hfirst herr with
              ⟨_, _, hjoined⟩
            exact hjoined.keeps
          have hrequests : (tag' :: tags).dropLast.map
              (relinkStep mem linkNum i rb tag p).p.request =
              (tag' :: tags).dropLast.map p.request := by
            apply List.map_congr_left
            intro t ht
            exact hserves.request hkeeps <|
              elOf_ne_of_distinct
                (hhead t ((List.dropLast_sublist _).subset ht)) hel
          rw [loopRbs, ih htail (fun h => by omega) hnum' hok, hrequests,
            hserves.slots, hserves.handleAt, hserves.rb]
          · rfl
          · exact List.cons_ne_nil _ _

/-! ## The requests of one call -/

/-- Only the recorded host asks for a ring buffer of its own. -/
theorem request_own {p : Pipeline} {tag : String} {k : Nat}
    (h : p.request tag = .own k) : k < p.slots.length ∧
      p.elOf tag = (p.rbList[k]?).map RbItem.hostEl := by
  rw [Pipeline.request] at h
  rw [elOf_eq]
  cases hitem : p.itemOf tag with
  | none =>
      rw [hitem] at h
      cases h
  | some item =>
      rw [hitem] at h
      simp only [Pipeline.requestOf] at h
      split at h
      · split at h
        · rename_i j hfind
          cases h
          rcases List.findIdx?_eq_some_iff_getElem.1 hfind with ⟨hlt, hhost, -⟩
          rw [List.getElem?_eq_getElem hlt]
          refine ⟨by rw [Pipeline.slots, List.length_map]; exact hlt, ?_⟩
          exact congrArg some (of_decide_eq_true hhost).symm
        · cases h
      · cases h

theorem ownsOnce_requests {p : Pipeline} {tags : List String}
    (hdist : DistinctTags tags) (hfound : ∀ tag ∈ tags, p.elOf tag ≠ none) :
    OwnsOnce (tags.map p.request) := by
  apply List.pairwise_map.2
  apply List.Pairwise.imp_of_mem _ hdist
  intro a b ha _ hab k hak hbk
  have hsame : p.elOf b = p.elOf a :=
    (request_own hbk).2.trans (request_own hak).2.symm
  rcases Option.ne_none_iff_exists'.1 (hfound a ha) with ⟨el, hel⟩
  exact elOf_ne_of_distinct hab hel (hsame.trans hel)

theorem own_lt_requests {p : Pipeline} {tags : List String} {k : Nat}
    (h : .own k ∈ tags.map p.request) : k < p.slots.length := by
  rcases List.mem_map.1 h with ⟨tag, -, htag⟩
  exact (request_own htag).1

/-- After the tags `pre`, relinking gives the element of `tag` the ring buffer
`r` of the list. -/
def Pipeline.Grants (p : Pipeline) (pre : List String) (tag : String)
    (r : RbHandle) : Prop :=
  ∃ k, p.handles[k]? = some r ∧
    takes p.slots (pre.map p.request) (p.request tag) k

theorem grants_iff {p : Pipeline} {pre : List String} {tag : String}
    {post : List Request} {r : Nat} (hr : r < p.rings.length)
    (hnodup : (serveAll p.slots
      (pre.map p.request ++ p.request tag :: post)).Nodup) :
    ((serveAll p.slots (pre.map p.request ++ p.request tag :: post)).map
      p.handleAt)[pre.length]? = some r ↔ p.Grants pre tag r := by
  have hserve : ∀ k, k < p.handles.length →
      ((serveAll p.slots
        (pre.map p.request ++ p.request tag :: post))[pre.length]? = some k ↔
        takes p.slots (pre.map p.request) (p.request tag) k) := by
    intro k hk
    rw [length_handles] at hk
    have htakes := serveAll_iff_takes hk (fun j => own_lt_requests) hnodup
    rw [List.length_map] at htakes
    exact htakes
  rw [List.getElem?_map, Option.map_eq_some_iff]
  constructor
  · rintro ⟨k, hk, rfl⟩
    have hlt := lt_of_handleAt hr
    refine ⟨k, ?_, (hserve k hlt).1 hk⟩
    rw [handleAt_of_lt hlt]
    exact List.getElem?_eq_getElem hlt
  · rintro ⟨k, hk, htakes⟩
    rcases List.getElem?_eq_some_iff.1 hk with ⟨hlt, hval⟩
    exact ⟨k, (hserve k hlt).2 htakes, (handleAt_of_lt hlt).trans hval⟩

/-! ## What the first and the last element keep -/

/-- A chain of one element: it does not read what it writes. -/
def Pipeline.SingleApart (p : Pipeline) (tags : List String) : Prop :=
  ∀ tag e r, tags = [tag] → p.elOf tag = some e →
    p.getInputRingbuf e = some r → p.getOutputRingbuf e ≠ some r

/-- Relinking does not give the first element what it reads, nor the element
before the last what the last one writes. -/
structure Pipeline.RelinkApart (p : Pipeline) (tags : List String) :
    Prop where
  single : p.SingleApart tags
  first : ∀ a b rest e r, tags = a :: b :: rest → p.elOf a = some e →
    p.getInputRingbuf e = some r → ¬p.Grants [] a r
  last : ∀ pre a b e r, tags = pre ++ [a, b] → p.elOf b = some e →
    p.getOutputRingbuf e = some r → ¬p.Grants pre a r

section Stale

variable {p : Pipeline} {tags : List String} {els : List ElHandle}

theorem singleApart_iff (htags : tags.map p.elOf = els.map some) :
    p.SingleApart tags ↔ ∀ e r, els = [e] → p.getInputRingbuf e = some r →
      p.getOutputRingbuf e ≠ some r := by
  constructor
  · rintro hsingle e r rfl hin
    rcases List.map_eq_singleton_iff.1 htags with ⟨tag, rfl, htag⟩
    exact hsingle tag e r rfl htag hin
  · rintro hsingle tag e r rfl hel hin
    rw [List.map_singleton, hel] at htags
    rcases List.map_eq_singleton_iff.1 htags.symm with ⟨a, rfl, ha⟩
    obtain rfl : a = e := Option.some.inj ha
    exact hsingle a r rfl hin

theorem head_iff (htags : tags.map p.elOf = els.map some) {e : ElHandle} :
    els.head? = some e ↔ ∃ a rest, tags = a :: rest ∧ p.elOf a = some e := by
  have hhead : tags.head?.map p.elOf = els.head?.map some := by
    rw [← List.head?_map, ← List.head?_map, htags]
  cases tags with
  | nil =>
      obtain rfl : els = [] := by simpa using htags.symm
      simp
  | cons a rest =>
      cases els with
      | nil => cases htags
      | cons e' es =>
          have ha : p.elOf a = some e' := Option.some.inj hhead
          constructor
          · intro he
            exact ⟨a, rest, rfl, ha.trans he⟩
          · rintro ⟨_, _, heq, hel⟩
            cases heq
            exact ha.symm.trans hel

theorem getLast_iff (htags : tags.map p.elOf = els.map some) {e : ElHandle} :
    els.getLast? = some e ↔
      ∃ pre b, tags = pre ++ [b] ∧ p.elOf b = some e := by
  have hlast : tags.getLast?.map p.elOf = els.getLast?.map some := by
    rw [← List.getLast?_map, ← List.getLast?_map, htags]
  constructor
  · intro he
    rw [he] at hlast
    rcases Option.map_eq_some_iff.1 hlast with ⟨b, hb, hel⟩
    rcases List.getLast?_eq_some_iff.1 hb with ⟨pre, hpre⟩
    exact ⟨pre, b, hpre, hel⟩
  · rintro ⟨pre, b, rfl, hel⟩
    rw [List.getLast?_concat, Option.map_some, hel] at hlast
    rcases Option.map_eq_some_iff.1 hlast.symm with ⟨e', he', heq⟩
    cases heq
    exact he'

/-- The ring buffers that relinking gives to the elements but the last. -/
def Pipeline.given (p : Pipeline) (tags : List String) : List RbHandle :=
  (serveAll p.slots (tags.dropLast.map p.request)).map p.handleAt

theorem length_given (p : Pipeline) (tags : List String) :
    (p.given tags).length = tags.length - 1 := by
  rw [Pipeline.given, List.length_map, length_serveAll, List.length_map,
    List.length_dropLast]

theorem given_first_iff {a b : String} {rest : List String} {r : Nat}
    (hr : r < p.rings.length)
    (hnodup : (serveAll p.slots
      ((a :: b :: rest).dropLast.map p.request)).Nodup) :
    (p.given (a :: b :: rest)).head? = some r ↔ p.Grants [] a r := by
  rw [List.head?_eq_getElem?]
  exact @grants_iff p [] a _ r hr hnodup

theorem given_last_iff {pre : List String} {a b : String} {r : Nat}
    (hr : r < p.rings.length)
    (hnodup : (serveAll p.slots
      ((pre ++ [a, b]).dropLast.map p.request)).Nodup) :
    (p.given (pre ++ [a, b])).getLast? = some r ↔ p.Grants pre a r := by
  have hdrop : (pre ++ [a, b]).dropLast.map p.request =
      pre.map p.request ++ [p.request a] := by
    rw [List.dropLast_append_of_ne_nil (by simp)]
    simp
  rw [hdrop] at hnodup
  rw [List.getLast?_eq_getElem?, length_given, Pipeline.given, hdrop,
    ← grants_iff hr hnodup, List.length_append]
  rfl

theorem staleApart_iff (hlisted : Listed p)
    (htags : tags.map p.elOf = els.map some)
    (hnodup : (serveAll p.slots (tags.dropLast.map p.request)).Nodup) :
    StaleApart p els (p.given tags) ↔ p.RelinkApart tags := by
  have hin : ∀ e r, p.getInputRingbuf e = some r → r < p.rings.length :=
    fun e r h => hlisted.made r (.inr ⟨e, .inl h⟩)
  have hout : ∀ e r, p.getOutputRingbuf e = some r → r < p.rings.length :=
    fun e r h => hlisted.made r (.inr ⟨e, .inr h⟩)
  constructor
  · intro hstale
    refine ⟨(singleApart_iff htags).2 hstale.single, ?_, ?_⟩
    · rintro a b rest e r rfl hel hread hgrants
      exact hstale.first e r ((head_iff htags).2 ⟨a, _, rfl, hel⟩) hread
        ((given_first_iff (hin e r hread) hnodup).2 hgrants)
    · rintro pre a b e r rfl hel hwrite hgrants
      have hlast : els.getLast? = some e :=
        (getLast_iff htags).2 ⟨pre ++ [a], b, by simp, hel⟩
      exact hstale.last e r hlast hwrite
        ((given_last_iff (hout e r hwrite) hnodup).2 hgrants)
  · intro hrelink
    have htwo : ∀ r, r ∈ p.given tags → 2 ≤ tags.length := by
      intro r hr
      have hpos := List.length_pos_of_mem hr
      rw [length_given] at hpos
      omega
    refine ⟨(singleApart_iff htags).1 hrelink.single, ?_, ?_⟩
    · intro e r he hread hgiven
      rcases (head_iff htags).1 he with ⟨a, rest, rfl, hel⟩
      cases rest with
      | nil =>
          have := htwo r (List.mem_of_mem_head? hgiven)
          simp at this
      | cons b rest =>
          exact hrelink.first a b rest e r rfl hel hread
            ((given_first_iff (hin e r hread) hnodup).1 hgiven)
    · intro e r he hwrite hgiven
      rcases (getLast_iff htags).1 he with ⟨pre, b, rfl, hel⟩
      rcases List.eq_nil_or_concat pre with rfl | ⟨pre, a, rfl⟩
      · have := htwo r (List.mem_of_getLast? hgiven)
        simp at this
      · rw [List.concat_eq_append, List.append_assoc] at hgiven hnodup
        exact hrelink.last pre a b e r (by simp) hel hwrite
          ((given_last_iff (hout e r hwrite) hnodup).1 hgiven)

end Stale

/-! ## The chain after each call -/

theorem singleApart_unlink (p : Pipeline) (tags : List String) :
    p.unlink.1.SingleApart tags ↔ p.SingleApart tags := by
  simp only [Pipeline.SingleApart, (keeps_unlink p).elOf,
    getInput_of_els (congrFun (unlink_els p) _),
    getOutput_of_els (congrFun (unlink_els p) _)]

theorem link_ok {p : Pipeline} {tags : List String} {mem : Nat → Mem}
    (hok : (p.link tags mem).2 = ESP_OK) :
    ∃ q, tagLoop (linkStep mem tags.length) tags 0 none p.unlink.1 =
      (q, ESP_OK) ∧ (p.link tags mem).1 = { q with linked := true } := by
  rw [Pipeline.link, unlink_if_linked] at hok ⊢
  generalize tagLoop (linkStep mem tags.length) tags 0 none p.unlink.1
    = result at hok ⊢
  rcases result with ⟨q, err⟩
  simp only at hok ⊢
  by_cases herr : err = ESP_OK
  · rw [if_pos herr]
    exact ⟨q, by rw [herr], rfl⟩
  · rw [if_neg herr] at hok
    exact absurd hok herr

theorem relink_ok {p : Pipeline} {tags : List String} {mem : Nat → Mem}
    (hok : (p.relink tags mem).2 = ESP_OK) :
    tagLoop (relinkStep mem tags.length) tags 0 none p =
      ((p.relink tags mem).1, ESP_OK) := by
  rw [Pipeline.relink] at hok ⊢
  split at hok
  · cases hok
  · rename_i hlinked
    rw [if_neg hlinked]
    exact Prod.ext rfl hok

/-- Linking different tags makes a simple chain. -/
theorem link_chain {p : Pipeline} (hlisted : Listed p) {tags : List String}
    {mem : Nat → Mem} (hok : (p.link tags mem).2 = ESP_OK) :
    (SimpleChain (p.link tags mem).1 tags ↔ DistinctTags tags) ∧
      (SimpleChain (p.link tags mem).1 tags ∧
        InOutApart (p.link tags mem).1 tags ↔
          DistinctTags tags ∧ p.SingleApart tags) := by
  rcases link_ok hok with ⟨q, hloop, hq⟩
  rw [hq]
  have hchain : DistinctTags tags →
      SimpleChain q tags ∧ (InOutApart q tags ↔ p.SingleApart tags) := by
    intro hdist
    have hloop' : (tagLoop (linkStep mem tags.length) tags 0 none
        p.unlink.1).2 = ESP_OK := by rw [hloop]
    rcases tagLoop_chain (linkStep_joins mem tags.length) hdist
      (fun _ => rfl) (by omega) hloop' with ⟨els, htags, hchained⟩
    rw [loopRbs_link (by omega) hloop', hloop] at hchained
    have hrbs := @List.nodup_range' p.unlink.1.rings.length
      (tags.length - 1) 1
    refine ⟨(hchained.simple_iff htags).2 hrbs, ?_⟩
    rw [hchained.inOutApart_iff htags hrbs, ← singleApart_unlink,
      singleApart_iff htags]
    have hmade : ∀ r, r ∈ List.range' p.unlink.1.rings.length
        (tags.length - 1) → ¬p.unlink.1.Uses r := by
      intro r hr huses
      have := (List.mem_range'_1.1 hr).1
      have := hlisted.unlink.made r huses
      omega
    constructor
    · exact fun hstale => hstale.single
    · intro hsingle
      refine ⟨hsingle, ?_, ?_⟩
      · intro e r _ hread hr
        exact hmade r (List.mem_of_mem_head? hr) (.inr ⟨e, .inl hread⟩)
      · intro e r _ hwrite hr
        exact hmade r (List.mem_of_getLast? hr) (.inr ⟨e, .inr hwrite⟩)
  constructor
  · exact ⟨fun h => h.distinct, fun h => (hchain h).1⟩
  · constructor
    · rintro ⟨hsimple, hapart⟩
      exact ⟨hsimple.distinct, (hchain hsimple.distinct).2.1 hapart⟩
    · rintro ⟨hdist, hsingle⟩
      exact ⟨(hchain hdist).1, (hchain hdist).2.2 hsingle⟩

/-- Whenever the first free ring buffer is taken before the free one recorded
for another element is asked for, there is a free one in front of that. -/
def Pipeline.NoClash (p : Pipeline) (tags : List String) : Prop :=
  FirstFit.NoClash p.slots (tags.dropLast.map p.request)

/-- Relinking different tags makes a simple chain unless there is a clash. -/
theorem relink_chain {p : Pipeline} (hlisted : Listed p) {tags : List String}
    {mem : Nat → Mem} (hok : (p.relink tags mem).2 = ESP_OK) :
    (SimpleChain (p.relink tags mem).1 tags ↔
      DistinctTags tags ∧ p.NoClash tags) ∧
      (SimpleChain (p.relink tags mem).1 tags ∧
        InOutApart (p.relink tags mem).1 tags ↔
          DistinctTags tags ∧ p.NoClash tags ∧ p.RelinkApart tags) := by
  have hloop := relink_ok hok
  generalize (p.relink tags mem).1 = q at hloop ⊢
  have hchain : DistinctTags tags →
      (SimpleChain q tags ↔ p.NoClash tags) ∧
        (SimpleChain q tags → (InOutApart q tags ↔ p.RelinkApart tags)) := by
    intro hdist
    have hloop' : (tagLoop (relinkStep mem tags.length) tags 0 none p).2 =
      ESP_OK := by rw [hloop]
    rcases tagLoop_chain (relinkStep_joins mem tags.length) hdist
      (fun _ => rfl) (by omega) hloop' with ⟨els, htags, hchained⟩
    rw [loopRbs_relink hdist (fun _ => rfl) (by omega) hloop', hloop]
      at hchained
    have hfound : ∀ tag ∈ tags.dropLast, p.elOf tag ≠ none := by
      intro tag htag hnone
      have hmem : none ∈ tags.map p.elOf := by
        rw [← hnone]
        exact List.mem_map_of_mem ((List.dropLast_sublist _).subset htag)
      rw [htags] at hmem
      simp at hmem
    have hdist' : DistinctTags tags.dropLast :=
      List.Pairwise.sublist (List.dropLast_sublist _) hdist
    have hserve : (serveAll p.slots (tags.dropLast.map p.request)).Nodup ↔
        p.NoClash tags :=
      serveAll_nodup_iff (ownsOnce_requests hdist' hfound)
        fun k => own_lt_requests
    have hmap : ((serveAll p.slots (tags.dropLast.map p.request)).map
        p.handleAt).Nodup ↔
        (serveAll p.slots (tags.dropLast.map p.request)).Nodup :=
      List.nodup_map_iff (handleAt_injective hlisted)
    have hsimple := hchained.simple_iff htags
    refine ⟨hsimple.trans (hmap.trans hserve), fun h => ?_⟩
    have hrbs := hsimple.1 h
    rw [hchained.inOutApart_iff htags hrbs]
    exact staleApart_iff hlisted htags (hmap.1 hrbs)
  constructor
  · constructor
    · exact fun h => ⟨h.distinct, (hchain h.distinct).1.1 h⟩
    · exact fun h => (hchain h.1).1.2 h.2
  · constructor
    · rintro ⟨hsimple, hapart⟩
      have hdist := hsimple.distinct
      exact ⟨hdist, (hchain hdist).1.1 hsimple,
        ((hchain hdist).2 hsimple).1 hapart⟩
    · rintro ⟨hdist, hclash, hrelink⟩
      have hsimple := (hchain hdist).1.2 hclash
      exact ⟨hsimple, ((hchain hdist).2 hsimple).2 hrelink⟩

/-- **When linking makes a simple chain**, in any run: a successful link does
so for different tags, a relink unless there is a clash.  In the chain no
element reads what it writes, unless the first element or the last one kept
the ring buffer that it is given at its other end. -/
theorem links_form_chain {p s : Pipeline} (hfresh : Fresh p)
    (hrun : pipelineMachine.Reachable p s) (tags : List String)
    (mem : Nat → Mem) :
    ((s.link tags mem).2 = ESP_OK →
      (SimpleChain (s.link tags mem).1 tags ↔ DistinctTags tags) ∧
      (SimpleChain (s.link tags mem).1 tags ∧
        InOutApart (s.link tags mem).1 tags ↔
          DistinctTags tags ∧ s.SingleApart tags)) ∧
    ((s.relink tags mem).2 = ESP_OK →
      (SimpleChain (s.relink tags mem).1 tags ↔
        DistinctTags tags ∧ s.NoClash tags) ∧
      (SimpleChain (s.relink tags mem).1 tags ∧
        InOutApart (s.relink tags mem).1 tags ↔
          DistinctTags tags ∧ s.NoClash tags ∧ s.RelinkApart tags)) := by
  have hlisted := Listed.of_reachable hfresh hrun
  exact ⟨link_chain hlisted, relink_chain hlisted⟩

/-- Three elements are registered. -/
def registerThree : List Call :=
  [.register 0 (some "a") .ok, .register 1 (some "b") .ok,
    .register 2 (some "c") .ok]

/-- They are linked, broken up, and relinked in another order, and the second
one is kept. -/
def relinkOnce : List Call :=
  registerThree ++ [.link ["a", "b", "c"] fun _ => .ok,
    .breakupElements none, .relink ["c", "a", "b"] fun _ => .ok,
    .breakupElements (some 1)]

theorem links_form_chain_three :
    SimpleChain ((bare.execAll registerThree).link ["a", "b", "c"]
      fun _ => .ok).1 ["a", "b", "c"] ∧
    SimpleChain ((bare.execAll (relinkOnce.take 5)).relink ["c", "a", "b"]
      fun _ => .ok).1 ["c", "a", "b"] := by
  constructor
  · refine ((links_form_chain fresh_bare (reachable_execAll bare registerThree)
      ["a", "b", "c"] fun _ => .ok).1 ?_).1.2 ?_
    · decide +kernel
    · decide +kernel
  · refine ((links_form_chain fresh_bare
      (reachable_execAll bare (relinkOnce.take 5))
      ["c", "a", "b"] fun _ => .ok).2 ?_).1.2 ⟨?_, ?_⟩
    · decide +kernel
    · decide +kernel
    · intro pre k post hsplit hfree
      have hrequests : (["c", "a", "b"] : List String).dropLast.map
          (bare.execAll (relinkOnce.take 5)).request = [.any, .own 0] := by
        decide +kernel
      have hslots : (bare.execAll (relinkOnce.take 5)).slots =
          [false, true] := by decide +kernel
      rw [hrequests] at hsplit
      have hown : Request.own k ∈ [Request.any, Request.own 0] := by
        rw [hsplit]
        simp
      obtain rfl : k = 0 := by simpa using hown
      rw [hslots] at hfree
      cases hfree

/-- The second relink gives the ring buffer that the first one handed on to
`c` as free to its creator `b` as well: `b` reads and writes it. -/
theorem relink_twice :
    pipelineMachine.run bare relinkOnce = some (bare.execAll relinkOnce) ∧
    DistinctTags ["c", "b", "a"] ∧
    ((bare.execAll relinkOnce).relink ["c", "b", "a"]
      fun _ => .ok).2 = ESP_OK ∧
    ((bare.execAll relinkOnce).relink ["c", "b", "a"]
      fun _ => .ok).1.getInputRingbuf 1 = some 1 ∧
    ((bare.execAll relinkOnce).relink ["c", "b", "a"]
      fun _ => .ok).1.getOutputRingbuf 1 = some 1 ∧
    ¬SimpleChain ((bare.execAll relinkOnce).relink ["c", "b", "a"]
      fun _ => .ok).1 ["c", "b", "a"] := by
  refine ⟨run_execAll bare relinkOnce, by decide +kernel, by decide +kernel,
    by decide +kernel, by decide +kernel, ?_⟩
  rintro ⟨els, rbs, htags, -, hlength, hnodup, hget⟩
  have hnamed : (["c", "b", "a"] : List String).map
      ((bare.execAll relinkOnce).relink ["c", "b", "a"]
        fun _ => .ok).1.elOf = ([2, 1, 0] : List ElHandle).map some := by
    decide +kernel
  have hels : els = [2, 1, 0] :=
    (Keeps.refl _).names_unique htags hnamed
  subst hels
  rcases List.length_eq_two.1 hlength with ⟨r, r', rfl⟩
  rcases hget 0 r rfl with ⟨e, -, he, -, hout, -⟩
  rcases hget 1 r' rfl with ⟨e', -, he', -, hout', -⟩
  cases he
  cases he'
  have hc : ((bare.execAll relinkOnce).relink ["c", "b", "a"]
      fun _ => .ok).1.getOutputRingbuf 2 =
      ((bare.execAll relinkOnce).relink ["c", "b", "a"]
      fun _ => .ok).1.getOutputRingbuf 1 := by decide +kernel
  rw [hc, hout'] at hout
  cases hout
  simp at hnodup

end EspAdf.Ports.AudioPipeline
