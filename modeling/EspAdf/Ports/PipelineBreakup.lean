import EspAdf.Ports.PipelineHandles

/-!
# Breaking up a pipeline, in closed form

The loop of `audio_pipeline_breakup_elements` decides with one flag: the first
linked element that writes a ring buffer of the list is kept, whatever
`kept_ctx_el` is, and of the others only `kept_ctx_el` itself.  An element
that writes no ring buffer of the list leaves the flag up.

`breakupLoop_rbs` says what the loop does to the ring buffers of any pipeline:
the last linked element that writes one decides.  The others are reset once.
-/

namespace EspAdf.Ports.AudioPipeline

open EspAdf.Verified

/-! ## One element -/

/-- A linked element that writes a ring buffer of the list. -/
def Pipeline.attached (p : Pipeline) (item : ElItem) : Bool :=
  item.linked && (p.getOutputRingbuf item.el).any fun r => r ∈ p.handles

theorem attached_iff {p : Pipeline} {item : ElItem} :
    p.attached item = true ↔ item.linked = true ∧
      ∃ r ∈ p.handles, p.getOutputRingbuf item.el = some r := by
  rw [Pipeline.attached, Bool.and_eq_true]
  cases p.getOutputRingbuf item.el with
  | none => simp
  | some r => simp

/-- An element with what the loop decides about it. -/
abbrev Verdict := ElHandle × Bool

/-- The decision about an element goes to the ring buffer it writes. -/
def settle (p : Pipeline) (rb : RbItem) (v : Verdict) : RbItem :=
  if p.getOutputRingbuf v.1 = some rb.rb then setKept v.2 rb else rb

theorem settle_rb (p : Pipeline) (rb : RbItem) (v : Verdict) :
    (settle p rb v).rb = rb.rb := by
  rw [settle]
  split <;> rfl

/-- The ring buffers of a list are different, so one item changes. -/
theorem modify_eq_settle {p : Pipeline} {rbs : List RbItem}
    (hnodup : (rbs.map RbItem.rb).Nodup) {el : ElHandle} {r : RbHandle}
    (hout : p.getOutputRingbuf el = some r) {k : Fin rbs.length}
    (hk : findRb rbs r = some k) (kept : Bool) :
    rbs.modify k (setKept kept) = rbs.map fun rb => settle p rb (el, kept) := by
  have hkr : rbs[k].rb = r :=
    of_decide_eq_true (List.findFinIdx?_eq_some_iff.1 hk).1
  rw [modify_eq_map hnodup k.isLt]
  apply List.map_congr_left
  intro rb _
  rw [settle, hout]
  simp only [show rbs[k.val].rb = r from hkr, Option.some.injEq, eq_comm]

section Step

variable {p : Pipeline} {keptEl : Option ElHandle} {item : ElItem}
  {b : Breakup}

/-- The decision about an element: the flag still stands, or it is
`kept_ctx_el`. -/
def decision (keptEl : Option ElHandle) (kept : Bool) (el : ElHandle) : Bool :=
  kept || decide (some el = keptEl)

theorem findRb_of_mem {rbs : List RbItem} {r : RbHandle}
    (h : r ∈ rbs.map RbItem.rb) : ∃ k, findRb rbs r = some k := by
  cases hfind : findRb rbs r with
  | some k => exact ⟨k, rfl⟩
  | none =>
      rcases List.mem_map.1 h with ⟨rb, hrb, rfl⟩
      have := List.findFinIdx?_eq_none_iff.1 hfind rb hrb
      simp at this

theorem findRb_of_notMem {rbs : List RbItem} {r : RbHandle}
    (h : r ∉ rbs.map RbItem.rb) : findRb rbs r = none := by
  cases hfind : findRb rbs r with
  | none => rfl
  | some k =>
      have hk := of_decide_eq_true (List.findFinIdx?_eq_some_iff.1 hfind).1
      apply absurd _ h
      rw [← hk]
      exact List.mem_map_of_mem (List.getElem_mem k.isLt)

/-- An attached element is unlinked, and the decision is recorded with it and
with the ring buffer it writes. -/
theorem breakupItem_attached (hb : b.rbs.map RbItem.rb = p.handles)
    (hnodup : p.handles.Nodup) (h : p.attached item = true) :
    breakupItem keptEl (p.getOutputRingbuf item.el) item b =
      ({ item with
          linked := false
          keptCtx := decision keptEl b.kept item.el },
        ⟨b.rbs.map fun rb =>
          settle p rb (item.el, decision keptEl b.kept item.el), false⟩) := by
  rcases attached_iff.1 h with ⟨hlinked, r, hr, hout⟩
  rw [← hb] at hr hnodup
  rcases findRb_of_mem hr with ⟨k, hk⟩
  have hmodify := modify_eq_settle hnodup hout hk
  rw [breakupItem.eq_def, if_neg (by simp [hlinked]), hout]
  by_cases hdrop : b.kept = false ∧ some item.el ≠ keptEl
  · have hdecision : decision keptEl b.kept item.el = false := by
      simp [decision, hdrop.1, hdrop.2]
    rw [if_pos hdrop, hdecision, ← hmodify false]
    rcases b with ⟨rbs, kept⟩
    obtain rfl : kept = false := hdrop.1
    cases rbs with
    | nil => exact absurd hr List.not_mem_nil
    | cons rb rbs => simp only [hk]
  · have hdecision : decision keptEl b.kept item.el = true := by
      by_cases hkept : b.kept = false
      · have : some item.el = keptEl := by
          by_contra hne
          exact hdrop ⟨hkept, hne⟩
        simp [decision, this]
      · simp [decision, hkept]
    rw [if_neg hdrop, hdecision, ← hmodify true]
    simp only [hk]

/-- What happens to the item of any other element. -/
def Pipeline.passItem (p : Pipeline) (keptEl : Option ElHandle) (kept : Bool)
    (item : ElItem) : ElItem :=
  if item.linked = true ∧ decision keptEl kept item.el = false ∧
      p.getOutputRingbuf item.el = none ∧ p.handles ≠ [] then
    { item with linked := false, keptCtx := false }
  else item

/-- Any other element leaves the ring buffers alone; it is unlinked when it
writes none and is not to be kept. -/
theorem breakupItem_unattached (hb : b.rbs.map RbItem.rb = p.handles)
    (h : p.attached item = false) :
    breakupItem keptEl (p.getOutputRingbuf item.el) item b =
      (p.passItem keptEl b.kept item, b) := by
  rw [breakupItem.eq_def, Pipeline.passItem]
  by_cases hlinked : item.linked = true
  · rw [if_neg (by simp [hlinked])]
    have hempty : b.rbs = [] ↔ p.handles = [] := by
      rw [← hb, List.map_eq_nil_iff]
    have hout : ∀ r, p.getOutputRingbuf item.el = some r →
        findRb b.rbs r = none := by
      intro r hr
      apply findRb_of_notMem
      rw [hb]
      intro hmem
      rw [attached_iff.2 ⟨hlinked, r, hmem, hr⟩] at h
      cases h
    by_cases hdrop : b.kept = false ∧ some item.el ≠ keptEl
    · have hdecision : decision keptEl b.kept item.el = false := by
        simp [decision, hdrop.1, hdrop.2]
      rw [if_pos hdrop]
      rcases b with ⟨rbs, kept⟩
      cases rbs with
      | nil => simp [hempty.1 rfl]
      | cons rb rbs =>
          have hne : p.handles ≠ [] := fun hnil => by cases hempty.2 hnil
          cases hr : p.getOutputRingbuf item.el with
          | none =>
              rw [if_pos ⟨hlinked, hdecision, rfl, hne⟩]
          | some r =>
              simp only [hout r hr]
              rw [if_neg (by simp)]
    · have hdecision : decision keptEl b.kept item.el = true := by
        by_cases hkept : b.kept = false
        · have : some item.el = keptEl := by
            by_contra hne
            exact hdrop ⟨hkept, hne⟩
          simp [decision, this]
        · simp [decision, hkept]
      rw [if_neg hdrop, hdecision, if_neg (by simp)]
      cases hr : p.getOutputRingbuf item.el with
      | none => rfl
      | some r => simp only [hout r hr]
  · have hfalse : item.linked = false := by simpa using hlinked
    rw [if_pos hfalse, if_neg (by simp [hfalse])]

end Step

/-! ## The loop -/

/-- The decisions about elements once the flag is down. -/
def verdict (keptEl : Option ElHandle) (item : ElItem) : Verdict :=
  (item.el, decision keptEl false item.el)

/-- The decisions about attached elements: the flag falls with the first. -/
def verdictsFrom (keptEl : Option ElHandle) :
    Bool → List ElItem → List Verdict
  | _, [] => []
  | kept, item :: items =>
      (item.el, decision keptEl kept item.el) :: items.map (verdict keptEl)

theorem verdictsFrom_false (keptEl : Option ElHandle) (items : List ElItem) :
    verdictsFrom keptEl false items = items.map (verdict keptEl) := by
  cases items <;> rfl

/-- The decisions about all attached elements, in the order of the list. -/
def Pipeline.verdicts (p : Pipeline) (keptEl : Option ElHandle) :
    List Verdict := verdictsFrom keptEl true (p.elList.filter p.attached)

theorem map_settle_rb (p : Pipeline) (v : Verdict) (rbs : List RbItem) :
    (rbs.map fun rb => settle p rb v).map RbItem.rb = rbs.map RbItem.rb := by
  rw [List.map_map]
  apply List.map_congr_left
  intro rb _
  exact settle_rb p rb v

/-- **What the loop does to the ring buffers**: the decisions about the
attached elements are settled one after the other. -/
theorem breakupLoop_rbs {p : Pipeline} {keptEl : Option ElHandle}
    (hnodup : p.handles.Nodup) {items : List ElItem} :
    ∀ {b : Breakup}, b.rbs.map RbItem.rb = p.handles →
      (breakupLoop p keptEl items b).2.rbs = b.rbs.map fun rb =>
        (verdictsFrom keptEl b.kept (items.filter p.attached)).foldl
          (settle p) rb := by
  induction items with
  | nil =>
      intro b _
      exact (List.map_id b.rbs).symm
  | cons item items ih =>
      intro b hb
      simp only [breakupLoop]
      cases h : p.attached item with
      | false =>
          rw [breakupItem_unattached hb h, List.filter_cons_of_neg (by simp [h])]
          exact ih hb
      | true =>
          rw [breakupItem_attached hb hnodup h, List.filter_cons_of_pos h]
          simp only
          rw [ih ((map_settle_rb p _ b.rbs).trans hb), verdictsFrom_false,
            List.map_map]
          rfl

/-- What the loop does to the item of an element once the flag is down. -/
def Pipeline.dropItem (p : Pipeline) (keptEl : Option ElHandle)
    (item : ElItem) : ElItem :=
  if p.attached item = true then
    { item with
      linked := false
      keptCtx := decision keptEl false item.el }
  else p.passItem keptEl false item

/-- What the loop does to the items once the flag is down. -/
theorem breakupLoop_down {p : Pipeline} {keptEl : Option ElHandle}
    (hnodup : p.handles.Nodup) {items : List ElItem} :
    ∀ {rbs : List RbItem}, rbs.map RbItem.rb = p.handles →
      (breakupLoop p keptEl items ⟨rbs, false⟩).1 =
        items.map (p.dropItem keptEl) := by
  induction items with
  | nil => exact fun _ => rfl
  | cons item items ih =>
      intro rbs hrbs
      simp only [breakupLoop]
      rw [List.map_cons, Pipeline.dropItem]
      cases h : p.attached item with
      | false =>
          rw [@breakupItem_unattached p keptEl item ⟨rbs, false⟩ hrbs h,
            if_neg (by simp)]
          simp only
          rw [ih hrbs]
      | true =>
          rw [@breakupItem_attached p keptEl item ⟨rbs, false⟩ hrbs hnodup h,
            if_pos rfl]
          simp only
          rw [ih ((map_settle_rb p _ rbs).trans hrbs)]

/-- What it does to the items when the first linked one is attached. -/
theorem breakupLoop_first {p : Pipeline} {keptEl : Option ElHandle}
    (hnodup : p.handles.Nodup) {first : ElItem} {post : List ElItem}
    (hfirst : p.attached first = true) {pre : List ElItem} :
    ∀ {rbs : List RbItem}, rbs.map RbItem.rb = p.handles →
      (∀ item ∈ pre, item.linked = false) →
      (breakupLoop p keptEl (pre ++ first :: post) ⟨rbs, true⟩).1 =
        pre ++ { first with linked := false, keptCtx := true } ::
          post.map (p.dropItem keptEl) := by
  induction pre with
  | nil =>
      intro rbs hrbs _
      rw [List.nil_append]
      simp only [breakupLoop]
      rw [@breakupItem_attached p keptEl first ⟨rbs, true⟩ hrbs hnodup hfirst]
      simp only
      rw [breakupLoop_down hnodup ((map_settle_rb p _ rbs).trans hrbs)]
      rfl
  | cons item pre ih =>
      intro rbs hrbs hpre
      have hitem := hpre item List.mem_cons_self
      have hun : p.attached item = false := by
        rw [Pipeline.attached, hitem, Bool.false_and]
      have hpass : p.passItem keptEl true item = item := by
        rw [Pipeline.passItem, if_neg (by simp [hitem])]
      rw [List.cons_append]
      simp only [breakupLoop]
      rw [@breakupItem_unattached p keptEl item ⟨rbs, true⟩ hrbs hun]
      simp only
      rw [hpass, ih hrbs fun i hi => hpre i (List.mem_cons_of_mem _ hi)]
      rfl

/-! ## The ring buffers after the loop -/

/-- The last decision about an element that writes the ring buffer. -/
def Pipeline.lastVerdict (p : Pipeline) (vs : List Verdict) (r : RbHandle) :
    Option Bool :=
  (vs.filter fun v => p.getOutputRingbuf v.1 = some r).getLast?.map Prod.snd

/-- **The last one decides**; without one the mark stays. -/
theorem foldl_settle (p : Pipeline) (vs : List Verdict) (rb : RbItem) :
    vs.foldl (settle p) rb =
      { rb with keptCtx := (p.lastVerdict vs rb.rb).getD rb.keptCtx } := by
  induction vs using List.reverseRecOn with
  | nil => rfl
  | append_singleton vs v ih =>
      rw [List.foldl_append, List.foldl_cons, List.foldl_nil, ih, settle,
        Pipeline.lastVerdict, Pipeline.lastVerdict, List.filter_append]
      by_cases hout : p.getOutputRingbuf v.1 = some rb.rb
      · rw [if_pos hout, List.filter_cons_of_pos (by simpa using hout)]
        simp [setKept]
      · rw [if_neg hout, List.filter_cons_of_neg (by simpa using hout),
          List.filter_nil, List.append_nil]

/-- Whether a ring buffer of the list is kept. -/
def Pipeline.staysKept (p : Pipeline) (keptEl : Option ElHandle)
    (rb : RbItem) : Bool :=
  (p.lastVerdict (p.verdicts keptEl) rb.rb).getD rb.keptCtx

/-- How often a ring buffer was reset. -/
def Pipeline.resets (p : Pipeline) (r : RbHandle) : Nat :=
  match p.rings[r]? with
  | some ring => ring.resets
  | none => 0

/-- Each ring buffer is reset once for each time it is listed. -/
theorem resets_rbReset (rs : List RbHandle) (rings : List Ring) (s : Nat) :
    (rs.foldl rbReset rings)[s]? = (rings[s]?).map fun ring =>
      { ring with resets := ring.resets + rs.count s } := by
  induction rs generalizing rings with
  | nil => simp
  | cons r rs ih =>
      rw [List.foldl_cons, ih, rbReset, List.getElem?_modify, List.count_cons]
      cases rings[s]? with
      | none => rfl
      | some ring =>
          by_cases h : r = s
          · subst h
            simp [Nat.add_comm, Nat.add_left_comm]
          · simp [h]

/-- What breaking up does to an item of `rb_list`. -/
def Pipeline.breakupRb (p : Pipeline) (keptEl : Option ElHandle)
    (rb : RbItem) : RbItem :=
  freeRb { rb with keptCtx := p.staysKept keptEl rb }

theorem breakupRb_rb (p : Pipeline) (keptEl : Option ElHandle)
    (rb : RbItem) : (p.breakupRb keptEl rb).rb = rb.rb := by
  rw [Pipeline.breakupRb, freeRb]
  split <;> rfl

theorem breakupRb_hostEl (p : Pipeline) (keptEl : Option ElHandle)
    (rb : RbItem) : (p.breakupRb keptEl rb).hostEl = rb.hostEl := by
  rw [Pipeline.breakupRb, freeRb]
  split <;> rfl

theorem breakupRb_keptCtx (p : Pipeline) (keptEl : Option ElHandle)
    (rb : RbItem) :
    (p.breakupRb keptEl rb).keptCtx = p.staysKept keptEl rb := by
  rw [Pipeline.breakupRb, freeRb]
  split <;> rfl

theorem breakupRb_linked {p : Pipeline} {keptEl : Option ElHandle}
    {rb : RbItem} (h : p.staysKept keptEl rb = false) :
    (p.breakupRb keptEl rb).linked = false := by
  rw [Pipeline.breakupRb, freeRb, if_pos h]

section Breakup

variable {p : Pipeline} {keptEl : Option ElHandle}

/-- The ring buffers after the loop. -/
theorem breakup_settled (hnodup : p.handles.Nodup) :
    (breakupLoop p keptEl p.elList ⟨p.rbList, true⟩).2.rbs =
      p.rbList.map fun rb => { rb with keptCtx := p.staysKept keptEl rb } := by
  rw [@breakupLoop_rbs p keptEl hnodup p.elList ⟨p.rbList, true⟩ rfl]
  apply List.map_congr_left
  intro rb _
  exact foldl_settle p _ rb

theorem breakup_rbList (hnodup : p.handles.Nodup) :
    (p.breakupElements keptEl).1.rbList =
      p.rbList.map (p.breakupRb keptEl) := by
  rw [Pipeline.breakupElements]
  simp only [breakup_settled hnodup, List.map_map]
  rfl

/-- The ring buffers that are not kept. -/
def Pipeline.dropped (p : Pipeline) (keptEl : Option ElHandle) :
    List RbHandle :=
  (p.rbList.filter fun rb => p.staysKept keptEl rb = false).map RbItem.rb

theorem breakup_rings (hnodup : p.handles.Nodup) :
    (p.breakupElements keptEl).1.rings =
      (p.dropped keptEl).foldl rbReset p.rings := by
  rw [Pipeline.breakupElements]
  simp only [breakup_settled hnodup, List.filter_map, List.map_map]
  rfl

theorem breakup_ring (hnodup : p.handles.Nodup) (r : Nat) :
    (p.breakupElements keptEl).1.rings[r]? = (p.rings[r]?).map fun ring =>
      { ring with resets := ring.resets + (p.dropped keptEl).count r } := by
  rw [breakup_rings hnodup, resets_rbReset]

theorem count_dropped_kept (hnodup : p.handles.Nodup) {rb : RbItem}
    (hrb : rb ∈ p.rbList) (h : p.staysKept keptEl rb = true) :
    (p.dropped keptEl).count rb.rb = 0 := by
  apply List.count_eq_zero_of_not_mem
  intro hmem
  rcases List.mem_map.1 hmem with ⟨rb', hrb', heq⟩
  rcases List.mem_filter.1 hrb' with ⟨hin, hstays⟩
  obtain rfl : rb' = rb := List.inj_on_of_nodup_map hnodup hin hrb heq
  simp [h] at hstays

theorem count_dropped_free (hnodup : p.handles.Nodup) {rb : RbItem}
    (hrb : rb ∈ p.rbList) (h : p.staysKept keptEl rb = false) :
    (p.dropped keptEl).count rb.rb = 1 := by
  apply List.count_eq_one_of_mem
  · exact hnodup.sublist (List.filter_sublist.map _)
  · exact List.mem_map_of_mem (List.mem_filter.2 ⟨hrb, by simp [h]⟩)

/-- A ring buffer that is kept is as before. -/
theorem breakup_ring_kept (hnodup : p.handles.Nodup) {rb : RbItem}
    (hrb : rb ∈ p.rbList) (h : p.staysKept keptEl rb = true) :
    (p.breakupElements keptEl).1.rings[rb.rb]? = p.rings[rb.rb]? := by
  rw [breakup_ring hnodup, count_dropped_kept hnodup hrb h]
  cases p.rings[rb.rb]? <;> rfl

/-- One that is not kept is reset once. -/
theorem breakup_resets_free (hnodup : p.handles.Nodup) {rb : RbItem}
    (hrb : rb ∈ p.rbList) (hlt : rb.rb < p.rings.length)
    (h : p.staysKept keptEl rb = false) :
    (p.breakupElements keptEl).1.resets rb.rb = p.resets rb.rb + 1 := by
  rw [Pipeline.resets, Pipeline.resets, breakup_ring hnodup,
    count_dropped_free hnodup hrb h, List.getElem?_eq_getElem hlt]
  rfl

end Breakup

end EspAdf.Ports.AudioPipeline
