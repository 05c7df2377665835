import Mathlib

/-!
# First fit with reserved slots

Slots are free or in use.  A request either takes the first free slot, or a
slot of its own whatever its mark says, or a new slot behind the others; a
slot that was served is in use.  Two requests may get the same slot: a slot of
one's own may have been handed out before as the first free one.

`serveAll_nodup_iff` says exactly when that does not happen.  Whenever the
first free slot is taken before a free slot `k` is asked for by its owner,
there must be a free slot in front of `k`; `left` counts them down.  When all
slots are different, `serveAll_iff_takes` says which slot a request gets.

The module names nothing of the modelled repository.
-/

namespace EspAdf.Verified.FirstFit

/-- What is asked for. -/
inductive Request where
  /-- The first free slot, or a new one. -/
  | any
  /-- Slot `k`, free or not. -/
  | own (k : Nat)
  /-- A new slot. -/
  | fresh
  deriving DecidableEq, Repr

/-- The slot that is served, and the marks afterwards; `true` means free. -/
def serve (slots : List Bool) : Request → Nat × List Bool
  | .any =>
      match slots.findIdx? id with
      | some m => (m, slots.set m false)
      | none => (slots.length, slots ++ [false])
  | .own k => (k, slots.set k false)
  | .fresh => (slots.length, slots ++ [false])

/-- The slots that a sequence of requests gets. -/
def serveAll (slots : List Bool) : List Request → List Nat
  | [] => []
  | r :: rs => (serve slots r).1 :: serveAll (serve slots r).2 rs

/-- How many free slots stand in front of slot `k`. -/
def freeBefore (slots : List Bool) (k : Nat) : Nat :=
  (slots.take k).count true

/-- How many of `c` free slots in front of `k` the requests leave, if they
leave `k` itself. -/
def left (slots : List Bool) (k : Nat) : Nat → List Request → Option Nat
  | c, [] => some c
  | c, .any :: rs => if 0 < c then left slots k (c - 1) rs else none
  | c, .own m :: rs =>
      if m = k then none
      else left slots k
        (if m < k ∧ slots[m]? = some true then c - 1 else c) rs
  | c, .fresh :: rs => left slots k c rs

/-- The requests leave the free slot `k` alone. -/
def spares (slots : List Bool) (k : Nat) (reqs : List Request) : Bool :=
  (left slots k (freeBefore slots k) reqs).isSome

/-- Every free slot with an owner is left alone until its owner asks. -/
def NoClash (slots : List Bool) (reqs : List Request) : Prop :=
  ∀ pre k post, reqs = pre ++ .own k :: post → slots[k]? = some true →
    spares slots k pre = true

/-- After the requests `pre`, the next one takes slot `k`: its own, or the
first that is left. -/
def takes (slots : List Bool) (pre : List Request) : Request → Nat → Prop
  | .any, k => slots[k]? = some true ∧
      left slots k (freeBefore slots k) pre = some 0
  | .own m, k => m = k
  | .fresh, _ => False

/-- No slot has two owners. -/
def OwnsOnce (reqs : List Request) : Prop :=
  reqs.Pairwise fun a b => ∀ k, a = .own k → b ≠ .own k

/-! ## Counting free slots -/

theorem freeBefore_pos {slots : List Bool} {m k : Nat} (hm : m < k)
    (hfree : slots[m]? = some true) : 0 < freeBefore slots k := by
  apply List.count_pos_iff.2
  rw [List.mem_iff_getElem?]
  exact ⟨m, by rw [List.getElem?_take_of_lt hm]; exact hfree⟩

/-- A free slot in front of `k` is found before `k`. -/
theorem findIdx_lt_of_freeBefore {slots : List Bool} {k : Nat}
    (h : 0 < freeBefore slots k) :
    ∃ m, slots.findIdx? id = some m ∧ m < k ∧ slots[m]? = some true := by
  have hmem : true ∈ slots.take k := List.count_pos_iff.1 h
  rcases List.mem_iff_getElem?.1 hmem with ⟨j, hj⟩
  have hjk : j < k := by
    by_contra hge
    rw [List.getElem?_take_eq_none (by omega)] at hj
    cases hj
  rw [List.getElem?_take_of_lt hjk] at hj
  cases hfind : slots.findIdx? id with
  | none =>
      have hno := List.findIdx?_eq_none_iff.1 hfind true
        (List.mem_of_getElem? hj)
      cases hno
  | some m =>
      rcases List.findIdx?_eq_some_iff_getElem.1 hfind with
        ⟨hlt, htrue, hfirst⟩
      refine ⟨m, rfl, ?_, ?_⟩
      · by_contra hge
        rcases List.getElem?_eq_some_iff.1 hj with ⟨hj', hval⟩
        exact hfirst j (by omega) hval
      · rw [List.getElem?_eq_getElem hlt]
        exact congrArg some htrue

/-- Without a free slot in front of it, a free slot is the first one. -/
theorem findIdx_of_freeBefore_zero {slots : List Bool} {k : Nat}
    (hzero : freeBefore slots k = 0) (hfree : slots[k]? = some true) :
    slots.findIdx? id = some k := by
  rcases List.getElem?_eq_some_iff.1 hfree with ⟨hlt, htrue⟩
  apply List.findIdx?_eq_some_iff_getElem.2
  refine ⟨hlt, htrue, ?_⟩
  intro j hj hjfree
  have hpos : 0 < freeBefore slots k := freeBefore_pos hj
    (by rw [List.getElem?_eq_getElem (by omega)]; exact congrArg some hjfree)
  omega

theorem freeBefore_set_lt {slots : List Bool} {m k : Nat} (hm : m < k)
    (hfree : slots[m]? = some true) :
    freeBefore (slots.set m false) k = freeBefore slots k - 1 := by
  rcases List.getElem?_eq_some_iff.1 hfree with ⟨hlt, htrue⟩
  have hlt' : m < (slots.take k).length := by
    rw [List.length_take]
    omega
  rw [freeBefore, freeBefore, List.take_set, List.count_set hlt']
  simp [htrue]

theorem freeBefore_set_same {slots : List Bool} {m k : Nat}
    (h : ¬(m < k ∧ slots[m]? = some true)) :
    freeBefore (slots.set m false) k = freeBefore slots k := by
  rw [freeBefore, freeBefore, List.take_set]
  by_cases hlt : m < (slots.take k).length
  · rw [List.count_set hlt]
    rw [List.length_take] at hlt
    have hne : (slots.take k)[m] ≠ true := by
      intro htrue
      apply h
      refine ⟨by omega, ?_⟩
      rw [List.getElem_take] at htrue
      rw [List.getElem?_eq_getElem (by omega), htrue]
    simp [hne]
  · rw [List.set_eq_of_length_le (by omega)]

theorem freeBefore_append {slots : List Bool} {k : Nat}
    (h : k ≤ slots.length) :
    freeBefore (slots ++ [false]) k = freeBefore slots k := by
  rw [freeBefore, freeBefore, List.take_append_of_le_length h]

/-! ## Serving one request -/

/-- `now` are the marks after the slots `taken` were served from `slots`. -/
structure Tracks (slots now : List Bool) (taken : List Nat) : Prop where
  length : slots.length ≤ now.length
  lt : ∀ m ∈ taken, m < now.length
  free : ∀ m, now[m]? = some true ↔ slots[m]? = some true ∧ m ∉ taken

theorem Tracks.refl (slots : List Bool) : Tracks slots slots [] where
  length := Nat.le_refl _
  lt := by simp
  free := by simp

theorem Tracks.lt_of_free {slots now : List Bool} {taken : List Nat} {k : Nat}
    (h : Tracks slots now taken) (hk : slots[k]? = some true) :
    k < now.length := by
  have := (List.getElem?_eq_some_iff.1 hk).1
  have := h.length
  omega

/-- A slot in range is put in use. -/
theorem Tracks.set {slots now : List Bool} {taken : List Nat} {m : Nat}
    (h : Tracks slots now taken) (hm : m < now.length) :
    Tracks slots (now.set m false) (m :: taken) where
  length := by
    rw [List.length_set]
    exact h.length
  lt := by
    intro j hj
    rw [List.length_set]
    rcases List.mem_cons.1 hj with rfl | hj
    · exact hm
    · exact h.lt j hj
  free := by
    intro j
    rw [List.getElem?_set, List.mem_cons, not_or]
    by_cases hjm : m = j
    · simp [hjm]
    · rw [if_neg hjm, h.free j]
      constructor
      · rintro ⟨hfree, hnot⟩
        exact ⟨hfree, fun heq => hjm heq.symm, hnot⟩
      · rintro ⟨hfree, -, hnot⟩
        exact ⟨hfree, hnot⟩

/-- A new slot is put in use. -/
theorem Tracks.append {slots now : List Bool} {taken : List Nat}
    (h : Tracks slots now taken) :
    Tracks slots (now ++ [false]) (now.length :: taken) where
  length := by
    have := h.length
    rw [List.length_append]
    omega
  lt := by
    intro j hj
    rw [List.length_append]
    rcases List.mem_cons.1 hj with rfl | hj
    · simp
    · have := h.lt j hj
      omega
  free := by
    intro j
    by_cases hlt : j < now.length
    · rw [List.getElem?_append_left hlt, h.free j, List.mem_cons, not_or]
      constructor
      · rintro ⟨hfree, hnot⟩
        exact ⟨hfree, by omega, hnot⟩
      · rintro ⟨hfree, -, hnot⟩
        exact ⟨hfree, hnot⟩
    · have hnone : (now ++ [false])[j]? ≠ some true := by
        rw [List.getElem?_append_right (by omega)]
        cases j - now.length <;> simp
      constructor
      · intro hfree
        exact absurd hfree hnone
      · rintro ⟨hfree, -⟩
        exact absurd (h.lt_of_free hfree) hlt

/-- Serving a request whose own slot, if any, exists. -/
theorem Tracks.serve {slots now : List Bool} {taken : List Nat} {r : Request}
    (h : Tracks slots now taken) (hr : ∀ k, r = .own k → k < slots.length) :
    Tracks slots (serve now r).2 ((serve now r).1 :: taken) := by
  cases r with
  | any =>
      unfold FirstFit.serve
      cases hfind : now.findIdx? id with
      | some m =>
          exact h.set (List.findIdx?_eq_some_iff_getElem.1 hfind).1
      | none => exact h.append
  | own k => exact h.set (Nat.lt_of_lt_of_le (hr k rfl) h.length)
  | fresh => exact h.append

/-- Only an owner may get a slot that was served before. -/
theorem Tracks.serve_notMem {slots now : List Bool} {taken : List Nat}
    {r : Request} (h : Tracks slots now taken) (hr : ∀ k, r ≠ .own k) :
    (FirstFit.serve now r).1 ∉ taken := by
  have hnew : now.length ∉ taken := fun hmem => by
    have := h.lt _ hmem
    omega
  cases r with
  | any =>
      unfold FirstFit.serve
      cases hfind : now.findIdx? id with
      | some m =>
          rcases List.findIdx?_eq_some_iff_getElem.1 hfind with ⟨hlt, htrue, -⟩
          refine ((h.free m).1 ?_).2
          rw [List.getElem?_eq_getElem hlt]
          exact congrArg some htrue
      | none => exact hnew
  | own k => exact absurd rfl (hr k)
  | fresh => exact hnew

/-! ## What a request does to the slots in front of `k` -/

/-- The count that `spares` passes on is that of the slots. -/
theorem Tracks.freeBefore_own {slots now : List Bool} {taken : List Nat}
    {m k : Nat} (h : Tracks slots now taken) (hm : m ∉ taken) :
    freeBefore (now.set m false) k =
      if m < k ∧ slots[m]? = some true then freeBefore now k - 1
      else freeBefore now k := by
  have hfree : now[m]? = some true ↔ slots[m]? = some true := by
    rw [h.free m]
    exact and_iff_left hm
  split
  · rename_i hlt
    exact freeBefore_set_lt hlt.1 (hfree.2 hlt.2)
  · rename_i hno
    apply freeBefore_set_same
    rw [hfree]
    exact hno

theorem Tracks.freeBefore_fresh {slots now : List Bool} {taken : List Nat}
    {k : Nat} (h : Tracks slots now taken) (hk : k < slots.length) :
    freeBefore (now ++ [false]) k = freeBefore now k := by
  apply freeBefore_append
  have := h.length
  omega

/-- With a free slot in front of `k`, `any` takes one of these. -/
theorem serve_any_of_pos {now : List Bool} {k : Nat}
    (h : 0 < freeBefore now k) : (serve now .any).1 < k ∧
      freeBefore (serve now .any).2 k = freeBefore now k - 1 := by
  rcases findIdx_lt_of_freeBefore h with ⟨m, hfind, hm, hfree⟩
  simp only [serve, hfind]
  exact ⟨hm, freeBefore_set_lt hm hfree⟩

/-! ## Serving all requests -/

/-- The marks when all requests are served. -/
def marks (slots : List Bool) : List Request → List Bool
  | [] => slots
  | r :: rs => marks (serve slots r).2 rs

theorem serveAll_append (slots : List Bool) (as bs : List Request) :
    serveAll slots (as ++ bs) =
      serveAll slots as ++ serveAll (marks slots as) bs := by
  induction as generalizing slots with
  | nil => rfl
  | cons a as ih =>
      simp only [List.cons_append, serveAll, marks]
      rw [ih]

theorem length_serveAll (slots : List Bool) (reqs : List Request) :
    (serveAll slots reqs).length = reqs.length := by
  induction reqs generalizing slots with
  | nil => rfl
  | cons r rs ih =>
      simp only [serveAll, List.length_cons]
      rw [ih]

theorem Tracks.marks {slots : List Bool} {reqs : List Request}
    (hlt : ∀ k, .own k ∈ reqs → k < slots.length) :
    ∀ {now : List Bool} {taken : List Nat}, Tracks slots now taken →
      ∃ taken', Tracks slots (FirstFit.marks now reqs) taken' ∧
        ∀ m, m ∈ taken' ↔ m ∈ serveAll now reqs ∨ m ∈ taken := by
  induction reqs with
  | nil =>
      intro now taken h
      exact ⟨taken, h, by simp [serveAll]⟩
  | cons r rs ih =>
      intro now taken h
      have hserve := h.serve (r := r) fun k hk =>
        hlt k (by rw [hk]; exact List.mem_cons_self)
      rcases ih (fun k hk => hlt k (List.mem_cons_of_mem _ hk)) hserve with
        ⟨taken', htracks, hmem⟩
      refine ⟨taken', htracks, fun m => ?_⟩
      rw [hmem m, serveAll, List.mem_cons, List.mem_cons]
      tauto

/-- The count of `left` is that of the slots, as long as no slot is served
twice and `k` is not served. -/
theorem left_eq {slots : List Bool} {reqs : List Request} {k : Nat}
    (hk : slots[k]? = some true)
    (hlt : ∀ j, .own j ∈ reqs → j < slots.length) :
    ∀ {now : List Bool} {taken : List Nat}, Tracks slots now taken →
      k ∉ taken → (serveAll now reqs).Nodup →
      (∀ m ∈ serveAll now reqs, m ∉ taken) →
      left slots k (freeBefore now k) reqs =
        if k ∈ serveAll now reqs then none
        else some (freeBefore (FirstFit.marks now reqs) k) := by
  have hklt : k < slots.length := (List.getElem?_eq_some_iff.1 hk).1
  induction reqs with
  | nil =>
      intros
      simp [left, serveAll, FirstFit.marks]
  | cons r rs ih =>
      intro now taken h hktaken hnodup hnot
      have hserve := h.serve (r := r) fun j hj =>
        hlt j (by rw [hj]; exact List.mem_cons_self)
      simp only [serveAll, List.nodup_cons, List.mem_cons,
        forall_eq_or_imp] at hnodup hnot
      have hrest : k ≠ (serve now r).1 →
          left slots k (freeBefore (serve now r).2 k) rs =
            if k ∈ serveAll now (r :: rs) then none
            else some (freeBefore (FirstFit.marks now (r :: rs)) k) := by
        intro hne
        rw [ih (fun j hj => hlt j (List.mem_cons_of_mem _ hj)) hserve
          (by rw [List.mem_cons, not_or]; exact ⟨hne, hktaken⟩) hnodup.2
          (by
            intro m hm
            rw [List.mem_cons, not_or]
            refine ⟨?_, hnot.2 m hm⟩
            rintro rfl
            exact hnodup.1 hm)]
        simp only [serveAll, List.mem_cons, hne, false_or, FirstFit.marks]
      cases r with
      | any =>
          simp only [left]
          by_cases hpos : 0 < freeBefore now k
          · have hany := serve_any_of_pos hpos
            rw [if_pos hpos, ← hany.2]
            exact hrest (by omega)
          · have hfree : now[k]? = some true := (h.free k).2 ⟨hk, hktaken⟩
            have hfind := findIdx_of_freeBefore_zero (by omega) hfree
            have hserved : (serve now .any).1 = k := by simp [serve, hfind]
            rw [if_neg hpos, if_pos]
            rw [serveAll, hserved]
            exact List.mem_cons_self
      | own m =>
          simp only [left]
          by_cases hmk : m = k
          · rw [if_pos hmk, if_pos]
            rw [hmk]
            exact List.mem_cons_self
          · have hmtaken : m ∉ taken := hnot.1
            rw [if_neg hmk, ← h.freeBefore_own hmtaken]
            exact hrest fun heq => hmk heq.symm
      | fresh =>
          simp only [left]
          rw [← h.freeBefore_fresh hklt]
          apply hrest
          have := h.length
          simp only [serve]
          omega

/-! ## The result -/

/-- An owner's slot that was not free is not found. -/
theorem Tracks.serve_any_ne {slots now : List Bool} {taken : List Nat}
    {k : Nat} (h : Tracks slots now taken) (hk : k < slots.length)
    (hfree : ¬slots[k]? = some true) : k ≠ (FirstFit.serve now .any).1 := by
  intro heq
  unfold FirstFit.serve at heq
  cases hfind : now.findIdx? id with
  | some m =>
      simp only [hfind] at heq
      rcases List.findIdx?_eq_some_iff_getElem.1 hfind with ⟨hm, htrue, -⟩
      apply hfree
      rw [heq]
      refine ((h.free m).1 ?_).1
      rw [List.getElem?_eq_getElem hm]
      exact congrArg some htrue
  | none =>
      simp only [hfind] at heq
      have := h.length
      omega

/-- A request leaves the slot of a later owner alone, and enough free slots
before it. -/
theorem Tracks.serve_spares {slots now : List Bool} {taken : List Nat}
    {r : Request} {pre : List Request} {k : Nat} (h : Tracks slots now taken)
    (hk : k < slots.length) (hr : ∀ m, r = .own m → m ∉ taken ∧ m ≠ k)
    (hspares : slots[k]? = some true →
      (left slots k (freeBefore now k) (r :: pre)).isSome = true) :
    k ≠ (FirstFit.serve now r).1 ∧ (slots[k]? = some true →
      (left slots k (freeBefore (FirstFit.serve now r).2 k) pre).isSome =
        true) := by
  cases r with
  | any =>
      by_cases hfree : slots[k]? = some true
      · have hsp := hspares hfree
        simp only [left] at hsp
        split at hsp
        · rename_i hpos
          have hany := serve_any_of_pos hpos
          exact ⟨by omega, fun _ => by rw [hany.2]; exact hsp⟩
        · cases hsp
      · exact ⟨h.serve_any_ne hk hfree, fun hyes => absurd hyes hfree⟩
  | own m =>
      rcases hr m rfl with ⟨hm, hmk⟩
      refine ⟨fun heq => hmk heq.symm, fun hfree => ?_⟩
      have hsp := hspares hfree
      simp only [left, if_neg hmk] at hsp
      simp only [FirstFit.serve]
      rw [h.freeBefore_own hm]
      exact hsp
  | fresh =>
      have := h.length
      refine ⟨?_, fun hfree => ?_⟩
      · simp only [FirstFit.serve]
        omega
      · simp only [FirstFit.serve]
        rw [h.freeBefore_fresh hk]
        exact hspares hfree

/-- No clash leads to different slots. -/
theorem nodup_of_left {slots : List Bool} {reqs : List Request} :
    ∀ {now : List Bool} {taken : List Nat}, Tracks slots now taken →
      OwnsOnce reqs → (∀ k, .own k ∈ reqs → k < slots.length) →
      (∀ pre k post, reqs = pre ++ .own k :: post → k ∉ taken ∧
        (slots[k]? = some true →
          (left slots k (freeBefore now k) pre).isSome = true)) →
      (serveAll now reqs).Nodup ∧ ∀ m ∈ serveAll now reqs, m ∉ taken := by
  induction reqs with
  | nil => intros; simp [serveAll]
  | cons r rs ih =>
      intro now taken h honce hlt hspares
      rcases List.pairwise_cons.1 honce with ⟨hhead, htail⟩
      have hnot : (serve now r).1 ∉ taken := by
        cases r with
        | own k => exact (hspares [] k rs rfl).1
        | any => exact h.serve_notMem (by simp)
        | fresh => exact h.serve_notMem (by simp)
      have hserve := h.serve (r := r) fun k hk =>
        hlt k (by rw [hk]; exact List.mem_cons_self)
      have hrest := ih hserve htail
        (fun k hk => hlt k (List.mem_cons_of_mem _ hk))
        (by
          intro pre k post hsplit
          rcases hspares (r :: pre) k post (by simp [hsplit]) with
            ⟨hktaken, hkspares⟩
          have hown : ∀ m, r = .own m → m ∉ taken ∧ m ≠ k := by
            rintro m rfl
            refine ⟨(hspares [] m rs rfl).1, fun heq => ?_⟩
            exact hhead (.own k) (by simp [hsplit]) m rfl (by rw [heq])
          have hnext := h.serve_spares (hlt k (by simp [hsplit])) hown hkspares
          refine ⟨?_, hnext.2⟩
          rw [List.mem_cons, not_or]
          exact ⟨hnext.1, hktaken⟩)
      constructor
      · simp only [serveAll, List.nodup_cons]
        refine ⟨fun hmem => ?_, hrest.1⟩
        exact hrest.2 _ hmem List.mem_cons_self
      · intro m hm
        rcases List.mem_cons.1 hm with rfl | hm
        · exact hnot
        · exact fun hmem => hrest.2 m hm (List.mem_cons_of_mem _ hmem)

/-- **First fit with reserved slots.**  All requests get different slots
exactly when there is no clash. -/
theorem serveAll_nodup_iff {slots : List Bool} {reqs : List Request}
    (honce : OwnsOnce reqs) (hlt : ∀ k, .own k ∈ reqs → k < slots.length) :
    (serveAll slots reqs).Nodup ↔ NoClash slots reqs := by
  constructor
  · intro hnodup pre k post hsplit hfree
    rw [hsplit, serveAll_append] at hnodup
    rcases List.nodup_append.1 hnodup with ⟨hpre, -, hdisj⟩
    rw [spares, left_eq hfree (fun j hj => hlt j (by simp [hsplit, hj]))
      (Tracks.refl slots) (by simp) hpre (by simp), if_neg]
    · rfl
    · intro hmem
      exact hdisj k hmem k List.mem_cons_self rfl
  · intro hclash
    refine (nodup_of_left (Tracks.refl slots) honce hlt ?_).1
    intro pre k post hsplit
    exact ⟨by simp, hclash pre k post hsplit⟩

/-- The slot that a request gets, when all slots are different. -/
theorem serveAll_iff_takes {slots : List Bool} {pre post : List Request}
    {r : Request} {k : Nat} (hk : k < slots.length)
    (hlt : ∀ j, .own j ∈ pre → j < slots.length)
    (hnodup : (serveAll slots (pre ++ r :: post)).Nodup) :
    (serveAll slots (pre ++ r :: post))[pre.length]? = some k ↔
      takes slots pre r k := by
  rw [serveAll_append] at hnodup ⊢
  rw [List.getElem?_append_right (Nat.le_of_eq (length_serveAll _ _)),
    length_serveAll, Nat.sub_self, serveAll, List.getElem?_cons_zero,
    Option.some_inj]
  have hpre := (List.nodup_append.1 hnodup).1
  rcases (Tracks.refl slots).marks hlt with ⟨taken, htracks, hmem⟩
  have hfree : (marks slots pre)[k]? = some true ↔
      slots[k]? = some true ∧ k ∉ serveAll slots pre := by
    rw [htracks.free k, hmem k]
    simp
  cases r with
  | any =>
      simp only [takes]
      constructor
      · intro hserve
        have hfind : (marks slots pre).findIdx? id = some k := by
          unfold serve at hserve
          cases hfind : (marks slots pre).findIdx? id with
          | some m =>
              simp only [hfind] at hserve
              rw [hserve]
          | none =>
              simp only [hfind] at hserve
              have := htracks.length
              omega
        rcases List.findIdx?_eq_some_iff_getElem.1 hfind with
          ⟨hlen, htrue, hfirst⟩
        have hnow : (marks slots pre)[k]? = some true := by
          rw [List.getElem?_eq_getElem hlen]
          exact congrArg some htrue
        rcases hfree.1 hnow with ⟨hslot, hnotmem⟩
        refine ⟨hslot, ?_⟩
        rw [left_eq hslot hlt (Tracks.refl slots) (by simp) hpre (by simp),
          if_neg hnotmem]
        congr 1
        by_contra hpos
        rcases findIdx_lt_of_freeBefore (Nat.pos_of_ne_zero hpos) with
          ⟨m, hm, hmk, -⟩
        rw [hm] at hfind
        cases hfind
        omega
      · rintro ⟨hslot, hleft⟩
        rw [left_eq hslot hlt (Tracks.refl slots) (by simp) hpre
          (by simp)] at hleft
        split at hleft
        · cases hleft
        · rename_i hnotmem
          have hfind := findIdx_of_freeBefore_zero (Option.some.inj hleft)
            (hfree.2 ⟨hslot, hnotmem⟩)
          simp [serve, hfind]
  | own m => exact Iff.rfl
  | fresh =>
      simp only [takes, iff_false, serve]
      have := htracks.length
      omega

end EspAdf.Verified.FirstFit
