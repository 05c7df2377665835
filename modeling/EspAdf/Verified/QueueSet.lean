import Mathlib

/-!
# Message queues and queue sets

A kernel with bounded message queues and **queue sets**.  A queue may be a
member of one set; every successful send to a member posts the queue's handle
to the set, `select` takes the oldest handle, and a direct `receive` from a
member takes a message and leaves the handle behind.

`InStep k s S held` says that set `s` is in step with its members: each
member has one handle in the set for each message, apart from the handle that
`select` handed out and whose message is not received yet (`held`).  It is
preserved by sends, by `select` and by the receive that follows it, and it
makes the set large enough and every select fruitful; it is what a direct
receive destroys.

The module names nothing of the modelled repository.
-/

namespace EspAdf.Verified.QueueSet

variable {M : Type*}

/-! ## The kernel objects -/

/-- A bounded queue; `container` is the set it belongs to. -/
structure Queue (M : Type*) where
  cap : Nat
  items : List M
  container : Option Nat

/-- A queue set: a bounded queue of queue handles. -/
structure HandleSet where
  cap : Nat
  entries : List Nat
  deriving DecidableEq, Repr

/-- All queues, and the sets that are alive. -/
structure Kernel (M : Type*) where
  queues : Nat → Queue M
  sets : Nat → Option HandleSet
  nextSet : Nat

namespace Kernel

def setItems (k : Kernel M) (q : Nat) (items : List M) : Kernel M :=
  let v := { k.queues q with items := items }
  { k with queues := Function.update k.queues q v }

def setContainer (k : Kernel M) (q : Nat) (c : Option Nat) : Kernel M :=
  let v := { k.queues q with container := c }
  { k with queues := Function.update k.queues q v }

def setSet (k : Kernel M) (s : Nat) (S : Option HandleSet) : Kernel M :=
  { k with sets := Function.update k.sets s S }

/-- Post the handle of `q` to its set, when there is room. -/
def post (k : Kernel M) (q : Nat) : Kernel M :=
  match (k.queues q).container with
  | none => k
  | some s =>
      match k.sets s with
      | none => k
      | some S =>
          if S.entries.length < S.cap then
            k.setSet s (some { S with entries := S.entries ++ [q] })
          else k

/-- Send without waiting; fails on a full queue. -/
def send (k : Kernel M) (q : Nat) (m : M) : Kernel M × Bool :=
  if (k.queues q).items.length < (k.queues q).cap then
    ((k.setItems q ((k.queues q).items ++ [m])).post q, true)
  else (k, false)

/-- Receive without waiting; the set is not told. -/
def receive (k : Kernel M) (q : Nat) : Kernel M × Option M :=
  match (k.queues q).items with
  | [] => (k, none)
  | m :: rest => (k.setItems q rest, some m)

/-- Take the oldest handle of a set. -/
def select (k : Kernel M) (s : Nat) : Kernel M × Option Nat :=
  match k.sets s with
  | none => (k, none)
  | some S =>
      match S.entries with
      | [] => (k, none)
      | q :: rest => (k.setSet s (some { S with entries := rest }), some q)

def createSet (k : Kernel M) (cap : Nat) : Kernel M × Nat :=
  ({ k.setSet k.nextSet (some ⟨cap, []⟩) with nextSet := k.nextSet + 1 },
    k.nextSet)

def deleteSet (k : Kernel M) (s : Nat) : Kernel M := k.setSet s none

/-- Fails on a queue that is a member already or holds messages. -/
def addToSet (k : Kernel M) (q s : Nat) : Kernel M × Bool :=
  if (k.queues q).container = none ∧ (k.queues q).items.length = 0 then
    (k.setContainer q (some s), true)
  else (k, false)

/-- Fails on a queue that is no member or holds messages. -/
def removeFromSet (k : Kernel M) (q s : Nat) : Kernel M × Bool :=
  if (k.queues q).container = some s ∧ (k.queues q).items.length = 0 then
    (k.setContainer q none, true)
  else (k, false)

/-! ## What each operation changes -/

@[simp] theorem setItems_sets (k : Kernel M) (q : Nat) (items : List M) :
    (k.setItems q items).sets = k.sets := rfl

@[simp] theorem setSet_queues (k : Kernel M) (s : Nat)
    (S : Option HandleSet) : (k.setSet s S).queues = k.queues := rfl

@[simp] theorem setSet_sets_self (k : Kernel M) (s : Nat)
    (S : Option HandleSet) : (k.setSet s S).sets s = S :=
  Function.update_self ..

@[simp] theorem setItems_items_self (k : Kernel M) (q : Nat)
    (items : List M) : ((k.setItems q items).queues q).items = items := by
  simp [setItems]

theorem setItems_queues_ne (k : Kernel M) {q p : Nat} (items : List M)
    (h : p ≠ q) : (k.setItems q items).queues p = k.queues p :=
  Function.update_of_ne h ..

@[simp] theorem setItems_cap (k : Kernel M) (q p : Nat) (items : List M) :
    ((k.setItems q items).queues p).cap = (k.queues p).cap := by
  by_cases h : p = q
  · subst h
    simp [setItems]
  · rw [setItems_queues_ne k items h]

@[simp] theorem setItems_container (k : Kernel M) (q p : Nat)
    (items : List M) :
    ((k.setItems q items).queues p).container = (k.queues p).container := by
  by_cases h : p = q
  · subst h
    simp [setItems]
  · rw [setItems_queues_ne k items h]

@[simp] theorem setContainer_cap (k : Kernel M) (q p : Nat)
    (c : Option Nat) :
    ((k.setContainer q c).queues p).cap = (k.queues p).cap := by
  by_cases h : p = q
  · subst h
    simp [setContainer]
  · simp [setContainer, Function.update_of_ne h]

@[simp] theorem setContainer_items (k : Kernel M) (q p : Nat)
    (c : Option Nat) :
    ((k.setContainer q c).queues p).items = (k.queues p).items := by
  by_cases h : p = q
  · subst h
    simp [setContainer]
  · simp [setContainer, Function.update_of_ne h]

@[simp] theorem setContainer_container_self (k : Kernel M) (q : Nat)
    (c : Option Nat) :
    ((k.setContainer q c).queues q).container = c := by
  simp [setContainer]

theorem setContainer_queues_ne (k : Kernel M) {q p : Nat} (c : Option Nat)
    (h : p ≠ q) : (k.setContainer q c).queues p = k.queues p :=
  Function.update_of_ne h ..

/-- Posting touches sets only. -/
@[simp] theorem post_queues (k : Kernel M) (q : Nat) :
    (k.post q).queues = k.queues := by
  unfold post
  split
  · rfl
  · split
    · rfl
    · split <;> rfl

/-- A queue that is no member posts nothing. -/
theorem post_of_not_member {k : Kernel M} {q : Nat}
    (h : (k.queues q).container = none) : k.post q = k := by
  simp [post, h]

/-- No operation on messages changes what is a member of what. -/
@[simp] theorem send_container (k : Kernel M) (q p : Nat) (m : M) :
    (((k.send q m).1).queues p).container = (k.queues p).container := by
  unfold send
  split <;> simp

@[simp] theorem send_cap (k : Kernel M) (q p : Nat) (m : M) :
    (((k.send q m).1).queues p).cap = (k.queues p).cap := by
  unfold send
  split <;> simp

@[simp] theorem receive_container (k : Kernel M) (q p : Nat) :
    (((k.receive q).1).queues p).container = (k.queues p).container := by
  unfold receive
  split <;> simp

@[simp] theorem receive_cap (k : Kernel M) (q p : Nat) :
    (((k.receive q).1).queues p).cap = (k.queues p).cap := by
  unfold receive
  split <;> simp

@[simp] theorem receive_sets (k : Kernel M) (q : Nat) :
    ((k.receive q).1).sets = k.sets := by
  unfold receive
  split <;> simp

@[simp] theorem select_queues (k : Kernel M) (s : Nat) :
    ((k.select s).1).queues = k.queues := by
  unfold select
  split
  · rfl
  · split <;> rfl

/-- A receive leaves the other queues alone. -/
theorem receive_queues_ne (k : Kernel M) {q p : Nat} (h : p ≠ q) :
    ((k.receive q).1).queues p = k.queues p := by
  unfold receive
  split
  · rfl
  · exact setItems_queues_ne k _ h

theorem receive_of_cons {k : Kernel M} {q : Nat} {m : M} {rest : List M}
    (h : (k.queues q).items = m :: rest) :
    k.receive q = (k.setItems q rest, some m) := by
  simp [receive, h]

theorem receive_of_nil {k : Kernel M} {q : Nat}
    (h : (k.queues q).items = []) : k.receive q = (k, none) := by
  simp [receive, h]

/-- A send leaves the messages of the other queues alone. -/
theorem send_items_ne (k : Kernel M) {q p : Nat} (m : M) (h : p ≠ q) :
    (((k.send q m).1).queues p).items = (k.queues p).items := by
  unfold send
  split
  · simp [setItems_queues_ne k _ h]
  · rfl

/-! ## Draining, and moving many queues at once -/

/-- Receive until the queue is empty. -/
def drain (k : Kernel M) (q : Nat) : Kernel M := k.setItems q []

/-- Take queues out of a set, up to the first that fails. -/
def removeAll (k : Kernel M) (s : Nat) : List Nat → Kernel M × Bool
  | [] => (k, true)
  | q :: qs =>
      match k.removeFromSet q s with
      | (k', true) => removeAll k' s qs
      | (k', false) => (k', false)

/-- Drain queues and put each into a set, up to the first that fails. -/
def addAll (k : Kernel M) (s : Nat) : List Nat → Kernel M × Bool
  | [] => (k, true)
  | q :: qs =>
      match (k.drain q).addToSet q s with
      | (k', true) => addAll k' s qs
      | (k', false) => (k', false)

/-- The members of `qs`, when they are all in the set once and empty, leave
it. -/
theorem removeAll_members {k : Kernel M} {s : Nat} {qs : List Nat}
    (hnodup : qs.Nodup)
    (hmem : ∀ q ∈ qs, (k.queues q).container = some s)
    (hempty : ∀ q ∈ qs, (k.queues q).items = []) :
    ∃ k', k.removeAll s qs = (k', true) ∧ k'.sets = k.sets ∧
      k'.nextSet = k.nextSet ∧
      (∀ q, (k'.queues q).items = (k.queues q).items) ∧
      ∀ q, (k'.queues q).container =
        if q ∈ qs then none else (k.queues q).container := by
  induction qs generalizing k with
  | nil => exact ⟨k, rfl, rfl, rfl, fun _ => rfl, fun _ => rfl⟩
  | cons p qs ih =>
      obtain ⟨hp, hrest⟩ := List.nodup_cons.1 hnodup
      have hfirst : k.removeFromSet p s = (k.setContainer p none, true) := by
        rw [removeFromSet, if_pos]
        exact ⟨hmem p List.mem_cons_self, by
          rw [hempty p List.mem_cons_self, List.length_nil]⟩
      have hne : ∀ q ∈ qs, q ≠ p := fun q hq heq => hp (heq ▸ hq)
      obtain ⟨k', hk', hsets, hnext, hitems, hcont⟩ :=
        ih (k := k.setContainer p none) hrest
          (by
            intro q hq
            rw [setContainer_queues_ne k none (hne q hq)]
            exact hmem q (List.mem_cons_of_mem p hq))
          (by
            intro q hq
            rw [setContainer_items]
            exact hempty q (List.mem_cons_of_mem p hq))
      refine ⟨k', by rw [removeAll, hfirst]; exact hk', hsets, hnext, ?_, ?_⟩
      · intro q
        rw [hitems, setContainer_items]
      · intro q
        rw [hcont]
        by_cases hq : q ∈ qs
        · rw [if_pos hq, if_pos (List.mem_cons_of_mem p hq)]
        · rw [if_neg hq]
          by_cases hqp : q = p
          · subst hqp
            simp
          · rw [setContainer_queues_ne k none hqp, if_neg]
            exact fun h => (List.mem_cons.1 h).elim hqp hq

/-- Queues are put into a set exactly when they are distinct and in none. -/
theorem addAll_iff (k : Kernel M) (s : Nat) (qs : List Nat) :
    (k.addAll s qs).2 = true ↔
      qs.Nodup ∧ ∀ q ∈ qs, (k.queues q).container = none := by
  induction qs generalizing k with
  | nil => simp [addAll]
  | cons p qs ih =>
      have hdrain : ((k.drain p).queues p).items.length = 0 := by
        simp [drain]
      have hcont : ∀ q, ((k.drain p).queues q).container =
          (k.queues q).container := fun q =>
        setItems_container k p q []
      by_cases hp : (k.queues p).container = none
      · have hfirst : (k.drain p).addToSet p s =
            ((k.drain p).setContainer p (some s), true) := by
          rw [addToSet, if_pos ⟨(hcont p).trans hp, hdrain⟩]
        rw [addAll, hfirst, List.nodup_cons]
        simp only [ih]
        constructor
        · rintro ⟨hnodup, hall⟩
          have hfree : ∀ q ∈ qs, q ≠ p ∧ (k.queues q).container = none := by
            intro q hq
            have hq' := hall q hq
            by_cases hqp : q = p
            · subst hqp
              rw [setContainer_container_self] at hq'
              cases hq'
            · rw [setContainer_queues_ne _ _ hqp, hcont] at hq'
              exact ⟨hqp, hq'⟩
          refine ⟨⟨fun hmem => (hfree p hmem).1 rfl, hnodup⟩, ?_⟩
          intro q hq
          rcases List.mem_cons.1 hq with rfl | hq
          · exact hp
          · exact (hfree q hq).2
        · rintro ⟨⟨hnot, hnodup⟩, hall⟩
          refine ⟨hnodup, ?_⟩
          intro q hq
          have hqp : q ≠ p := fun heq => hnot (heq ▸ hq)
          rw [setContainer_queues_ne _ _ hqp, hcont]
          exact hall q (List.mem_cons_of_mem p hq)
      · have hfirst : (k.drain p).addToSet p s = (k.drain p, false) := by
          rw [addToSet, if_neg]
          rintro ⟨hnone, -⟩
          exact hp ((hcont p).symm.trans hnone)
        rw [addAll, hfirst]
        constructor
        · intro h
          cases h
        · rintro ⟨-, hall⟩
          exact absurd (hall p List.mem_cons_self) hp

/-- Adding queues, successfully or not, leaves the sets themselves. -/
theorem addAll_sets (k : Kernel M) (s : Nat) (qs : List Nat) :
    (k.addAll s qs).1.sets = k.sets ∧
      (k.addAll s qs).1.nextSet = k.nextSet := by
  induction qs generalizing k with
  | nil => exact ⟨rfl, rfl⟩
  | cons p qs ih =>
      rw [addAll, addToSet]
      by_cases h : ((k.drain p).queues p).container = none ∧
          ((k.drain p).queues p).items.length = 0
      · rw [if_pos h]
        exact ih _
      · rw [if_neg h]
        exact ⟨rfl, rfl⟩

/-- The queues that were put into a set are in it and empty. -/
theorem addAll_members {k : Kernel M} {s : Nat} {qs : List Nat}
    (h : (k.addAll s qs).2 = true) :
    (∀ q, ((k.addAll s qs).1.queues q).items =
        if q ∈ qs then [] else (k.queues q).items) ∧
      ∀ q, ((k.addAll s qs).1.queues q).container =
        if q ∈ qs then some s else (k.queues q).container := by
  obtain ⟨hnodup, hfree⟩ := (addAll_iff k s qs).1 h
  clear h
  induction qs generalizing k with
  | nil => exact ⟨fun _ => rfl, fun _ => rfl⟩
  | cons p qs ih =>
      obtain ⟨hp, hrest⟩ := List.nodup_cons.1 hnodup
      have hcont : ∀ q, ((k.drain p).queues q).container =
          (k.queues q).container := fun q =>
        setItems_container k p q []
      have hfirst : (k.drain p).addToSet p s =
          ((k.drain p).setContainer p (some s), true) := by
        rw [addToSet, if_pos]
        exact ⟨(hcont p).trans (hfree p List.mem_cons_self), by simp [drain]⟩
      have hsame : ∀ q, q ≠ p →
          (((k.drain p).setContainer p (some s)).queues q).container =
            (k.queues q).container := by
        intro q hqp
        rw [setContainer_queues_ne _ _ hqp, hcont]
      have hne : ∀ q ∈ qs, q ≠ p := fun q hq heq => hp (heq ▸ hq)
      obtain ⟨hitems, hmem⟩ :=
        ih (k := (k.drain p).setContainer p (some s)) hrest (by
          intro q hq
          rw [hsame q (hne q hq)]
          exact hfree q (List.mem_cons_of_mem p hq))
      rw [addAll, hfirst]
      constructor
      · intro q
        rw [hitems, setContainer_items]
        by_cases hqp : q = p
        · subst hqp
          simp [drain]
        · simp [drain, setItems_queues_ne k _ hqp, hqp]
      · intro q
        rw [hmem]
        by_cases hqp : q = p
        · subst hqp
          simp
        · simp [hsame q hqp, hqp]

end Kernel

/-! ## Sets in step with their members -/

/-- Handles of `q` that were selected and not received yet. -/
def heldCount (held : Option Nat) (q : Nat) : Nat :=
  if held = some q then 1 else 0

/-- The set `s`, in state `S`, has one handle for each message of each
member, apart from the selected handle `held`, and room for all its members
can hold. -/
structure InStep (k : Kernel M) (s : Nat) (S : HandleSet)
    (held : Option Nat) : Prop where
  alive : k.sets s = some S
  count : ∀ q, (k.queues q).container = some s →
    S.entries.count q + heldCount held q = (k.queues q).items.length
  member : ∀ q ∈ S.entries, (k.queues q).container = some s
  heldMember : ∀ q, held = some q → (k.queues q).container = some s
  bounded : ∀ q, (k.queues q).container = some s →
    (k.queues q).items.length ≤ (k.queues q).cap
  room : ∃ members : Finset Nat,
    (∀ q, q ∈ members ↔ (k.queues q).container = some s) ∧
      ∑ q ∈ members, (k.queues q).cap ≤ S.cap

namespace InStep

variable {k : Kernel M} {s : Nat} {S : HandleSet} {held : Option Nat}

/-- Counting the handles member by member counts all of them. -/
theorem sum_count (h : InStep k s S held) {members : Finset Nat}
    (hmem : ∀ q, q ∈ members ↔ (k.queues q).container = some s) :
    ∑ q ∈ members, S.entries.count q = S.entries.length := by
  have hsum := Multiset.sum_count_eq_card (s := members)
    (m := (S.entries : Multiset Nat)) fun q hq =>
      (hmem q).mpr (h.member q (Multiset.mem_coe.mp hq))
  simpa using hsum

/-- A set in step never holds more handles than its capacity. -/
theorem entries_le (h : InStep k s S held) : S.entries.length ≤ S.cap := by
  obtain ⟨members, hmem, hcap⟩ := h.room
  have hsum := h.sum_count hmem
  calc S.entries.length = ∑ q ∈ members, S.entries.count q := hsum.symm
    _ ≤ ∑ q ∈ members, (k.queues q).cap := by
        apply Finset.sum_le_sum
        intro q hq
        have hc := h.count q ((hmem q).mp hq)
        have hb := h.bounded q ((hmem q).mp hq)
        omega
    _ ≤ S.cap := hcap

/-- A member with room for a message has room for its handle. -/
theorem entries_lt (h : InStep k s S held) {p : Nat}
    (hp : (k.queues p).container = some s)
    (hroom : (k.queues p).items.length < (k.queues p).cap) :
    S.entries.length < S.cap := by
  obtain ⟨members, hmem, hcap⟩ := h.room
  have hsum := h.sum_count hmem
  calc S.entries.length = ∑ q ∈ members, S.entries.count q := hsum.symm
    _ < ∑ q ∈ members, (k.queues q).cap := by
        apply Finset.sum_lt_sum
        · intro q hq
          have hc := h.count q ((hmem q).mp hq)
          have hb := h.bounded q ((hmem q).mp hq)
          omega
        · refine ⟨p, (hmem p).mpr hp, ?_⟩
          have hc := h.count p hp
          omega
    _ ≤ S.cap := hcap

/-- Being in step depends on the set and on the messages of its members. -/
theorem congr {k' : Kernel M} (h : InStep k s S held)
    (hsets : k'.sets = k.sets)
    (hcont : ∀ q, (k'.queues q).container = (k.queues q).container)
    (hcap : ∀ q, (k'.queues q).cap = (k.queues q).cap)
    (hitems : ∀ q, (k.queues q).container = some s →
      (k'.queues q).items = (k.queues q).items) :
    InStep k' s S held where
  alive := by
    rw [hsets]
    exact h.alive
  count := by
    intro q hq
    rw [hcont] at hq
    rw [hitems q hq]
    exact h.count q hq
  member := by
    intro q hq
    rw [hcont]
    exact h.member q hq
  heldMember := by
    intro q hq
    rw [hcont]
    exact h.heldMember q hq
  bounded := by
    intro q hq
    rw [hcont] at hq
    rw [hitems q hq, hcap]
    exact h.bounded q hq
  room := by
    obtain ⟨members, hmem, hsum⟩ := h.room
    exact ⟨members, by simpa only [hcont] using hmem,
      by simpa only [hcap] using hsum⟩

/-- Replacing the messages of a queue outside the set changes nothing. -/
theorem of_setItems_outside (h : InStep k s S held) {q : Nat}
    (hq : (k.queues q).container ≠ some s) (items : List M) :
    InStep (k.setItems q items) s S held := by
  refine h.congr rfl ?_ ?_ ?_
  · exact fun p => Kernel.setItems_container k q p items
  · exact fun p => Kernel.setItems_cap k q p items
  intro p hp
  have hne : p ≠ q := by
    rintro rfl
    exact hq hp
  rw [Kernel.setItems_queues_ne k items hne]

/-- **Send.**  A member's message comes with its handle. -/
theorem send (h : InStep k s S held) (q : Nat) (m : M)
    (hother : ∀ s', (k.queues q).container = some s' → s' = s) :
    ∃ S', InStep (k.send q m).1 s S' held ∧ S'.cap = S.cap := by
  unfold Kernel.send
  by_cases hroom : (k.queues q).items.length < (k.queues q).cap
  · rw [if_pos hroom]
    by_cases hq : (k.queues q).container = some s
    · have hlt := h.entries_lt hq hroom
      refine ⟨{ S with entries := S.entries ++ [q] }, ?_, rfl⟩
      have hpost : (k.setItems q ((k.queues q).items ++ [m])).post q =
          (k.setItems q ((k.queues q).items ++ [m])).setSet s
            (some { S with entries := S.entries ++ [q] }) := by
        simp [Kernel.post, hq, h.alive, hlt]
      show InStep ((k.setItems q _).post q) s _ held
      rw [hpost]
      refine
        { alive := by simp, count := ?_, member := ?_, heldMember := ?_
          bounded := ?_, room := ?_ }
      · intro p hp
        simp only [Kernel.setSet_queues, Kernel.setItems_container] at hp
        have hc := h.count p hp
        by_cases hpq : p = q
        · subst hpq
          simp
          omega
        · have hqp : ¬q = p := fun e => hpq e.symm
          simp [Kernel.setItems_queues_ne k _ hpq, hqp]
          omega
      · intro p hp
        simp only [Kernel.setSet_queues, Kernel.setItems_container]
        rcases List.mem_append.mp hp with hold | hnew
        · exact h.member p hold
        · obtain rfl := List.mem_singleton.mp hnew
          exact hq
      · intro p hp
        simp only [Kernel.setSet_queues, Kernel.setItems_container]
        exact h.heldMember p hp
      · intro p hp
        simp only [Kernel.setSet_queues, Kernel.setItems_container] at hp
        have hb := h.bounded p hp
        by_cases hpq : p = q
        · subst hpq
          simp
          omega
        · simpa [Kernel.setItems_queues_ne k _ hpq] using hb
      · obtain ⟨members, hmem, hcap⟩ := h.room
        exact ⟨members, by simpa using hmem, by simpa using hcap⟩
    · refine ⟨S, ?_, rfl⟩
      have hnone : (k.queues q).container = none := by
        cases hc : (k.queues q).container with
        | none => rfl
        | some s' =>
            obtain rfl := hother s' hc
            exact absurd hc hq
      show InStep ((k.setItems q _).post q) s S held
      rw [Kernel.post_of_not_member (by simpa using hnone)]
      exact h.of_setItems_outside hq _
  · rw [if_neg hroom]
    exact ⟨S, h, rfl⟩

/-- **Select** hands out a handle of a member with a message. -/
theorem select {q : Nat} {rest : List Nat} (h : InStep k s S none)
    (hS : S.entries = q :: rest) :
    k.select s = (k.setSet s (some { S with entries := rest }), some q) ∧
      InStep (k.select s).1 s { S with entries := rest } (some q) := by
  have heq : k.select s =
      (k.setSet s (some { S with entries := rest }), some q) := by
    simp [Kernel.select, h.alive, hS]
  refine ⟨heq, ?_⟩
  rw [heq]
  refine
    { alive := by simp, count := ?_, member := ?_, heldMember := ?_
      bounded := h.bounded, room := h.room }
  · intro p hp
    have hc := h.count p hp
    rw [hS, List.count_cons] at hc
    show rest.count p + heldCount (some q) p = (k.queues p).items.length
    unfold heldCount at *
    by_cases hpq : q = p
    · subst hpq
      simp at hc ⊢
      omega
    · simpa [hpq] using hc
  · intro p hp
    exact h.member p (by rw [hS]; exact List.mem_cons_of_mem q hp)
  · intro p hp
    obtain rfl := Option.some.inj hp
    exact h.member q (by rw [hS]; exact List.mem_cons_self)

/-- A set without handles has only empty members. -/
theorem items_eq_nil (h : InStep k s S none) (hS : S.entries = [])
    {q : Nat} (hq : (k.queues q).container = some s) :
    (k.queues q).items = [] := by
  have hc := h.count q hq
  rw [hS] at hc
  exact List.length_eq_zero_iff.mp hc.symm

/-- The selected queue has a message. -/
theorem held_ne_nil {q : Nat} (h : InStep k s S (some q)) :
    (k.queues q).items ≠ [] := by
  intro hnil
  have hc := h.count q (h.heldMember q rfl)
  rw [hnil] at hc
  simp [heldCount] at hc

/-- **Receive** from the selected queue. -/
theorem receive {q : Nat} (h : InStep k s S (some q)) :
    ∃ m rest, (k.queues q).items = m :: rest ∧
      k.receive q = (k.setItems q rest, some m) ∧
      InStep (k.setItems q rest) s S none := by
  obtain ⟨m, rest, hitems⟩ := List.exists_cons_of_ne_nil h.held_ne_nil
  refine ⟨m, rest, hitems, Kernel.receive_of_cons hitems, ?_⟩
  refine
    { alive := h.alive, count := ?_, member := ?_, heldMember := ?_
      bounded := ?_, room := ?_ }
  · intro p hp
    rw [Kernel.setItems_container] at hp
    have hc := h.count p hp
    by_cases hpq : p = q
    · subst hpq
      rw [hitems] at hc
      simp [heldCount] at hc ⊢
      omega
    · have hqp : ¬q = p := fun e => hpq e.symm
      simpa [Kernel.setItems_queues_ne k _ hpq, heldCount, hqp] using hc
  · intro p hp
    rw [Kernel.setItems_container]
    exact h.member p hp
  · intro p hp
    cases hp
  · intro p hp
    rw [Kernel.setItems_container] at hp
    have hb := h.bounded p hp
    by_cases hpq : p = q
    · subst hpq
      rw [hitems] at hb
      simp at hb ⊢
      omega
    · simpa [Kernel.setItems_queues_ne k _ hpq] using hb
  · obtain ⟨members, hmem, hcap⟩ := h.room
    exact ⟨members, by simpa using hmem, by simpa using hcap⟩

/-- A direct receive from a member with a message leaves a handle too many
behind. -/
theorem receive_direct (h : InStep k s S none) {q : Nat}
    (hq : (k.queues q).container = some s)
    (hitems : (k.queues q).items ≠ []) :
    (k.receive q).1.sets s = some S ∧
      S.entries.count q = ((k.receive q).1.queues q).items.length + 1 := by
  obtain ⟨m, rest, hcons⟩ := List.exists_cons_of_ne_nil hitems
  refine ⟨by rw [Kernel.receive_sets]; exact h.alive, ?_⟩
  have hc := h.count q hq
  rw [hcons] at hc
  rw [Kernel.receive_of_cons hcons]
  simpa [heldCount] using hc

end InStep

end EspAdf.Verified.QueueSet
