import EspAdf.Ports.EventIface

/-!
# Do the queue set and `listening_queues` stay in step?

`audio_event_iface_set_listener`, `_set_msg_listener` and `_remove_listener`
as calls that run to their end while nobody sends (`EventIface` takes them
apart).  Each of them takes every queue out of the listener's set, deletes the
set, edits `listening_queues`, creates a new set and adds every queue again.

Adding fails for a queue that is in a set already: one that another listener
has, or one that is on the list twice.  The call then returns `ESP_FAIL` with
the list edited and the set half filled, and every later call fails in its
cleanup.  And when `xQueueCreateSet` finds no memory the call returns `ESP_OK`
without a set.

`membership_iff` proves that these are the only ways: the set and the list
stay in step exactly over the calls that attach a queue which is in no set and
that get their set.
-/

namespace EspAdf.Ports.EventMembership

open EspAdf.Verified
open EspAdf.Verified.QueueSet (Kernel HandleSet)
open EspAdf.Ports.EventIface (Iface Item Listener ESP_OK ESP_FAIL
  ESP_ERR_NO_MEM ESP_ERR_INVALID_ARG)

variable {M : Type*}

/-! ## The calls -/

/-- `while (xQueueReceive(queue, ..) == pdTRUE);`, as `discard` guards it. -/
def drainIf (k : Kernel M) (queue : Option Nat) (size : Nat) : Kernel M :=
  match queue with
  | some q => if size ≠ 0 then k.drain q else k
  | none => k

/-- `while (audio_event_iface_read(evt, ..) == ESP_OK);`.  Each round takes a
handle from the set, so there are no more rounds than handles. -/
def readAll (k : Kernel M) (s : Nat) : Nat → Kernel M
  | 0 => k
  | rounds + 1 =>
      match k.select s with
      | (k', none) => k'
      | (k', some q) =>
          match k'.receive q with
          | (k'', some _) => readAll k'' s rounds
          | (k'', none) => k''

def handleCount (k : Kernel M) (s : Nat) : Nat :=
  ((k.sets s).map fun S => S.entries.length).getD 0

/-- `audio_event_iface_discard`. -/
def discard (evt : Iface) (l : Listener) (k : Kernel M) : Kernel M :=
  let k := drainIf k evt.externalQueue evt.externalQueueSize
  let k := drainIf k evt.internalQueue evt.internalQueueSize
  match l.queueSet with
  | some s => if evt.queueSetSize ≠ 0 then readAll k s (handleCount k s) else k
  | none => k

/-- The listener and what a call on it returned. -/
structure Done (M : Type*) where
  kernel : Kernel M
  listener : Listener
  err : Int

def queues (l : Listener) : List Nat :=
  l.listeningQueues.map Item.queue

/-- `audio_event_iface_cleanup_listener`. -/
def cleanupListener (listen : Iface) (k : Kernel M) (l : Listener) : Done M :=
  let k := discard listen l k
  match l.queueSet with
  | none => ⟨k, l, ESP_OK⟩
  | some s =>
      match k.removeAll s (queues l) with
      | (k, true) => ⟨k.deleteSet s, { l with queueSet := none }, ESP_OK⟩
      | (k, false) => ⟨k, l, ESP_FAIL⟩

/-- The first loop of `audio_event_iface_update_listener`. -/
def queueSize (l : Listener) : Nat :=
  (l.listeningQueues.map Item.queueSize).sum

/-- `xQueueCreateSet`, when there is something to listen to. -/
def createQueueSet (alloc : Bool) (k : Kernel M) (l : Listener) :
    Kernel M × Listener :=
  if queueSize l ≠ 0 then
    if alloc then
      ((k.createSet (queueSize l)).1,
        { l with queueSet := some (k.createSet (queueSize l)).2 })
    else (k, { l with queueSet := none })
  else (k, l)

/-- `audio_event_iface_update_listener`. -/
def updateListener (alloc : Bool) (k : Kernel M) (l : Listener) : Done M :=
  let (k, l) := createQueueSet alloc k l
  match l.queueSet with
  | none => ⟨(queues l).foldl Kernel.drain k, l, ESP_OK⟩
  | some s =>
      match k.addAll s (queues l) with
      | (k, true) => ⟨k, l, ESP_OK⟩
      | (k, false) => ⟨k, l, ESP_FAIL⟩

/-- What the allocations of a call do: the item's `calloc` and
`xQueueCreateSet`. -/
structure Mem where
  item : Bool
  set : Bool
  deriving DecidableEq, Repr

/-- The body of `audio_event_iface_set_listener` and `_set_msg_listener` for
a queue of the emitter. -/
def attach (listen : Iface) (queue : Option Nat) (size : Nat) (mem : Mem)
    (k : Kernel M) (l : Listener) : Done M :=
  match queue with
  | none => ⟨k, l, ESP_ERR_INVALID_ARG⟩
  | some q =>
      if size = 0 then ⟨k, l, ESP_ERR_INVALID_ARG⟩
      else if mem.item = false then ⟨k, l, ESP_ERR_NO_MEM⟩
      else
        let d := cleanupListener listen k l
        if d.err ≠ ESP_OK then { d with err := ESP_FAIL }
        else updateListener mem.set d.kernel { d.listener with
          listeningQueues := d.listener.listeningQueues ++ [⟨q, size⟩] }

/-- `audio_event_iface_set_listener`. -/
def setListener (listen evt : Iface) (mem : Mem) (k : Kernel M)
    (l : Listener) : Done M :=
  attach listen evt.externalQueue evt.externalQueueSize mem k l

/-- `audio_event_iface_set_msg_listener`. -/
def setMsgListener (listen evt : Iface) (mem : Mem) (k : Kernel M)
    (l : Listener) : Done M :=
  attach listen evt.internalQueue evt.internalQueueSize mem k l

/-- `STAILQ_REMOVE` of every item with the queue. -/
def forget (q : Nat) (l : Listener) : Listener :=
  { l with
    listeningQueues := l.listeningQueues.filter fun item => item.queue ≠ q }

/-- `audio_event_iface_remove_listener`. -/
def removeListener (listen evt : Iface) (alloc : Bool) (k : Kernel M)
    (l : Listener) : Done M :=
  match evt.externalQueue with
  | none => ⟨k, l, ESP_ERR_INVALID_ARG⟩
  | some q =>
      if evt.externalQueueSize = 0 then ⟨k, l, ESP_ERR_INVALID_ARG⟩
      else
        let d := cleanupListener listen k l
        if d.err ≠ ESP_OK then { d with err := ESP_FAIL }
        else updateListener alloc d.kernel (forget q d.listener)

/-! ## The system -/

/-- A call on the listener, and what its allocations do. -/
inductive ListenerCall where
  | setListener (evt : Nat) (mem : Mem)
  | setMsgListener (evt : Nat) (mem : Mem)
  | removeListener (evt : Nat) (alloc : Bool)
  deriving DecidableEq, Repr

/-- The interfaces, and the one that listens. -/
structure Setting where
  evts : Nat → Iface
  listen : Nat

def callStep (g : Setting) (d : Done M) : ListenerCall → Done M
  | .setListener evt mem =>
      setListener (g.evts g.listen) (g.evts evt) mem d.kernel d.listener
  | .setMsgListener evt mem =>
      setMsgListener (g.evts g.listen) (g.evts evt) mem d.kernel d.listener
  | .removeListener evt alloc =>
      removeListener (g.evts g.listen) (g.evts evt) alloc d.kernel d.listener

def callMachine (M : Type*) (g : Setting) : Machine (Done M) ListenerCall :=
  ⟨fun d c => some (callStep g d c)⟩

/-! ## The property and the condition -/

/-- The queue is in the listener's set. -/
def Done.Member (d : Done M) (q : Nat) : Prop :=
  ∃ s, d.listener.queueSet = some s ∧
    (d.kernel.queues q).container = some s

/-- The size the listener's set was created with. -/
def Done.capacity (d : Done M) : Nat :=
  ((d.listener.queueSet.bind d.kernel.sets).map HandleSet.cap).getD 0

/-- The members of the set are the queues on the list, and it has room for
what they can hold. -/
def Consistent (d : Done M) : Prop :=
  (∀ q, d.Member q ↔ q ∈ queues d.listener) ∧
    (d.listener.listeningQueues.dedup.map Item.queueSize).sum ≤ d.capacity

/-- A failed call changed nothing, and every attached emitter can be
removed. -/
def Untouched (g : Setting) (d d' : Done M) : Prop :=
  d'.listener.listeningQueues = d.listener.listeningQueues ∧
    (∀ q, d'.Member q ↔ d.Member q) ∧
    ∀ evt q alloc, (g.evts evt).externalQueue = some q →
      (g.evts evt).externalQueueSize ≠ 0 → q ∈ queues d'.listener →
      (callStep g d' (.removeListener evt alloc)).err = ESP_OK

/-- What the property says of one call. -/
def Keeps (g : Setting) (d : Done M) (c : ListenerCall) : Prop :=
  ((callStep g d c).err = ESP_OK → Consistent (callStep g d c)) ∧
    ((callStep g d c).err ≠ ESP_OK → Untouched g d (callStep g d c))

/-- The queue that a call attaches gets into no set twice, and the call gets
its set. -/
def AttachOk (d : Done M) (queue : Option Nat) (size : Nat) (mem : Mem) :
    Prop :=
  ∀ q ∈ queue, size ≠ 0 → mem.item = true →
    mem.set = true ∧ q ∉ queues d.listener ∧
      (d.kernel.queues q).container = none

/-- The condition on a call. -/
def CallOk (g : Setting) (d : Done M) : ListenerCall → Prop
  | .setListener evt mem =>
      AttachOk d (g.evts evt).externalQueue (g.evts evt).externalQueueSize mem
  | .setMsgListener evt mem =>
      AttachOk d (g.evts evt).internalQueue (g.evts evt).internalQueueSize mem
  | .removeListener evt alloc =>
      ∀ q ∈ (g.evts evt).externalQueue, (g.evts evt).externalQueueSize ≠ 0 →
        (forget q d.listener).listeningQueues ≠ [] → alloc = true

instance (d : Done M) (queue : Option Nat) (size : Nat) (mem : Mem) :
    Decidable (AttachOk d queue size mem) :=
  inferInstanceAs (Decidable (∀ q ∈ queue, size ≠ 0 → mem.item = true →
    mem.set = true ∧ q ∉ queues d.listener ∧
      (d.kernel.queues q).container = none))

instance (g : Setting) (d : Done M) (c : ListenerCall) :
    Decidable (CallOk g d c) :=
  match c with
  | .setListener evt mem => inferInstanceAs (Decidable (AttachOk d
      (g.evts evt).externalQueue (g.evts evt).externalQueueSize mem))
  | .setMsgListener evt mem => inferInstanceAs (Decidable (AttachOk d
      (g.evts evt).internalQueue (g.evts evt).internalQueueSize mem))
  | .removeListener evt alloc => inferInstanceAs (Decidable
      (∀ q ∈ (g.evts evt).externalQueue, (g.evts evt).externalQueueSize ≠ 0 →
        (forget q d.listener).listeningQueues ≠ [] → alloc = true))

/-- A listener that listens to nothing yet. -/
structure Starts (d : Done M) : Prop where
  list : d.listener.listeningQueues = []
  outside : ∀ s q, d.listener.queueSet = some s →
    (d.kernel.queues q).container ≠ some s
  old : ∀ s q, (d.kernel.queues q).container = some s → s < d.kernel.nextSet

/-! ## What a discard leaves -/

/-- Messages are thrown away; nothing else of the queues changes. -/
structure Discarded (k k' : Kernel M) : Prop where
  nextSet : k'.nextSet = k.nextSet
  container : ∀ q, (k'.queues q).container = (k.queues q).container
  empty : ∀ q, (k.queues q).items = [] → (k'.queues q).items = []

theorem Discarded.refl (k : Kernel M) : Discarded k k :=
  ⟨rfl, fun _ => rfl, fun _ => id⟩

theorem Discarded.trans {k k' k'' : Kernel M} (h : Discarded k k')
    (h' : Discarded k' k'') : Discarded k k'' where
  nextSet := h'.nextSet.trans h.nextSet
  container := fun q => (h'.container q).trans (h.container q)
  empty := fun q hq => h'.empty q (h.empty q hq)

theorem discarded_setItems (k : Kernel M) (q : Nat) (items : List M)
    (h : (k.queues q).items = [] → items = []) :
    Discarded k (k.setItems q items) := by
  refine ⟨rfl, fun p => Kernel.setItems_container k q p items, ?_⟩
  intro p hp
  by_cases hpq : p = q
  · subst hpq
    rw [Kernel.setItems_items_self]
    exact h hp
  · rw [Kernel.setItems_queues_ne k items hpq]
    exact hp

theorem discarded_drain (k : Kernel M) (q : Nat) :
    Discarded k (k.drain q) := discarded_setItems k q [] fun _ => rfl

theorem discarded_drainIf (k : Kernel M) (queue : Option Nat) (size : Nat) :
    Discarded k (drainIf k queue size) := by
  unfold drainIf
  split
  · split
    · exact discarded_drain k _
    · exact .refl k
  · exact .refl k

theorem discarded_receive (k : Kernel M) (q : Nat) :
    Discarded k (k.receive q).1 := by
  unfold Kernel.receive
  split
  · exact .refl k
  · rename_i m rest hitems
    refine discarded_setItems k q rest fun hnil => ?_
    rw [hitems] at hnil
    cases hnil

theorem discarded_select (k : Kernel M) (s : Nat) :
    Discarded k (k.select s).1 := by
  have hnext : (k.select s).1.nextSet = k.nextSet := by
    unfold Kernel.select
    split
    · rfl
    · split <;> rfl
  exact ⟨hnext, fun q => by rw [Kernel.select_queues],
    fun q hq => by rw [Kernel.select_queues]; exact hq⟩

theorem discarded_readAll (k : Kernel M) (s rounds : Nat) :
    Discarded k (readAll k s rounds) := by
  induction rounds generalizing k with
  | zero => exact .refl k
  | succ rounds ih =>
      have hselect := discarded_select k s
      rw [readAll]
      split
      · rename_i k' hk'
        rw [hk'] at hselect
        exact hselect
      · rename_i k' q hk'
        rw [hk'] at hselect
        have hreceive := discarded_receive k' q
        split
        · rename_i k'' m hk''
          rw [hk''] at hreceive
          exact (hselect.trans hreceive).trans (ih k'')
        · rename_i k'' hk''
          rw [hk''] at hreceive
          exact hselect.trans hreceive

theorem discarded_discard (evt : Iface) (l : Listener) (k : Kernel M) :
    Discarded k (discard evt l k) := by
  have hdrain := (discarded_drainIf k evt.externalQueue
    evt.externalQueueSize).trans
    (discarded_drainIf _ evt.internalQueue evt.internalQueueSize)
  unfold discard
  split
  · split
    · exact hdrain.trans (discarded_readAll _ _ _)
    · exact hdrain
  · exact hdrain

/-! ## The invariant -/

/-- The list names each queue once, the set has these queues, and they are
empty. -/
structure Tracked (d : Done M) : Prop where
  nodup : (queues d.listener).Nodup
  sizes : ∀ item ∈ d.listener.listeningQueues, item.queueSize ≠ 0
  member : ∀ q, d.Member q ↔ q ∈ queues d.listener
  empty : ∀ q ∈ queues d.listener, (d.kernel.queues q).items = []
  old : ∀ s q, (d.kernel.queues q).container = some s →
    s < d.kernel.nextSet
  room : queueSize d.listener ≤ d.capacity

theorem Tracked.start {d : Done M} (h : Starts d) : Tracked d := by
  have hnil : queues d.listener = [] := by rw [queues, h.list]; rfl
  refine ⟨?_, ?_, ?_, ?_, h.old, ?_⟩
  · rw [hnil]
    exact List.nodup_nil
  · rw [h.list]
    simp
  · intro q
    rw [hnil]
    simp only [List.not_mem_nil, iff_false]
    rintro ⟨s, hs, hq⟩
    exact h.outside s q hs hq
  · rw [hnil]
    simp
  · rw [queueSize, h.list]
    exact Nat.zero_le _

theorem nodup_items {l : Listener} (h : (queues l).Nodup) :
    l.listeningQueues.Nodup := List.Nodup.of_map _ h

theorem Tracked.consistent {d : Done M} (h : Tracked d) : Consistent d := by
  refine ⟨h.member, ?_⟩
  rw [(nodup_items h.nodup).dedup]
  exact h.room

/-- The cleanup takes every queue on the list out of the set. -/
theorem Tracked.cleanup {d : Done M} (h : Tracked d) (listen : Iface) :
    ∃ k, cleanupListener listen d.kernel d.listener =
        ⟨k, ⟨none, d.listener.listeningQueues⟩, ESP_OK⟩ ∧
      k.nextSet = d.kernel.nextSet ∧
      ∀ q, (k.queues q).container = if q ∈ queues d.listener then none
        else (d.kernel.queues q).container := by
  have hdisc := discarded_discard listen d.listener d.kernel
  unfold cleanupListener
  cases hset : d.listener.queueSet with
  | none =>
      refine ⟨discard listen d.listener d.kernel, ?_, hdisc.nextSet, ?_⟩
      · dsimp only
        rw [← hset]
      · intro q
        have hq : q ∉ queues d.listener := by
          rw [← h.member]
          rintro ⟨s, hs, -⟩
          rw [hset] at hs
          cases hs
        rw [if_neg hq]
        exact hdisc.container q
  | some s =>
      obtain ⟨k, hk, -, hnext, -, hcont⟩ :=
        Kernel.removeAll_members (k := discard listen d.listener d.kernel)
          (s := s) h.nodup (by
            intro q hq
            rw [hdisc.container]
            obtain ⟨s', hs', hq'⟩ := (h.member q).2 hq
            rw [hset, Option.some.injEq] at hs'
            exact hs' ▸ hq')
          fun q hq => hdisc.empty q (h.empty q hq)
      refine ⟨k.deleteSet s, ?_, hnext.trans hdisc.nextSet, ?_⟩
      · simp only [hk]
      · intro q
        show (k.queues q).container = _
        rw [hcont]
        split
        · rfl
        · exact hdisc.container q

/-! ## The update -/

variable {k : Kernel M} {list : List Item}

theorem queueSize_pos (hne : list ≠ [])
    (hsizes : ∀ item ∈ list, item.queueSize ≠ 0) (s : Option Nat) :
    queueSize ⟨s, list⟩ ≠ 0 := by
  obtain ⟨item, rest, rfl⟩ := List.exists_cons_of_ne_nil hne
  have hitem := hsizes item List.mem_cons_self
  rw [queueSize, List.map_cons, List.sum_cons]
  omega

/-- What an update with memory does: a new set, and every queue added. -/
theorem update_eq (k : Kernel M) (hne : list ≠ [])
    (hsizes : ∀ item ∈ list, item.queueSize ≠ 0) {k' : Kernel M} {b : Bool}
    (hadd : (k.createSet (queueSize ⟨none, list⟩)).1.addAll k.nextSet
      (list.map Item.queue) = (k', b)) :
    updateListener true k ⟨none, list⟩ =
      ⟨k', ⟨some k.nextSet, list⟩, if b then ESP_OK else ESP_FAIL⟩ := by
  have hcreate : createQueueSet true k ⟨none, list⟩ =
      ((k.createSet (queueSize ⟨none, list⟩)).1, ⟨some k.nextSet, list⟩) := by
    rw [createQueueSet, if_pos (queueSize_pos hne hsizes none), if_pos rfl]
    rfl
  have hqueues : queues ⟨some k.nextSet, list⟩ = list.map Item.queue := rfl
  unfold updateListener
  rw [hcreate]
  simp only [hqueues, hadd]
  cases b <;> rfl

/-- The new set gets the queues that are in none, each once. -/
theorem update_tracked (hsizes : ∀ item ∈ list, item.queueSize ≠ 0)
    (hnodup : (list.map Item.queue).Nodup)
    (hfree : ∀ q ∈ list.map Item.queue, (k.queues q).container = none)
    (hold : ∀ s q, (k.queues q).container = some s → s < k.nextSet) :
    (updateListener true k ⟨none, list⟩).err = ESP_OK ∧
      Tracked (updateListener true k ⟨none, list⟩) := by
  by_cases hnil : list = []
  · subst hnil
    refine ⟨rfl, Tracked.start ⟨rfl, ?_, hold⟩⟩
    intro s q hs
    cases hs
  · have hadd : ((k.createSet (queueSize ⟨none, list⟩)).1.addAll k.nextSet
        (list.map Item.queue)).2 = true :=
      (Kernel.addAll_iff _ _ _).2 ⟨hnodup, hfree⟩
    obtain ⟨hitems, hmem⟩ := Kernel.addAll_members hadd
    have hsets := Kernel.addAll_sets (k.createSet (queueSize ⟨none, list⟩)).1
      k.nextSet (list.map Item.queue)
    generalize hres : (k.createSet (queueSize ⟨none, list⟩)).1.addAll
      k.nextSet (list.map Item.queue) = res at hadd hitems hmem hsets
    obtain ⟨k', b⟩ := res
    obtain rfl : b = true := hadd
    rw [update_eq k hnil hsizes hres]
    refine ⟨rfl, hnodup, hsizes, ?_, ?_, ?_, ?_⟩
    · intro q
      show (∃ s, some k.nextSet = some s ∧
        (k'.queues q).container = some s) ↔ q ∈ list.map Item.queue
      constructor
      · rintro ⟨s, hs, hq⟩
        cases hs
        rw [hmem] at hq
        split at hq
        · assumption
        · exact absurd (hold _ q hq) (Nat.lt_irrefl _)
      · intro hq
        exact ⟨_, rfl, by rw [hmem, if_pos hq]⟩
    · intro q hq
      show (k'.queues q).items = []
      rw [hitems]
      exact if_pos hq
    · intro s q hq
      show s < k'.nextSet
      have hq : (k'.queues q).container = some s := hq
      rw [hsets.2]
      show s < k.nextSet + 1
      rw [hmem] at hq
      split at hq
      · cases hq
        exact Nat.lt_succ_self _
      · exact Nat.lt_succ_of_lt (hold s q hq)
    · show queueSize ⟨some k.nextSet, list⟩ ≤
        ((k'.sets k.nextSet).map HandleSet.cap).getD 0
      rw [hsets.1]
      simp [Kernel.createSet, queueSize]

/-- Otherwise the update fails, with the list as it is. -/
theorem update_fails (hne : list ≠ [])
    (hsizes : ∀ item ∈ list, item.queueSize ≠ 0)
    (h : ¬((list.map Item.queue).Nodup ∧
      ∀ q ∈ list.map Item.queue, (k.queues q).container = none)) :
    (updateListener true k ⟨none, list⟩).err = ESP_FAIL ∧
      (updateListener true k ⟨none, list⟩).listener.listeningQueues =
        list := by
  have hadd : ((k.createSet (queueSize ⟨none, list⟩)).1.addAll k.nextSet
      (list.map Item.queue)).2 = false := by
    rw [← Bool.not_eq_true, Kernel.addAll_iff]
    exact h
  generalize hres : (k.createSet (queueSize ⟨none, list⟩)).1.addAll
    k.nextSet (list.map Item.queue) = res at hadd
  obtain ⟨k', b⟩ := res
  obtain rfl : b = false := hadd
  rw [update_eq k hne hsizes hres]
  exact ⟨rfl, rfl⟩

/-- Without memory for the set the update succeeds without one. -/
theorem update_without (hne : list ≠ [])
    (hsizes : ∀ item ∈ list, item.queueSize ≠ 0) :
    (updateListener false k ⟨none, list⟩).err = ESP_OK ∧
      ¬Consistent (updateListener false k ⟨none, list⟩) := by
  have hcreate : createQueueSet false k ⟨none, list⟩ = (k, ⟨none, list⟩) := by
    rw [createQueueSet, if_pos (queueSize_pos hne hsizes none)]
    rfl
  have hupd : updateListener false k ⟨none, list⟩ =
      ⟨(list.map Item.queue).foldl Kernel.drain k, ⟨none, list⟩, ESP_OK⟩ := by
    unfold updateListener
    rw [hcreate]
    rfl
  rw [hupd]
  refine ⟨rfl, ?_⟩
  rintro ⟨hmember, -⟩
  obtain ⟨item, rest, rfl⟩ := List.exists_cons_of_ne_nil hne
  obtain ⟨s, hs, -⟩ := (hmember item.queue).2 List.mem_cons_self
  cases hs

/-! ## The calls -/

/-- The containers after a cleanup, for queues that were in no set but that
of the listener. -/
theorem free_after_cleanup {d : Done M} {k : Kernel M} {q : Nat}
    (hcont : ∀ q, (k.queues q).container = if q ∈ queues d.listener then none
      else (d.kernel.queues q).container)
    (hq : q ∈ queues d.listener) : (k.queues q).container = none := by
  rw [hcont, if_pos hq]

theorem old_after_cleanup {d : Done M} {k : Kernel M} (h : Tracked d)
    (hnext : k.nextSet = d.kernel.nextSet)
    (hcont : ∀ q, (k.queues q).container = if q ∈ queues d.listener then none
      else (d.kernel.queues q).container) (s q : Nat)
    (hq : (k.queues q).container = some s) : s < k.nextSet := by
  rw [hcont] at hq
  split at hq
  · cases hq
  · exact hnext ▸ h.old s q hq

variable {g : Setting} {d : Done M}

/-- Removing succeeds, whatever the emitter. -/
theorem Tracked.remove_ok (h : Tracked d) {evt : Nat} {q : Nat}
    (hq : (g.evts evt).externalQueue = some q)
    (hsize : (g.evts evt).externalQueueSize ≠ 0) (alloc : Bool) :
    (callStep g d (.removeListener evt alloc)).err = ESP_OK ∧
      (((forget q d.listener).listeningQueues ≠ [] → alloc = true) →
        Tracked (callStep g d (.removeListener evt alloc))) ∧
      (¬((forget q d.listener).listeningQueues ≠ [] → alloc = true) →
        ¬Consistent (callStep g d (.removeListener evt alloc))) := by
  obtain ⟨k, hclean, hnext, hcont⟩ := h.cleanup (g.evts g.listen)
  have hstep : callStep g d (.removeListener evt alloc) = updateListener
      alloc k ⟨none, (forget q d.listener).listeningQueues⟩ := by
    simp only [callStep, removeListener, hq, if_neg hsize, hclean]
    rfl
  have hsub : ((forget q d.listener).listeningQueues).Sublist
      d.listener.listeningQueues := List.filter_sublist
  have hqueues := hsub.map Item.queue
  have hsizes : ∀ item ∈ (forget q d.listener).listeningQueues,
      item.queueSize ≠ 0 := fun item hitem => h.sizes item (hsub.subset hitem)
  have htrue := update_tracked (k := k) hsizes (hqueues.nodup h.nodup)
    (fun p hp => free_after_cleanup hcont (hqueues.subset hp))
    (old_after_cleanup h hnext hcont)
  rw [hstep]
  cases alloc with
  | true =>
      exact ⟨htrue.1, fun _ => htrue.2, fun hno => absurd (fun _ => rfl) hno⟩
  | false =>
      by_cases hnil : (forget q d.listener).listeningQueues = []
      · rw [hnil] at htrue ⊢
        have hsame : updateListener false k ⟨none, []⟩ =
            updateListener true k ⟨none, []⟩ := rfl
        rw [hsame]
        exact ⟨htrue.1, fun _ => htrue.2,
          fun hno => absurd (fun hne => absurd rfl hne) hno⟩
      · obtain ⟨herr, hcons⟩ := update_without (k := k) hnil hsizes
        exact ⟨herr, fun hok => absurd (hok hnil) (by simp), fun _ => hcons⟩

/-- After a cleanup, the queues and a new one can be added exactly when the new
one is in no set. -/
theorem Tracked.addable_iff (h : Tracked d) {k : Kernel M} {q : Nat}
    (hcont : ∀ q, (k.queues q).container = if q ∈ queues d.listener then none
      else (d.kernel.queues q).container) :
    (queues d.listener ++ [q]).Nodup ∧
        (∀ p ∈ queues d.listener ++ [q], (k.queues p).container = none) ↔
      q ∉ queues d.listener ∧ (d.kernel.queues q).container = none := by
  rw [List.nodup_append_comm]
  simp only [List.singleton_append, List.nodup_cons, List.mem_append,
    List.mem_singleton]
  constructor
  · rintro ⟨⟨hq, -⟩, hall⟩
    have hnone := hall q (.inr rfl)
    rw [hcont, if_neg hq] at hnone
    exact ⟨hq, hnone⟩
  · rintro ⟨hq, hnone⟩
    refine ⟨⟨hq, h.nodup⟩, ?_⟩
    rintro p (hp | rfl)
    · exact free_after_cleanup hcont hp
    · rw [hcont, if_neg hq]
      exact hnone

/-- Attaching a queue that is in no set, with memory, keeps list and set in
step; anything else does not. -/
theorem Tracked.attach (h : Tracked d) (listen : Iface) {q size : Nat}
    {mem : Mem} (hsize : size ≠ 0) (hitem : mem.item = true) :
    (mem.set = true ∧ q ∉ queues d.listener ∧
        (d.kernel.queues q).container = none →
      (attach listen (some q) size mem d.kernel d.listener).err = ESP_OK ∧
        Tracked (attach listen (some q) size mem d.kernel d.listener)) ∧
    (¬(mem.set = true ∧ q ∉ queues d.listener ∧
        (d.kernel.queues q).container = none) →
      (attach listen (some q) size mem d.kernel d.listener).err = ESP_OK ∧
          ¬Consistent (attach listen (some q) size mem d.kernel d.listener) ∨
        (attach listen (some q) size mem d.kernel d.listener).err ≠ ESP_OK ∧
          (attach listen (some q) size mem d.kernel
            d.listener).listener.listeningQueues ≠
              d.listener.listeningQueues) := by
  obtain ⟨k, hclean, hnext, hcont⟩ := h.cleanup listen
  have hattach : EventMembership.attach listen (some q) size mem d.kernel
      d.listener = updateListener mem.set k
        ⟨none, d.listener.listeningQueues ++ [⟨q, size⟩]⟩ := by
    simp only [EventMembership.attach, if_neg hsize, hitem, hclean]
    rfl
  rw [hattach]
  have hne : d.listener.listeningQueues ++ [(⟨q, size⟩ : Item)] ≠ [] := by simp
  have hsizes : ∀ item ∈ d.listener.listeningQueues ++ [(⟨q, size⟩ : Item)],
      item.queueSize ≠ 0 := by
    intro item hmem
    rcases List.mem_append.1 hmem with hmem | hmem
    · exact h.sizes item hmem
    · rw [List.mem_singleton.1 hmem]
      exact hsize
  have hmap : (d.listener.listeningQueues ++ [(⟨q, size⟩ : Item)]).map
      Item.queue = queues d.listener ++ [q] := by simp [queues]
  have hfree := h.addable_iff (q := q) hcont
  rw [← hmap] at hfree
  cases hset : mem.set with
  | true =>
      constructor
      · rintro ⟨-, hok⟩
        obtain ⟨hnodup, hall⟩ := hfree.2 hok
        exact update_tracked hsizes hnodup hall
          (old_after_cleanup h hnext hcont)
      · intro hno
        right
        obtain ⟨herr, hlist⟩ := update_fails hne hsizes
          (fun hok => hno ⟨rfl, hfree.1 hok⟩)
        rw [herr, hlist]
        exact ⟨by decide, by simp⟩
  | false =>
      constructor
      · rintro ⟨hno, -⟩
        cases hno
      · exact fun _ => .inl (update_without hne hsizes)

theorem Tracked.congr {d' : Done M} (h : Tracked d)
    (hk : d'.kernel = d.kernel) (hl : d'.listener = d.listener) :
    Tracked d' := by
  obtain ⟨k, l, err⟩ := d
  obtain ⟨k', l', err'⟩ := d'
  obtain rfl : k' = k := hk
  obtain rfl : l' = l := hl
  exact ⟨h.nodup, h.sizes, h.member, h.empty, h.old, h.room⟩

/-- A call that changes nothing. -/
theorem Tracked.untouched {d' : Done M} (h : Tracked d)
    (hk : d'.kernel = d.kernel) (hl : d'.listener = d.listener) :
    Untouched g d d' := by
  refine ⟨by rw [hl], ?_, ?_⟩
  · intro q
    rw [Done.Member, Done.Member, hk, hl]
  · intro evt q alloc hq hsize _
    exact ((h.congr hk hl).remove_ok hq hsize alloc).1

/-- A call that is refused keeps the property, and should. -/
theorem Tracked.keeps_refused (h : Tracked d) {c : ListenerCall} {err : Int}
    (herr : err ≠ ESP_OK)
    (heq : callStep g d c = ⟨d.kernel, d.listener, err⟩) {ok : Prop}
    (hok : ok) : (Keeps g d c ↔ ok) ∧ (ok → Tracked (callStep g d c)) := by
  have hkeeps : Keeps g d c := by
    rw [Keeps, heq]
    exact ⟨fun hno => absurd hno herr, fun _ => h.untouched rfl rfl⟩
  have htracked : Tracked (callStep g d c) := by
    rw [heq]
    exact h.congr rfl rfl
  exact ⟨iff_of_true hkeeps hok, fun _ => htracked⟩

/-- A call that attaches a queue keeps the property exactly when it is
allowed to, and then keeps the invariant. -/
theorem Tracked.keeps_attach (h : Tracked d) {c : ListenerCall}
    {queue : Option Nat} {size : Nat} {mem : Mem}
    (hstep : callStep g d c =
      EventMembership.attach (g.evts g.listen) queue size mem d.kernel
        d.listener) :
    (Keeps g d c ↔ AttachOk d queue size mem) ∧
      (AttachOk d queue size mem → Tracked (callStep g d c)) := by
  cases queue with
  | none =>
      exact h.keeps_refused (by decide) hstep (by simp [AttachOk])
  | some q =>
      by_cases hsize : size = 0
      · have hrefused : callStep g d c =
            ⟨d.kernel, d.listener, ESP_ERR_INVALID_ARG⟩ := by
          rw [hstep, EventMembership.attach]
          exact if_pos hsize
        exact h.keeps_refused (by decide) hrefused
          fun _ _ hne => absurd hsize hne
      · cases hitem : mem.item with
        | false =>
            have hrefused : callStep g d c =
                ⟨d.kernel, d.listener, ESP_ERR_NO_MEM⟩ := by
              rw [hstep, EventMembership.attach]
              simp only [if_neg hsize, hitem, if_true]
            refine h.keeps_refused (by decide) hrefused ?_
            intro _ _ _ htrue
            rw [hitem] at htrue
            cases htrue
        | true =>
            obtain ⟨hgood, hbad⟩ :=
              h.attach (g.evts g.listen) (q := q) hsize hitem
            rw [← hstep] at hgood hbad
            have hiff : AttachOk d (some q) size mem ↔ mem.set = true ∧
                q ∉ queues d.listener ∧
                (d.kernel.queues q).container = none := by
              constructor
              · exact fun hok => hok q rfl hsize hitem
              · rintro hok p hp - -
                exact Option.some.inj hp ▸ hok
            rw [hiff]
            refine ⟨⟨?_, ?_⟩, fun hok => (hgood hok).2⟩
            · intro hkeeps
              by_contra hno
              rcases hbad hno with ⟨herr, hcons⟩ | ⟨herr, hlist⟩
              · exact hcons (hkeeps.1 herr)
              · exact hlist (hkeeps.2 herr).1
            · intro hok
              obtain ⟨herr, htracked⟩ := hgood hok
              exact ⟨fun _ => htracked.consistent, fun hno => absurd herr hno⟩

/-- Every call keeps the property exactly when it is allowed to. -/
theorem Tracked.keeps_iff (h : Tracked d) (c : ListenerCall) :
    (Keeps g d c ↔ CallOk g d c) ∧
      (CallOk g d c → Tracked (callStep g d c)) := by
  cases c with
  | setListener evt mem => exact h.keeps_attach rfl
  | setMsgListener evt mem => exact h.keeps_attach rfl
  | removeListener evt alloc =>
      cases hq : (g.evts evt).externalQueue with
      | none =>
          have hrefused : callStep g d (.removeListener evt alloc) =
              ⟨d.kernel, d.listener, ESP_ERR_INVALID_ARG⟩ := by
            simp only [callStep, removeListener, hq]
          exact h.keeps_refused (by decide) hrefused (by simp [CallOk, hq])
      | some q =>
          by_cases hsize : (g.evts evt).externalQueueSize = 0
          · have hrefused : callStep g d (.removeListener evt alloc) =
                ⟨d.kernel, d.listener, ESP_ERR_INVALID_ARG⟩ := by
              simp only [callStep, removeListener, hq, if_pos hsize]
            exact h.keeps_refused (by decide) hrefused
              fun _ _ hne => absurd hsize hne
          · obtain ⟨herr, hgood, hbad⟩ := h.remove_ok hq hsize alloc
            have hiff : CallOk g d (.removeListener evt alloc) ↔
                ((forget q d.listener).listeningQueues ≠ [] →
                  alloc = true) := by
              constructor
              · exact fun hok => hok q hq hsize
              · intro hok p hp _
                rw [hq] at hp
                exact Option.some.inj hp ▸ hok
            rw [hiff]
            refine ⟨⟨?_, ?_⟩, hgood⟩
            · intro hkeeps
              by_contra hno
              exact hbad hno (hkeeps.1 herr)
            · intro hok
              exact ⟨fun _ => (hgood hok).consistent,
                fun hno => absurd herr hno⟩

/-- **Set and list stay in step** over exactly the sequences of calls that
attach only queues which are in no set, and that get memory for their sets. -/
theorem membership_iff {d : Done M} (h : Starts d) (g : Setting)
    (calls : List ListenerCall) :
    (callMachine M g).Meets (Keeps g) d calls ↔
      (callMachine M g).Meets (CallOk g) d calls := by
  refine Machine.meets_congr (I := Tracked) ?_ ?_ (Tracked.start h) calls
  · exact fun d c hd => (hd.keeps_iff c).1
  · intro d c d' hd hok hstep
    exact Option.some.inj hstep ▸ (hd.keeps_iff c).2 hok

/-! ## Two sequences of calls -/

/-- Interface `n` has the internal queue `2 * n` and the external one
`2 * n + 1`; number 0 listens. -/
def numbered : Setting where
  evts n := ⟨some (2 * n), some (2 * n + 1), 5, 5, 5⟩
  listen := 0

/-- All queues are empty, and the listener has the set it asked for. -/
def idleListener : Done Unit :=
  ⟨EventIface.initKernel (fun _ => 5) 5 true, EventIface.initListener 5 true,
    ESP_OK⟩

theorem idleListener_starts : Starts idleListener :=
  ⟨rfl, fun _ _ _ => by simp [idleListener, EventIface.initKernel],
    fun _ _ => by simp [idleListener, EventIface.initKernel]⟩

/-- Two emitters come and one goes. -/
def twoEmitters : List ListenerCall :=
  [.setListener 1 ⟨true, true⟩, .setMsgListener 2 ⟨true, true⟩,
    .removeListener 1 true]

theorem membership_twoEmitters :
    (callMachine Unit numbered).Meets (Keeps numbered) idleListener
      twoEmitters := by
  have hrun : ((callMachine Unit numbered).runIf (CallOk numbered)
      idleListener twoEmitters).isSome = true := by
    decide +kernel
  obtain ⟨d, hd⟩ := Option.isSome_iff_exists.1 hrun
  exact (membership_iff idleListener_starts numbered twoEmitters).2
    (Machine.meets_of_runIf hd).2

/-- The same emitter is attached twice: the second call fails with the list
edited, and nothing can be removed any more. -/
theorem attached_twice : ∃ d d',
    (callMachine Unit numbered).run idleListener
      [.setListener 1 ⟨true, true⟩] = some d ∧
    callStep numbered d (.setListener 1 ⟨true, true⟩) = d' ∧
    d'.err = ESP_FAIL ∧ queues d'.listener = [3, 3] ∧
    (callStep numbered d' (.removeListener 1 true)).err = ESP_FAIL ∧
    ¬(callMachine Unit numbered).Meets (Keeps numbered) idleListener
      [.setListener 1 ⟨true, true⟩, .setListener 1 ⟨true, true⟩] := by
  refine ⟨_, _, rfl, rfl, by decide, by decide, by decide, ?_⟩
  rintro ⟨-, hrest⟩
  have hkeeps := (hrest _ rfl).1
  exact absurd (hkeeps.2 (by decide)).1 (by decide)

end EspAdf.Ports.EventMembership
