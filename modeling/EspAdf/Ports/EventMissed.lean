import EspAdf.Ports.EventIface

/-!
# When the queue set of a listener stays in step

`audio_event_iface_listen` selects a handle from the listener's queue set and
receives from the queue it names.  `NoMissedEvent` says that this always
works: every attached queue has one handle in the set for each of its
messages, the set never needs more than its capacity, and a listen finds a
message whenever an attached queue has one.

`audio_event_iface_discard` on an emitter, as `audio_element_run` calls it,
receives from the external queue directly and leaves the handles in the set;
the next listen then takes a stale handle and returns `ESP_FAIL`
(`event_missed`).

`no_missed_event` proves `NoMissedEvent` for every run of `Careful` steps and
shows that every direct discard of a message of an attached queue breaks it.
A rebuild of the set passes through states in which only some queues are
members; `Rebuilding` says what holds at each of its program points.
-/

namespace EspAdf.Ports.EventMissed

open EspAdf.Verified
open EspAdf.Verified.QueueSet
open EspAdf.Ports.EventIface

variable {M : Type*} {evts : Nat → Iface} {listen : Nat}

/-- `q` is in `listening_queues`. -/
def Attached (l : Listener) (q : Nat) : Prop :=
  q ∈ l.listeningQueues.map Item.queue

instance (l : Listener) (q : Nat) : Decidable (Attached l q) := by
  unfold Attached
  infer_instance

/-- All attached queues are empty. -/
def Quiet (k : Kernel M) (l : Listener) : Prop :=
  ∀ item ∈ l.listeningQueues, (k.queues item.queue).items.length = 0

instance (k : Kernel M) (l : Listener) : Decidable (Quiet k l) := by
  unfold Quiet
  infer_instance

/-- Other emitters are attached, each once. -/
def EachOnce (evts : Nat → Iface) (listen : Nat) (l : Listener) :
    Edit → Prop
  | .setListener evt =>
      evt ≠ listen ∧ ∀ q ∈ (evts evt).externalQueue, ¬Attached l q
  | .removeListener _ => True

instance (l : Listener) (e : Edit) :
    Decidable (EachOnce evts listen l e) := by
  cases e <;> unfold EachOnce <;> infer_instance

/-- The steps that keep the set in step: no discard of a message of an
attached queue; while the set is rebuilt nobody listens and no attached
emitter sends; a rebuild starts between listen calls, on a listener that was
given a queue set or whose queues are empty, and the new set finds memory. -/
def Careful (evts : Nat → Iface) (listen : Nat) (s : Sys M) : Act M → Prop
  | .sendout evt _ =>
      s.rebuild = none ∨
        ∀ q ∈ (evts evt).externalQueue, ¬Attached s.listener q
  | .listenSelect => s.rebuild = none
  | .listenReceive => True
  | .discardExternal evt =>
      ∀ q ∈ (evts evt).externalQueue, Attached s.listener q →
        (s.kernel.queues q).items.length = 0
  | .discardInternal _ => True
  | .rebuildStart e _ =>
      s.held = none ∧ EachOnce evts listen s.listener e ∧
        ((evts listen).queueSetSize ≠ 0 ∨ Quiet s.kernel s.listener)
  | .rebuildStep alloc => alloc = true

instance (s : Sys M) (a : Act M) : Decidable (Careful evts listen s a) := by
  cases a <;> unfold Careful <;> infer_instance

/-! ## The property -/

/-- The set has one handle per message of each attached queue, and room for
them. -/
def SetInStep (s : Sys M) : Prop :=
  ∀ item ∈ s.listener.listeningQueues, ∃ σ S,
    s.listener.queueSet = some σ ∧ s.kernel.sets σ = some S ∧
      S.entries.length ≤ S.cap ∧
      S.entries.count item.queue + heldCount s.held item.queue =
        (s.kernel.queues item.queue).items.length

/-- Some attached queue has a message. -/
def Waiting (s : Sys M) : Prop :=
  ∃ item ∈ s.listener.listeningQueues,
    (s.kernel.queues item.queue).items ≠ []

/-- The schedule makes a listen call return `ESP_OK` with the oldest message
of an attached queue. -/
def ListenGets (evts : Nat → Iface) (listen : Nat) (s : Sys M)
    (acts : List (Act M)) : Prop :=
  ∃ item ∈ s.listener.listeningQueues, ∃ m rest t,
    (s.kernel.queues item.queue).items = m :: rest ∧
      (sysMachine M evts listen).run s acts = some t ∧
      t.listened = s.listened ++ [some m]

/-- While no rebuild runs the set is in step; a listen call that starts when
a message waits gets one, and so does a call that has selected its queue,
whatever happens before its receive. -/
structure NoMissedEvent (evts : Nat → Iface) (listen : Nat) (s : Sys M) :
    Prop where
  inStep : s.rebuild = none → SetInStep s
  listens : s.rebuild = none → s.held = none → Waiting s →
    ListenGets evts listen s [.listenSelect, .listenReceive]
  receives : s.held ≠ none → ListenGets evts listen s [.listenReceive]

/-! ## The invariant -/

/-- What holds at every point, also inside a rebuild. -/
structure Base (evts : Nat → Iface) (listen : Nat) (k : Kernel M)
    (l : Listener) : Prop where
  nodup : (l.listeningQueues.map Item.queue).Nodup
  fromEvt : ∀ item ∈ l.listeningQueues, ∃ e, e ≠ listen ∧
    (evts e).externalQueue = some item.queue ∧
    item.queueSize = (evts e).externalQueueSize ∧ item.queueSize ≠ 0
  caps : ∀ e q, (evts e).externalQueue = some q →
    (k.queues q).cap = (evts e).externalQueueSize
  /-- Only attached queues are members, and only of the listener's set. -/
  owner : ∀ q σ, (k.queues q).container = some σ →
    l.queueSet = some σ ∧ Attached l q
  bounded : ∀ q, (k.queues q).items.length ≤ (k.queues q).cap

/-- Every attached queue is a member of a set in step. -/
structure Ready (k : Kernel M) (l : Listener) (held : Option Nat) : Prop where
  members : ∀ item ∈ l.listeningQueues,
    (k.queues item.queue).container = l.queueSet
  inStep : ∀ σ, l.queueSet = some σ → ∃ S, InStep k σ S held
  noSet : l.queueSet = none → l.listeningQueues = [] ∧ held = none

/-- No queue of the list is a member. -/
def Detached (k : Kernel M) (items : List Item) : Prop :=
  ∀ item ∈ items, (k.queues item.queue).container = none

/-- The new set exists, the queues of `added` are empty members of it, those
of `rest` are not members yet. -/
def Adding (k : Kernel M) (l : Listener) (added rest : List Item) : Prop :=
  l.listeningQueues = added ++ rest ∧ Detached k rest ∧
    ∃ σ, l.queueSet = some σ ∧
      k.sets σ = some ⟨(l.listeningQueues.map Item.queueSize).sum, []⟩ ∧
      ∀ item ∈ added, (k.queues item.queue).container = some σ ∧
        (k.queues item.queue).items.length = 0

/-- What holds at each point of a rebuild. -/
def Rebuilding (evts : Nat → Iface) (listen : Nat) (k : Kernel M)
    (l : Listener) (e : Edit) : RebuildPc → Prop
  | .discardReceive q =>
      Ready k l (some q) ∧ ((evts listen).queueSetSize = 0 → Quiet k l) ∧
        EachOnce evts listen l e
  | .removeFromSet rest =>
      Quiet k l ∧ EachOnce evts listen l e ∧
        ∃ removed, l.listeningQueues = removed ++ rest ∧
          Detached k removed ∧
          (∀ item ∈ rest, (k.queues item.queue).container = l.queueSet) ∧
          (l.queueSet = none → l.listeningQueues = [])
  | .deleteSet =>
      Detached k l.listeningQueues ∧ EachOnce evts listen l e
  | .edit =>
      l.queueSet = none ∧ Detached k l.listeningQueues ∧
        EachOnce evts listen l e
  | .createSet => l.queueSet = none ∧ Detached k l.listeningQueues
  | .drain item rest => ∃ added, Adding k l added (item :: rest)
  | .addToSet item rest =>
      (k.queues item.queue).items.length = 0 ∧
        ∃ added, Adding k l added (item :: rest)
  | _ =>
      Ready k l none ∧ ((evts listen).queueSetSize = 0 → Quiet k l) ∧
        EachOnce evts listen l e

/-- The invariant of the whole system. -/
structure Inv (evts : Nat → Iface) (listen : Nat) (s : Sys M) : Prop where
  base : Base evts listen s.kernel s.listener
  ready : s.rebuild = none → Ready s.kernel s.listener s.held
  rebuilding : ∀ r, s.rebuild = some r → s.held = none ∧
    editAllowed (evts r.edit.evt) = true ∧
    Rebuilding evts listen s.kernel s.listener r.edit r.pc

theorem Inv.start {caps : Nat → Nat} (hw : Wired evts caps) (alloc : Bool) :
    Inv evts listen
      (Sys.start caps (evts listen).queueSetSize alloc : Sys M) := by
  have hcont : ∀ q, ((initKernel caps (evts listen).queueSetSize alloc :
      Kernel M).queues q).container = none := fun _ => rfl
  refine ⟨?_, ?_, ?_⟩
  · exact
      { nodup := List.nodup_nil
        fromEvt := by
          intro item hitem
          cases hitem
        caps := hw.caps
        owner := by
          intro q σ h
          cases h
        bounded := fun q => Nat.zero_le _ }
  · intro _
    refine ⟨?_, ?_, ?_⟩
    · intro item hitem
      cases hitem
    · intro σ hσ
      simp only [Sys.start, initListener] at hσ
      split at hσ
      · rename_i hset
        obtain rfl := Option.some.inj hσ
        refine ⟨⟨(evts listen).queueSetSize, []⟩, ?_⟩
        exact
          { alive := by simp [Sys.start, initKernel, hset]
            count := by
              intro q hq
              cases hq
            member := by
              intro q hq
              cases hq
            heldMember := by
              intro q hq
              cases hq
            bounded := by
              intro q hq
              cases hq
            room := ⟨∅, by simp [Sys.start, hcont], by simp⟩ }
      · cases hσ
    · intro _
      exact ⟨rfl, rfl⟩
  · intro r hr
    cases hr

/-! ## Steps that leave the attached queues alone -/

/-- The kernels agree on the sets, on what is a member of what, and on the
messages of attached queues. -/
structure SameAttached (k k' : Kernel M) (l : Listener) : Prop where
  sets : k'.sets = k.sets
  container : ∀ q, (k'.queues q).container = (k.queues q).container
  cap : ∀ q, (k'.queues q).cap = (k.queues q).cap
  items : ∀ q, Attached l q → (k'.queues q).items = (k.queues q).items

variable {k k' : Kernel M} {l : Listener} {held : Option Nat}

theorem attached_of_mem {item : Item} (h : item ∈ l.listeningQueues) :
    Attached l item.queue := List.mem_map_of_mem h

theorem Base.congr (h : Base evts listen k l)
    (hcont : ∀ q, (k'.queues q).container = (k.queues q).container)
    (hcap : ∀ q, (k'.queues q).cap = (k.queues q).cap)
    (hbound : ∀ q, (k'.queues q).items.length ≤ (k'.queues q).cap) :
    Base evts listen k' l where
  nodup := h.nodup
  fromEvt := h.fromEvt
  caps := by
    intro e q hq
    rw [hcap]
    exact h.caps e q hq
  owner := by
    intro q σ hq
    rw [hcont] at hq
    exact h.owner q σ hq
  bounded := hbound

theorem Ready.frame (hb : Base evts listen k l) (h : Ready k l held)
    (hsame : SameAttached k k' l) : Ready k' l held where
  members := by
    intro item hitem
    rw [hsame.container]
    exact h.members item hitem
  inStep := by
    intro σ hσ
    obtain ⟨S, hS⟩ := h.inStep σ hσ
    refine ⟨S, hS.congr hsame.sets hsame.container hsame.cap ?_⟩
    intro q hq
    exact hsame.items q (hb.owner q σ hq).2
  noSet := h.noSet

theorem Quiet.frame (h : Quiet k l) (hsame : SameAttached k k' l) :
    Quiet k' l := by
  intro item hitem
  rw [hsame.items _ (attached_of_mem hitem)]
  exact h item hitem

theorem Detached.frame {items : List Item} (h : Detached k items)
    (hsame : SameAttached k k' l) : Detached k' items := by
  intro item hitem
  rw [hsame.container]
  exact h item hitem

theorem Adding.frame {added rest : List Item} (h : Adding k l added rest)
    (hsame : SameAttached k k' l) : Adding k' l added rest := by
  obtain ⟨hlist, hdet, σ, hσ, hset, hadded⟩ := h
  refine ⟨hlist, hdet.frame hsame, σ, hσ, by rw [hsame.sets]; exact hset, ?_⟩
  intro item hitem
  have hatt : Attached l item.queue :=
    attached_of_mem (by rw [hlist]; exact List.mem_append_left rest hitem)
  rw [hsame.container, hsame.items _ hatt]
  exact hadded item hitem

theorem Rebuilding.frame {e : Edit} {pc : RebuildPc}
    (hb : Base evts listen k l) (h : Rebuilding evts listen k l e pc)
    (hsame : SameAttached k k' l) : Rebuilding evts listen k' l e pc := by
  cases pc with
  | discardReceive q =>
      obtain ⟨hready, hquiet, honce⟩ := h
      exact ⟨hready.frame hb hsame, fun hz => (hquiet hz).frame hsame, honce⟩
  | removeFromSet rest =>
      obtain ⟨hquiet, honce, removed, hlist, hdet, hmem, hnone⟩ := h
      refine ⟨hquiet.frame hsame, honce, removed, hlist, hdet.frame hsame,
        ?_, hnone⟩
      intro item hitem
      rw [hsame.container]
      exact hmem item hitem
  | deleteSet => exact ⟨h.1.frame hsame, h.2⟩
  | edit => exact ⟨h.1, h.2.1.frame hsame, h.2.2⟩
  | createSet => exact ⟨h.1, h.2.frame hsame⟩
  | drain item rest =>
      obtain ⟨added, hadd⟩ := h
      exact ⟨added, hadd.frame hsame⟩
  | addToSet item rest =>
      obtain ⟨hempty, added, hadd⟩ := h
      have hatt : Attached l item.queue :=
        attached_of_mem (by rw [hadd.1]; simp)
      refine ⟨?_, added, hadd.frame hsame⟩
      rw [hsame.items _ hatt]
      exact hempty
  | _ =>
      obtain ⟨hready, hquiet, honce⟩ := h
      exact ⟨hready.frame hb hsame, fun hz => (hquiet hz).frame hsame, honce⟩

theorem Inv.frame {s : Sys M} {k' : Kernel M} (h : Inv evts listen s)
    (hsame : SameAttached s.kernel k' s.listener)
    (hbound : ∀ q, (k'.queues q).items.length ≤ (k'.queues q).cap) :
    Inv evts listen { s with kernel := k' } where
  base := h.base.congr hsame.container hsame.cap hbound
  ready := fun hr => (h.ready hr).frame h.base hsame
  rebuilding := by
    intro r hr
    obtain ⟨hheld, hallow, hreb⟩ := h.rebuilding r hr
    exact ⟨hheld, hallow, hreb.frame h.base hsame⟩

/-- A receive from an unattached or an empty queue is such a step. -/
theorem sameAttached_receive (q : Nat)
    (h : Attached l q → (k.queues q).items.length = 0) :
    SameAttached k (k.receive q).1 l where
  sets := Kernel.receive_sets k q
  container := fun p => Kernel.receive_container k q p
  cap := fun p => Kernel.receive_cap k q p
  items := by
    intro p hp
    by_cases hpq : p = q
    · subst hpq
      have hnil : (k.queues p).items = [] :=
        List.length_eq_zero_iff.mp (h hp)
      rw [Kernel.receive_of_nil hnil]
    · rw [Kernel.receive_queues_ne k hpq]

theorem receive_bounded (hb : ∀ q, (k.queues q).items.length ≤
    (k.queues q).cap) (p : Nat) :
    ∀ q, ((k.receive p).1.queues q).items.length ≤
      ((k.receive p).1.queues q).cap := by
  intro q
  have hq := hb q
  rw [Kernel.receive_cap]
  by_cases hqp : q = p
  · subst hqp
    cases hitems : (k.queues q).items with
    | nil =>
        rw [Kernel.receive_of_nil hitems]
        exact hq
    | cons m rest =>
        rw [hitems] at hq
        rw [Kernel.receive_of_cons hitems]
        simp at hq ⊢
        omega
  · rw [Kernel.receive_queues_ne k hqp]
    exact hq

theorem send_bounded (hb : ∀ q, (k.queues q).items.length ≤
    (k.queues q).cap) (p : Nat) (m : M) :
    ∀ q, ((k.send p m).1.queues q).items.length ≤
      ((k.send p m).1.queues q).cap := by
  intro q
  have hq := hb q
  rw [Kernel.send_cap]
  by_cases hqp : q = p
  · subst hqp
    unfold Kernel.send
    split
    · simp
      omega
    · exact hq
  · rw [Kernel.send_items_ne k m hqp]
    exact hq

/-- A send to an unattached queue is such a step. -/
theorem sameAttached_send (hb : Base evts listen k l) {q : Nat} (m : M)
    (h : ¬Attached l q) : SameAttached k (k.send q m).1 l where
  sets := by
    have hcont : (k.queues q).container = none := by
      cases hc : (k.queues q).container with
      | none => rfl
      | some σ => exact absurd (hb.owner q σ hc).2 h
    unfold Kernel.send
    split
    · rw [Kernel.post_of_not_member (by simpa using hcont)]
      rfl
    · rfl
  container := fun p => Kernel.send_container k q p m
  cap := fun p => Kernel.send_cap k q p m
  items := by
    intro p hp
    have hpq : p ≠ q := by
      rintro rfl
      exact h hp
    exact Kernel.send_items_ne k m hpq

/-! ## Steps on a set that is ready -/

theorem Base.send (hb : Base evts listen k l) (q : Nat) (m : M) :
    Base evts listen (k.send q m).1 l :=
  hb.congr (fun p => Kernel.send_container k q p m)
    (fun p => Kernel.send_cap k q p m) (send_bounded hb.bounded q m)

theorem Base.receive (hb : Base evts listen k l) (q : Nat) :
    Base evts listen (k.receive q).1 l :=
  hb.congr (fun p => Kernel.receive_container k q p)
    (fun p => Kernel.receive_cap k q p) (receive_bounded hb.bounded q)

theorem Base.select (hb : Base evts listen k l) (σ : Nat) :
    Base evts listen (k.select σ).1 l := by
  apply hb.congr <;> intro q <;> rw [Kernel.select_queues]
  exact hb.bounded q

theorem Ready.send (hb : Base evts listen k l) (h : Ready k l held)
    (q : Nat) (m : M) : Ready (k.send q m).1 l held where
  members := by
    intro item hitem
    rw [Kernel.send_container]
    exact h.members item hitem
  inStep := by
    intro σ hσ
    obtain ⟨S, hS⟩ := h.inStep σ hσ
    have hother : ∀ s', (k.queues q).container = some s' → s' = σ := by
      intro s' hs'
      exact Option.some.inj ((hb.owner q s' hs').1.symm.trans hσ)
    obtain ⟨S', hS', -⟩ := hS.send q m hother
    exact ⟨S', hS'⟩
  noSet := h.noSet

/-- A select on a ready set hands out an attached queue with a message, or
all attached queues are empty and nothing changes. -/
theorem Ready.select (hb : Base evts listen k l) (h : Ready k l none)
    {σ : Nat} (hσ : l.queueSet = some σ) :
    (∃ q, k.select σ = ((k.select σ).1, some q) ∧
      Ready (k.select σ).1 l (some q) ∧ Attached l q) ∨
    (k.select σ = (k, none) ∧ Quiet k l) := by
  obtain ⟨S, hS⟩ := h.inStep σ hσ
  cases hent : S.entries with
  | nil =>
      right
      refine ⟨by simp [Kernel.select, hS.alive, hent], ?_⟩
      intro item hitem
      have hmem : (k.queues item.queue).container = some σ :=
        (h.members item hitem).trans hσ
      rw [hS.items_eq_nil hent hmem]
      rfl
  | cons q rest =>
      left
      obtain ⟨heq, hin⟩ := hS.select hent
      refine ⟨q, by rw [heq], ?_, ?_⟩
      · exact
          { members := by
              intro item hitem
              rw [Kernel.select_queues]
              exact h.members item hitem
            inStep := by
              intro σ' hσ'
              obtain rfl := Option.some.inj (hσ.symm.trans hσ')
              exact ⟨_, hin⟩
            noSet := by
              intro hnone
              rw [hσ] at hnone
              cases hnone }
      · exact (hb.owner q σ (hS.member q (by rw [hent]; simp))).2

/-- The receive that follows gets the oldest message. -/
theorem Ready.receive {q : Nat} (hb : Base evts listen k l)
    (h : Ready k l (some q)) :
    ∃ m rest, (k.queues q).items = m :: rest ∧
      k.receive q = (k.setItems q rest, some m) ∧
      Ready (k.receive q).1 l none ∧ Attached l q := by
  cases hσ : l.queueSet with
  | none => exact absurd (h.noSet hσ).2 (by simp)
  | some σ =>
      obtain ⟨S, hS⟩ := h.inStep σ hσ
      obtain ⟨m, rest, hitems, heq, hin⟩ := hS.receive
      refine ⟨m, rest, hitems, heq, ?_,
        (hb.owner q σ (hS.heldMember q rfl)).2⟩
      exact
        { members := by
            intro item hitem
            rw [Kernel.receive_container]
            exact h.members item hitem
          inStep := by
            intro σ' hσ'
            obtain rfl := Option.some.inj (hσ.symm.trans hσ')
            rw [heq]
            exact ⟨S, hin⟩
          noSet := by
            intro hnone
            rw [hσ] at hnone
            cases hnone }

/-! ## Steps of a rebuild -/

/-- Where a rebuild goes on its point holds; when it returns the set is
ready. -/
def OutcomeHolds (evts : Nat → Iface) (listen : Nat) (k : Kernel M)
    (l : Listener) (e : Edit) : Outcome → Prop
  | .next pc => Rebuilding evts listen k l e pc
  | .done _ => Ready k l none

/-- One action at a point of a rebuild leads to a point that holds. -/
def StepHolds (evts : Nat → Iface) (listen : Nat) (k : Kernel M)
    (l : Listener) (e : Edit) (pc : RebuildPc) : Prop :=
  ∃ k' l' out, rebuildNext evts listen true k l e pc = (k', l', out) ∧
    Base evts listen k' l' ∧ OutcomeHolds evts listen k' l' e out

/-- The listener's own queues are not attached. -/
theorem not_attached_external {caps : Nat → Nat} (hw : Wired evts caps)
    (hb : Base evts listen k l) {q : Nat}
    (hq : (evts listen).externalQueue = some q) : ¬Attached l q := by
  intro hatt
  obtain ⟨item, hitem, rfl⟩ := List.mem_map.mp hatt
  obtain ⟨e, hne, hext, -, -⟩ := hb.fromEvt item hitem
  exact hne (hw.external e listen _ hext hq)

/-- No internal queue is attached. -/
theorem not_attached_internal {caps : Nat → Nat} (hw : Wired evts caps)
    (hb : Base evts listen k l) {e q : Nat}
    (hq : (evts e).internalQueue = some q) : ¬Attached l q := by
  intro hatt
  obtain ⟨item, hitem, rfl⟩ := List.mem_map.mp hatt
  obtain ⟨e', -, hext, -, -⟩ := hb.fromEvt item hitem
  exact hw.internal e' e _ hext hq

/-- A ready set whose queues are empty may be taken apart. -/
theorem Ready.removing {e : Edit} (h : Ready k l none) (hquiet : Quiet k l)
    (honce : EachOnce evts listen l e) :
    Rebuilding evts listen k l e (.removeFromSet l.listeningQueues) := by
  refine ⟨hquiet, honce, [], rfl, ?_, h.members, fun hn => (h.noSet hn).1⟩
  intro item hitem
  cases hitem

/-- All queues added: the new set is ready. -/
theorem Adding.ready (hb : Base evts listen k l) {added : List Item}
    (h : Adding k l added []) : Ready k l none := by
  obtain ⟨hlist, -, σ, hσ, hset, hadded⟩ := h
  rw [List.append_nil] at hlist
  rw [← hlist] at hadded
  have hempty : ∀ q, (k.queues q).container = some σ →
      (k.queues q).items.length = 0 := by
    intro q hq
    obtain ⟨item, hitem, rfl⟩ := List.mem_map.mp (hb.owner q σ hq).2
    exact (hadded item hitem).2
  refine ⟨?_, ?_, ?_⟩
  · intro item hitem
    rw [hσ]
    exact (hadded item hitem).1
  · intro σ' hσ'
    obtain rfl := Option.some.inj (hσ.symm.trans hσ')
    refine ⟨_, ⟨hset, ?_, ?_, ?_, ?_, ?_⟩⟩
    · intro q hq
      rw [hempty q hq]
      rfl
    · intro q hq
      cases hq
    · intro q hq
      cases hq
    · intro q _
      exact hb.bounded q
    · refine ⟨(l.listeningQueues.map Item.queue).toFinset, ?_, ?_⟩
      · intro q
        rw [List.mem_toFinset]
        constructor
        · intro hq
          obtain ⟨item, hitem, rfl⟩ := List.mem_map.mp hq
          exact (hadded item hitem).1
        · exact fun hq => (hb.owner q σ hq).2
      · rw [List.sum_toFinset _ hb.nodup, List.map_map]
        apply le_of_eq
        congr 1
        apply List.map_congr_left
        intro item hitem
        obtain ⟨e, -, hext, hsize, -⟩ := hb.fromEvt item hitem
        show (k.queues item.queue).cap = item.queueSize
        rw [hsize, hb.caps e _ hext]
  · intro hnone
    rw [hσ] at hnone
    cases hnone

/-- The second loop of `audio_event_iface_update_listener` goes on. -/
theorem Adding.update {e : Edit} (hb : Base evts listen k l)
    {added rest : List Item} (h : Adding k l added rest) :
    OutcomeHolds evts listen k l e (.update rest) := by
  cases rest with
  | nil => exact h.ready hb
  | cons item rest => exact ⟨added, h⟩

/-- The loops that drain the listener's own queues touch no attached
queue. -/
theorem rebuilding_receive {e : Edit} {q : Nat} (hb : Base evts listen k l)
    (hq : ¬Attached l q)
    (h : Ready k l none ∧ ((evts listen).queueSetSize = 0 → Quiet k l) ∧
      EachOnce evts listen l e) :
    Ready (k.receive q).1 l none ∧
      ((evts listen).queueSetSize = 0 → Quiet (k.receive q).1 l) ∧
      EachOnce evts listen l e := by
  have hsame : SameAttached k (k.receive q).1 l :=
    sameAttached_receive q fun hatt => absurd hatt hq
  obtain ⟨hready, hquiet, honce⟩ := h
  exact ⟨hready.frame hb hsame, fun hz => (hquiet hz).frame hsame, honce⟩

/-- A queue changes its membership: it leaves every set, or joins the
listener's while it is attached. -/
theorem Base.setContainer (hb : Base evts listen k l) {q : Nat}
    {c : Option Nat}
    (hc : ∀ σ, c = some σ → l.queueSet = some σ ∧ Attached l q) :
    Base evts listen (k.setContainer q c) l where
  nodup := hb.nodup
  fromEvt := hb.fromEvt
  caps := by
    intro e p hp
    rw [Kernel.setContainer_cap]
    exact hb.caps e p hp
  owner := by
    intro p σ hp
    by_cases hpq : p = q
    · subst hpq
      rw [Kernel.setContainer_container_self] at hp
      exact hc σ hp
    · rw [Kernel.setContainer_queues_ne k c hpq] at hp
      exact hb.owner p σ hp
  bounded := by
    intro p
    rw [Kernel.setContainer_cap, Kernel.setContainer_items]
    exact hb.bounded p

/-- The queues listed after an item are other queues. -/
theorem Base.queue_ne (hb : Base evts listen k l) {before rest : List Item}
    {item : Item} (hlist : l.listeningQueues = before ++ item :: rest) :
    ∀ p ∈ rest, p.queue ≠ item.queue := by
  have hnodup := hb.nodup
  rw [hlist, List.map_append, List.map_cons, List.nodup_append] at hnodup
  intro p hp heq
  have hnot := (List.nodup_cons.mp hnodup.2.1).1
  exact hnot (heq ▸ List.mem_map_of_mem hp)

/-- The next queue leaves the old set: it is a member and empty. -/
theorem removeFromSet_spec {e : Edit} {item : Item} {rest : List Item}
    {σ : Nat} (hb : Base evts listen k l) (hσ : l.queueSet = some σ)
    (h : Rebuilding evts listen k l e (.removeFromSet (item :: rest))) :
    k.removeFromSet item.queue σ =
        (k.setContainer item.queue none, true) ∧
      Base evts listen (k.setContainer item.queue none) l ∧
      Rebuilding evts listen (k.setContainer item.queue none) l e
        (.removeFromSet rest) := by
  obtain ⟨hquiet, honce, removed, hlist, hdet, hmem, hnone⟩ := h
  have hitem : item ∈ l.listeningQueues := by rw [hlist]; simp
  have hcont : (k.queues item.queue).container = some σ :=
    (hmem item List.mem_cons_self).trans hσ
  have hother : ∀ {p}, p ≠ item.queue →
      ((k.setContainer item.queue none).queues p) = k.queues p :=
    fun hp => Kernel.setContainer_queues_ne k none hp
  have hrest := hb.queue_ne hlist
  refine ⟨by simp [Kernel.removeFromSet, hcont, hquiet item hitem], ?_, ?_⟩
  · apply hb.setContainer
    intro σ' hσ'
    cases hσ'
  · refine ⟨?_, honce, removed ++ [item], by rw [hlist]; simp, ?_, ?_, hnone⟩
    · intro p hp
      rw [Kernel.setContainer_items]
      exact hquiet p hp
    · intro p hp
      by_cases hpi : p.queue = item.queue
      · rw [hpi]
        simp
      · rw [hother hpi]
        rcases List.mem_append.mp hp with hold | hnew
        · exact hdet p hold
        · obtain rfl := List.mem_singleton.mp hnew
          exact absurd rfl hpi
    · intro p hp
      rw [hother (hrest p hp)]
      exact hmem p (List.mem_cons_of_mem item hp)

/-- The next queue joins the new set: it is no member and empty. -/
theorem addToSet_spec {item : Item} {added rest : List Item}
    (hb : Base evts listen k l) (hempty :
      (k.queues item.queue).items.length = 0)
    (h : Adding k l added (item :: rest)) :
    ∃ σ, l.queueSet = some σ ∧
      k.addToSet item.queue σ =
        (k.setContainer item.queue (some σ), true) ∧
      Base evts listen (k.setContainer item.queue (some σ)) l ∧
      Adding (k.setContainer item.queue (some σ)) l (added ++ [item])
        rest := by
  obtain ⟨hlist, hdet, σ, hσ, hset, hadded⟩ := h
  have hitem : item ∈ l.listeningQueues := by rw [hlist]; simp
  have hcont := hdet item List.mem_cons_self
  have hother : ∀ {p}, p ≠ item.queue →
      ((k.setContainer item.queue (some σ)).queues p) = k.queues p :=
    fun hp => Kernel.setContainer_queues_ne k (some σ) hp
  have hrest := hb.queue_ne hlist
  refine ⟨σ, hσ, by simp [Kernel.addToSet, hcont, hempty], ?_, ?_⟩
  · apply hb.setContainer
    intro σ' hσ'
    exact ⟨hσ.trans hσ', attached_of_mem hitem⟩
  · refine ⟨by rw [hlist]; simp, ?_, σ, hσ, hset, ?_⟩
    · intro p hp
      rw [hother (hrest p hp)]
      exact hdet p (List.mem_cons_of_mem item hp)
    · intro p hp
      rw [Kernel.setContainer_items]
      rcases List.mem_append.mp hp with hold | hnew
      · refine ⟨?_, (hadded p hold).2⟩
        by_cases hpi : p.queue = item.queue
        · rw [hpi]
          simp
        · rw [hother hpi]
          exact (hadded p hold).1
      · obtain rfl := List.mem_singleton.mp hnew
        exact ⟨by simp, hempty⟩

/-- The edit of `listening_queues` keeps every emitter listed once. -/
theorem edit_spec {e : Edit} (hb : Base evts listen k l)
    (hallow : editAllowed (evts e.evt) = true)
    (h : Rebuilding evts listen k l e .edit) :
    Base evts listen k
        { l with listeningQueues := editList evts e l.listeningQueues } ∧
      Rebuilding evts listen k
        { l with listeningQueues := editList evts e l.listeningQueues } e
        .createSet := by
  obtain ⟨hset, hdet, honce⟩ := h
  have hown : ∀ q, (k.queues q).container = none := by
    intro q
    cases hc : (k.queues q).container with
    | none => rfl
    | some σ =>
        have := (hb.owner q σ hc).1
        rw [hset] at this
        cases this
  have hown' : ∀ q σ, (k.queues q).container ≠ some σ := by
    intro q σ
    rw [hown q]
    simp
  refine ⟨⟨?_, ?_, hb.caps, fun q σ hq => absurd hq (hown' q σ),
    hb.bounded⟩, hset, fun item _ => hown item.queue⟩
  · cases e with
    | setListener evt =>
        unfold editList Edit.evt
        cases hq : (evts evt).externalQueue with
        | none => exact hb.nodup
        | some q =>
            have hfresh : ¬Attached l q := honce.2 q (by rw [hq]; rfl)
            rw [List.map_append, List.nodup_append]
            refine ⟨hb.nodup, by simp, ?_⟩
            intro p hp p' hp' heq
            obtain rfl : p' = q := by simpa using hp'
            exact hfresh (heq ▸ hp)
    | removeListener evt =>
        unfold editList Edit.evt
        cases hq : (evts evt).externalQueue with
        | none => exact hb.nodup
        | some q => exact hb.nodup.sublist (List.filter_sublist.map _)
  · intro item hitem
    cases e with
    | setListener evt =>
        cases hq : (evts evt).externalQueue with
        | none =>
            simp only [editList, Edit.evt, hq] at hitem
            exact hb.fromEvt item hitem
        | some q =>
            simp only [editList, Edit.evt, hq] at hitem
            rcases List.mem_append.mp hitem with hold | hnew
            · exact hb.fromEvt item hold
            · obtain rfl := List.mem_singleton.mp hnew
              refine ⟨evt, honce.1, hq, rfl, ?_⟩
              simp [editAllowed, Edit.evt] at hallow
              exact hallow.2
    | removeListener evt =>
        cases hq : (evts evt).externalQueue with
        | none =>
            simp only [editList, Edit.evt, hq] at hitem
            exact hb.fromEvt item hitem
        | some q =>
            simp only [editList, Edit.evt, hq] at hitem
            exact hb.fromEvt item (List.mem_of_mem_filter hitem)

/-- The new set is as large as the attached queues together. -/
theorem createSet_spec {e : Edit} (hb : Base evts listen k l)
    (h : Rebuilding evts listen k l e .createSet) :
    ∃ k' l', rebuildNext evts listen true k l e .createSet =
        (k', l', .update l.listeningQueues) ∧
      Base evts listen k' l' ∧
      OutcomeHolds evts listen k' l' e (.update l.listeningQueues) := by
  obtain ⟨hset, hdet⟩ := h
  by_cases hsum : (l.listeningQueues.map Item.queueSize).sum = 0
  · -- A list of non-empty queues adds up to nothing only when it is empty.
    have hnil : l.listeningQueues = [] := by
      cases hl : l.listeningQueues with
      | nil => rfl
      | cons item rest =>
          obtain ⟨-, -, -, -, hpos⟩ := hb.fromEvt item (by rw [hl]; simp)
          rw [hl, List.map_cons, List.sum_cons] at hsum
          omega
    refine ⟨k, l, by simp [rebuildNext, hnil], hb, ?_⟩
    rw [hnil]
    refine ⟨?_, ?_, fun _ => ⟨hnil, rfl⟩⟩
    · intro item hitem
      rw [hnil] at hitem
      cases hitem
    · intro σ hσ
      rw [hset] at hσ
      cases hσ
  · have hnext : rebuildNext evts listen true k l e .createSet =
        ((k.createSet (l.listeningQueues.map Item.queueSize).sum).1,
          { l with queueSet := some k.nextSet },
          .update l.listeningQueues) := by
      simp [rebuildNext, hsum, Kernel.createSet]
    have hown : ∀ q σ, (k.queues q).container ≠ some σ := by
      intro q σ hq
      have hset' := (hb.owner q σ hq).1
      rw [hset] at hset'
      cases hset'
    have hb' : Base evts listen
        (k.createSet (l.listeningQueues.map Item.queueSize).sum).1
        { l with queueSet := some k.nextSet } :=
      ⟨hb.nodup, hb.fromEvt, hb.caps,
        fun q σ hq => absurd hq (hown q σ), hb.bounded⟩
    refine ⟨_, _, hnext, hb', ?_⟩
    have hadd : Adding
        (k.createSet (l.listeningQueues.map Item.queueSize).sum).1
        { l with queueSet := some k.nextSet } [] l.listeningQueues := by
      refine ⟨rfl, hdet, k.nextSet, rfl, by simp [Kernel.createSet], ?_⟩
      intro item hitem
      cases hitem
    exact hadd.update hb'

/-- A turn of the loop over the listener's external queue. -/
theorem discardExternal_spec {caps : Nat → Nat} (hw : Wired evts caps)
    {e : Edit} (hb : Base evts listen k l)
    (h : Rebuilding evts listen k l e .discardExternal) :
    StepHolds evts listen k l e .discardExternal := by
  unfold StepHolds rebuildNext
  cases hq : (evts listen).externalQueue with
  | none => exact ⟨k, l, _, rfl, hb, h⟩
  | some q =>
      have hrec := rebuilding_receive hb (not_attached_external hw hb hq) h
      by_cases hsize : (evts listen).externalQueueSize ≠ 0
      · simp only [if_pos hsize]
        split
        · rename_i k' m heq
          obtain rfl : (k.receive q).1 = k' := by rw [heq]
          exact ⟨_, l, _, rfl, hb.receive q, hrec⟩
        · rename_i k' heq
          obtain rfl : (k.receive q).1 = k' := by rw [heq]
          exact ⟨_, l, _, rfl, hb.receive q, hrec⟩
      · simp only [if_neg hsize]
        exact ⟨k, l, _, rfl, hb, h⟩

/-- A turn of the loop over its internal queue. -/
theorem discardInternal_spec {caps : Nat → Nat} (hw : Wired evts caps)
    {e : Edit} (hb : Base evts listen k l)
    (h : Rebuilding evts listen k l e .discardInternal) :
    StepHolds evts listen k l e .discardInternal := by
  unfold StepHolds rebuildNext
  cases hq : (evts listen).internalQueue with
  | none => exact ⟨k, l, _, rfl, hb, h⟩
  | some q =>
      have hrec := rebuilding_receive hb (not_attached_internal hw hb hq) h
      by_cases hsize : (evts listen).internalQueueSize ≠ 0
      · simp only [if_pos hsize]
        split
        · rename_i k' m heq
          obtain rfl : (k.receive q).1 = k' := by rw [heq]
          exact ⟨_, l, _, rfl, hb.receive q, hrec⟩
        · rename_i k' heq
          obtain rfl : (k.receive q).1 = k' := by rw [heq]
          exact ⟨_, l, _, rfl, hb.receive q, hrec⟩
      · simp only [if_neg hsize]
        exact ⟨k, l, _, rfl, hb, h⟩

/-- The loop over the set ends with every attached queue empty. -/
theorem discardSelect_spec {e : Edit} (hb : Base evts listen k l)
    (h : Rebuilding evts listen k l e .discardSelect) :
    StepHolds evts listen k l e .discardSelect := by
  obtain ⟨hready, hquiet, honce⟩ := h
  unfold StepHolds rebuildNext
  cases hσ : l.queueSet with
  | none =>
      have hquiet' : Quiet k l := by
        intro item hitem
        rw [(hready.noSet hσ).1] at hitem
        cases hitem
      exact ⟨k, l, _, rfl, hb, hready.removing hquiet' honce⟩
  | some σ =>
      by_cases hsize : (evts listen).queueSetSize ≠ 0
      · simp only [if_pos hsize]
        rcases hready.select hb hσ with ⟨q, heq, hready', -⟩ | ⟨heq, hq⟩
        · rw [heq]
          exact ⟨_, l, _, rfl, hb.select σ, hready',
            fun hz => absurd hz hsize, honce⟩
        · rw [heq]
          exact ⟨k, l, _, rfl, hb, hready.removing hq honce⟩
      · simp only [if_neg hsize]
        exact ⟨k, l, _, rfl, hb, hready.removing
          (hquiet (Decidable.not_not.mp hsize)) honce⟩

theorem discardReceive_spec {e : Edit} {q : Nat} (hb : Base evts listen k l)
    (h : Rebuilding evts listen k l e (.discardReceive q)) :
    StepHolds evts listen k l e (.discardReceive q) := by
  obtain ⟨hready, hquiet, honce⟩ := h
  obtain ⟨m, rest, hitems, heq, hready', hatt⟩ := hready.receive hb
  have hb' := hb.receive q
  rw [heq] at hready' hb'
  simp only [StepHolds, rebuildNext, heq]
  refine ⟨_, l, _, rfl, hb', hready', ?_, honce⟩
  intro hz
  -- A queue with a message contradicts a set that is never drained.
  obtain ⟨item, hitem, rfl⟩ := List.mem_map.mp hatt
  have hempty := hquiet hz item hitem
  rw [hitems] at hempty
  cases hempty

/-- The old set is deleted only after every queue has left it. -/
theorem deleteSet_spec {e : Edit} (hb : Base evts listen k l)
    (h : Rebuilding evts listen k l e .deleteSet) :
    StepHolds evts listen k l e .deleteSet := by
  obtain ⟨hdet, honce⟩ := h
  have hown : ∀ q σ, (k.queues q).container ≠ some σ := by
    intro q σ hq
    obtain ⟨item, hitem, rfl⟩ := List.mem_map.mp (hb.owner q σ hq).2
    rw [hdet item hitem] at hq
    cases hq
  unfold StepHolds rebuildNext
  cases hσ : l.queueSet with
  | none => exact ⟨k, l, _, rfl, hb, hσ, hdet, honce⟩
  | some σ =>
      refine ⟨k.deleteSet σ, { l with queueSet := none }, _, rfl, ?_, rfl,
        hdet, ?_⟩
      · exact ⟨hb.nodup, hb.fromEvt, hb.caps,
          fun q σ' hq => absurd hq (hown q σ'), hb.bounded⟩
      · cases e <;> exact honce

/-- Draining the next queue touches no queue that was added before it. -/
theorem drain_spec {e : Edit} {item : Item} {rest : List Item}
    (hb : Base evts listen k l)
    (h : Rebuilding evts listen k l e (.drain item rest)) :
    StepHolds evts listen k l e (.drain item rest) := by
  obtain ⟨added, hadd⟩ := h
  simp only [StepHolds, rebuildNext]
  cases hitems : (k.queues item.queue).items with
  | nil =>
      rw [Kernel.receive_of_nil hitems]
      exact ⟨k, l, _, rfl, hb, by simp [hitems], added, hadd⟩
  | cons m more =>
      have hb' := hb.receive item.queue
      rw [Kernel.receive_of_cons hitems] at hb' ⊢
      refine ⟨_, l, _, rfl, hb', added, ?_⟩
      obtain ⟨hlist, hdet, σ, hσ, hset, hadded⟩ := hadd
      refine ⟨hlist, ?_, σ, hσ, hset, ?_⟩
      · intro p hp
        rw [Kernel.setItems_container]
        exact hdet p hp
      · intro p hp
        have hne : p.queue ≠ item.queue := by
          intro heq
          have hmem := (hadded p hp).1
          rw [heq, hdet item List.mem_cons_self] at hmem
          cases hmem
        rw [Kernel.setItems_queues_ne k more hne]
        exact hadded p hp

/-- **One action of a rebuild** leads to the next point of the rebuild, or
returns with the set ready. -/
theorem rebuild_step {caps : Nat → Nat} (hw : Wired evts caps)
    (hb : Base evts listen k l) {e : Edit} {pc : RebuildPc}
    (hallow : editAllowed (evts e.evt) = true)
    (h : Rebuilding evts listen k l e pc) :
    StepHolds evts listen k l e pc := by
  cases pc with
  | discardExternal => exact discardExternal_spec hw hb h
  | discardInternal => exact discardInternal_spec hw hb h
  | discardSelect => exact discardSelect_spec hb h
  | discardReceive q => exact discardReceive_spec hb h
  | removeFromSet rest =>
      cases rest with
      | nil =>
          obtain ⟨-, honce, removed, hlist, hdet, -⟩ := h
          rw [List.append_nil] at hlist
          exact ⟨k, l, _, rfl, hb, by rw [hlist]; exact hdet, honce⟩
      | cons item rest =>
          cases hσ : l.queueSet with
          | none =>
              obtain ⟨-, -, removed, hlist, -, -, hnone⟩ := h
              rw [hnone hσ] at hlist
              simp at hlist
          | some σ =>
              obtain ⟨heq, hb', h'⟩ := removeFromSet_spec hb hσ h
              simp only [StepHolds, rebuildNext, hσ, heq]
              exact ⟨_, l, _, rfl, hb', h'⟩
  | deleteSet => exact deleteSet_spec hb h
  | edit =>
      obtain ⟨hb', h'⟩ := edit_spec hb hallow h
      exact ⟨k, _, _, rfl, hb', h'⟩
  | createSet =>
      obtain ⟨k', l', heq, hb', h'⟩ := createSet_spec hb h
      exact ⟨k', l', _, heq, hb', h'⟩
  | drain item rest => exact drain_spec hb h
  | addToSet item rest =>
      obtain ⟨hempty, added, hadd⟩ := h
      obtain ⟨σ, hσ, heq, hb', hadd'⟩ := addToSet_spec hb hempty hadd
      simp only [StepHolds, rebuildNext, hσ, heq]
      exact ⟨_, l, _, rfl, hb', hadd'.update hb'⟩

/-! ## One action of the system -/

theorem receiveIf_eq (k : Kernel M) (queue : Option Nat) (size : Nat) :
    receiveIf k queue size = k ∨
      ∃ q, queue = some q ∧ receiveIf k queue size = (k.receive q).1 := by
  unfold receiveIf
  cases queue with
  | none => exact .inl rfl
  | some q =>
      by_cases hsize : size ≠ 0
      · exact .inr ⟨q, rfl, if_pos hsize⟩
      · exact .inl (if_neg hsize)

theorem Inv.sendout {s t : Sys M} {evt : Nat} {m : M}
    (h : Inv evts listen s) (hok : Careful evts listen s (.sendout evt m))
    (hs : sysStep evts listen s (.sendout evt m) = some t) :
    Inv evts listen t := by
  simp only [sysStep] at hs
  cases hq : (evts evt).externalQueue with
  | none =>
      rw [hq] at hs
      obtain rfl := Option.some.inj hs
      exact h
  | some q =>
      rw [hq] at hs
      obtain rfl := Option.some.inj hs
      rcases hok with hidle | hout
      · exact
          { base := h.base.send q m
            ready := fun hr => (h.ready hr).send h.base q m
            rebuilding := by
              intro r hr
              rw [hidle] at hr
              cases hr }
      · exact h.frame
          (sameAttached_send h.base m (hout q (by rw [hq]; rfl)))
          (send_bounded h.base.bounded q m)

theorem Inv.listenSelect {s t : Sys M} (h : Inv evts listen s)
    (hidle : s.rebuild = none)
    (hs : sysStep evts listen s .listenSelect = some t) :
    Inv evts listen t := by
  have hready := h.ready hidle
  have hnot : ∀ r, s.rebuild = some r → False := by
    intro r hr
    rw [hidle] at hr
    cases hr
  simp only [sysStep, Option.ite_none_right_eq_some] at hs
  obtain ⟨hheld, hs⟩ := hs
  rw [hheld] at hready
  cases hσ : s.listener.queueSet with
  | none =>
      rw [hσ] at hs
      obtain rfl := Option.some.inj hs
      exact ⟨h.base, h.ready, h.rebuilding⟩
  | some σ =>
      simp only [hσ] at hs
      rcases hready.select h.base hσ with ⟨q, heq, hready', -⟩ | ⟨heq, -⟩
      · rw [heq] at hs
        obtain rfl := Option.some.inj hs
        exact ⟨h.base.select σ, fun _ => hready',
          fun r hr => (hnot r hr).elim⟩
      · rw [heq] at hs
        obtain rfl := Option.some.inj hs
        exact ⟨h.base, h.ready, h.rebuilding⟩

/-- A handle is held only outside a rebuild. -/
theorem Inv.listenReceive {s t : Sys M} (h : Inv evts listen s)
    (hs : sysStep evts listen s .listenReceive = some t) :
    Inv evts listen t := by
  simp only [sysStep] at hs
  cases hheld : s.held with
  | none =>
      rw [hheld] at hs
      cases hs
  | some q =>
      rw [hheld] at hs
      have hidle : s.rebuild = none := by
        cases hr : s.rebuild with
        | none => rfl
        | some r =>
            have hnone := (h.rebuilding r hr).1
            rw [hheld] at hnone
            cases hnone
      have hready := h.ready hidle
      rw [hheld] at hready
      obtain ⟨m, rest, -, heq, hready', -⟩ := hready.receive h.base
      obtain rfl := Option.some.inj hs
      refine ⟨h.base.receive q, fun _ => hready', ?_⟩
      intro r hr
      have hr' : s.rebuild = some r := hr
      rw [hidle] at hr'
      cases hr'

/-- Discarding a queue that is not attached, or is empty. -/
theorem Inv.discard {s : Sys M} {queue : Option Nat} (size : Nat)
    (h : Inv evts listen s)
    (hquiet : ∀ q ∈ queue, Attached s.listener q →
      (s.kernel.queues q).items.length = 0) :
    Inv evts listen { s with kernel := receiveIf s.kernel queue size } := by
  rcases receiveIf_eq s.kernel queue size with heq | ⟨q, hq, heq⟩
  · rw [heq]
    exact h
  · rw [heq]
    exact h.frame (sameAttached_receive q (hquiet q hq))
      (receive_bounded h.base.bounded q)

theorem Inv.rebuildStart {s t : Sys M} {e : Edit} {mem : Bool}
    (h : Inv evts listen s)
    (hok : Careful evts listen s (.rebuildStart e mem))
    (hs : sysStep evts listen s (.rebuildStart e mem) = some t) :
    Inv evts listen t := by
  obtain ⟨hheld, honce, hquiet⟩ := hok
  simp only [sysStep, Option.ite_none_right_eq_some] at hs
  obtain ⟨hidle, hs⟩ := hs
  have hready := h.ready hidle
  rw [hheld] at hready
  by_cases hallow : editAllowed (evts e.evt) = true
  · rw [if_pos hallow] at hs
    have hgo : Inv evts listen
        { s with rebuild := some ⟨.discardExternal, e⟩ } := by
      refine ⟨h.base, (fun hr => by cases hr), ?_⟩
      intro r hr
      obtain rfl := Option.some.inj hr
      exact ⟨hheld, hallow, hready,
        fun hz => hquiet.resolve_left fun hne => hne hz, honce⟩
    split at hs
    · obtain rfl := Option.some.inj hs
      exact ⟨h.base, h.ready, h.rebuilding⟩
    · obtain rfl := Option.some.inj hs
      exact hgo
  · rw [if_neg hallow] at hs
    obtain rfl := Option.some.inj hs
    exact ⟨h.base, h.ready, h.rebuilding⟩

theorem Inv.rebuildStep {caps : Nat → Nat} (hw : Wired evts caps)
    {s t : Sys M} (h : Inv evts listen s)
    (hs : sysStep evts listen s (.rebuildStep true) = some t) :
    Inv evts listen t := by
  simp only [sysStep] at hs
  cases hr : s.rebuild with
  | none =>
      rw [hr] at hs
      cases hs
  | some r =>
      simp only [hr] at hs
      obtain ⟨hheld, hallow, hreb⟩ := h.rebuilding r hr
      obtain ⟨k', l', out, heq, hb', hout⟩ :=
        rebuild_step hw h.base hallow hreb
      rw [heq] at hs
      cases out with
      | next pc =>
          obtain rfl := Option.some.inj hs
          refine ⟨hb', (fun hr => by cases hr), ?_⟩
          intro r' hr'
          obtain rfl := Option.some.inj hr'
          exact ⟨hheld, hallow, hout⟩
      | done err =>
          obtain rfl := Option.some.inj hs
          refine ⟨hb', ?_, fun r' hr' => by cases hr'⟩
          intro _
          show Ready k' l' s.held
          rw [hheld]
          exact hout

/-- **One careful action** keeps the invariant. -/
theorem Inv.step {caps : Nat → Nat} (hw : Wired evts caps) {s t : Sys M}
    {a : Act M} (h : Inv evts listen s) (hok : Careful evts listen s a)
    (hs : sysStep evts listen s a = some t) : Inv evts listen t := by
  cases a with
  | sendout evt m => exact h.sendout hok hs
  | listenSelect => exact h.listenSelect hok hs
  | listenReceive => exact h.listenReceive hs
  | discardExternal evt =>
      obtain rfl := Option.some.inj hs
      exact h.discard _ hok
  | discardInternal evt =>
      obtain rfl := Option.some.inj hs
      refine h.discard _ ?_
      intro q hq hatt
      exact absurd hatt (not_attached_internal hw h.base hq)
  | rebuildStart e mem => exact h.rebuildStart hok hs
  | rebuildStep alloc =>
      obtain rfl : alloc = true := hok
      exact h.rebuildStep hw hs

/-! ## The results -/

/-- The receive of a listen call gets the oldest message of its queue. -/
theorem Inv.receives {s : Sys M} (h : Inv evts listen s)
    (hheld : s.held ≠ none) :
    ListenGets evts listen s [.listenReceive] := by
  obtain ⟨q, hq⟩ := Option.ne_none_iff_exists'.mp hheld
  have hidle : s.rebuild = none := by
    cases hr : s.rebuild with
    | none => rfl
    | some r => exact absurd (h.rebuilding r hr).1 hheld
  have hready := h.ready hidle
  rw [hq] at hready
  obtain ⟨m, rest, hitems, heq, -, hatt⟩ := hready.receive h.base
  obtain ⟨item, hitem, rfl⟩ := List.mem_map.mp hatt
  refine ⟨item, hitem, m, rest, { s with
    kernel := s.kernel.setItems item.queue rest, held := none
    listened := s.listened ++ [some m] }, hitems, ?_, rfl⟩
  show (sysStep evts listen s .listenReceive).bind _ = _
  simp only [sysStep, hq, heq]
  rfl

theorem Inv.listens {s : Sys M} (h : Inv evts listen s)
    (hidle : s.rebuild = none) (hheld : s.held = none) (hwait : Waiting s) :
    ListenGets evts listen s [.listenSelect, .listenReceive] := by
  have hready := h.ready hidle
  rw [hheld] at hready
  obtain ⟨item, hitem, hmsg⟩ := hwait
  cases hσ : s.listener.queueSet with
  | none =>
      rw [(hready.noSet hσ).1] at hitem
      cases hitem
  | some σ =>
      rcases hready.select h.base hσ with ⟨q, heq, hready', hatt⟩ | ⟨-, hq⟩
      · obtain ⟨m, rest, hitems, hrec, -, -⟩ :=
          hready'.receive (h.base.select σ)
        rw [Kernel.select_queues] at hitems
        obtain ⟨item', hitem', rfl⟩ := List.mem_map.mp hatt
        refine ⟨item', hitem', m, rest, { s with
          kernel := (s.kernel.select σ).1.setItems item'.queue rest
          held := none, listened := s.listened ++ [some m] },
          hitems, ?_, rfl⟩
        have hselect : sysStep evts listen s .listenSelect = some { s with
            kernel := (s.kernel.select σ).1, held := some item'.queue } := by
          simp only [sysStep, hheld, hσ, if_true]
          rw [heq]
        rw [Machine.run_cons, show (sysMachine M evts listen).step s
          .listenSelect = _ from hselect, Option.bind_some]
        simp only [Machine.run, sysMachine, sysStep, hrec, Option.bind_some]
      · exact absurd (List.length_eq_zero_iff.mp (hq item hitem)) hmsg

theorem Inv.setInStep {s : Sys M} (h : Inv evts listen s)
    (hidle : s.rebuild = none) : SetInStep s := by
  intro item hitem
  have hready := h.ready hidle
  cases hσ : s.listener.queueSet with
  | none =>
      rw [(hready.noSet hσ).1] at hitem
      cases hitem
  | some σ =>
      obtain ⟨S, hS⟩ := hready.inStep σ hσ
      exact ⟨σ, S, rfl, hS.alive, hS.entries_le,
        hS.count _ ((hready.members item hitem).trans hσ)⟩

theorem Inv.noMissedEvent {s : Sys M} (h : Inv evts listen s) :
    NoMissedEvent evts listen s where
  inStep := h.setInStep
  listens := h.listens
  receives := h.receives

/-- A discard of a message of an attached queue leaves a handle too many. -/
theorem Inv.discard_breaks {s t : Sys M} (h : Inv evts listen s)
    (hidle : s.rebuild = none) (hheld : s.held = none) {evt q : Nat}
    (hq : (evts evt).externalQueue = some q)
    (hsize : (evts evt).externalQueueSize ≠ 0)
    (hatt : Attached s.listener q) (hmsg : (s.kernel.queues q).items ≠ [])
    (hs : sysStep evts listen s (.discardExternal evt) = some t) :
    ¬SetInStep t := by
  obtain rfl := Option.some.inj hs
  obtain ⟨item, hitem, rfl⟩ := List.mem_map.mp hatt
  have hready := h.ready hidle
  rw [hheld] at hready
  intro hin
  obtain ⟨σ, S, hσ, hset, -, hcount⟩ := hin item hitem
  have hσ' : s.listener.queueSet = some σ := hσ
  obtain ⟨S', hS'⟩ := hready.inStep σ hσ'
  obtain ⟨hset', hcount'⟩ :=
    hS'.receive_direct ((hready.members item hitem).trans hσ') hmsg
  have hker : receiveIf s.kernel (evts evt).externalQueue
      (evts evt).externalQueueSize = (s.kernel.receive item.queue).1 := by
    rw [hq]
    exact if_pos hsize
  simp only [hker, hheld] at hset hcount
  obtain rfl := Option.some.inj (hset.symm.trans hset')
  simp only [heldCount] at hcount
  omega

/-- **No missed event** in any run of careful steps from the initialised
interfaces; and in every state of such a run, a discard of a message of an
attached queue puts the set out of step. -/
theorem no_missed_event {caps : Nat → Nat} (hw : Wired evts caps)
    (alloc : Bool) {s : Sys M}
    (hrun : (sysMachine M evts listen).Reaches (Careful evts listen)
      (.start caps (evts listen).queueSetSize alloc) s) :
    NoMissedEvent evts listen s ∧
    (∀ evt q t, s.rebuild = none → s.held = none →
      (evts evt).externalQueue = some q →
      (evts evt).externalQueueSize ≠ 0 → Attached s.listener q →
      (s.kernel.queues q).items ≠ [] →
      sysStep evts listen s (.discardExternal evt) = some t →
      ¬SetInStep t) := by
  have hinv : Inv evts listen s :=
    hrun.invariant (Inv.start hw alloc) fun u a v hu hok hs =>
      hu.step hw hok hs
  exact ⟨hinv.noMissedEvent, fun evt q t hidle hheld hq hsize hatt hmsg hs =>
    hinv.discard_breaks hidle hheld hq hsize hatt hmsg hs⟩

/-- A listener (interface 0) and the interfaces of elements: interface `e`
has the external queue `2 e` and the internal queue `2 e + 1`. -/
def element (e : Nat) : Iface where
  internalQueue := some (2 * e + 1)
  externalQueue := some (2 * e)
  internalQueueSize := 5
  externalQueueSize := 5
  queueSetSize := if e = 0 then 5 else 0

theorem element_wired : Wired element fun _ => 5 where
  external := by
    intro e e' q h h'
    simp only [element, Option.some.injEq] at h h'
    omega
  internal := by
    intro e e' q h h'
    simp only [element, Option.some.injEq] at h h'
    omega
  caps := fun _ _ _ => rfl

/-- Attach the elements 1 and 2. -/
def attachTwo : List (Act Nat) :=
  [.rebuildStart (.setListener 1) true] ++
    List.replicate 9 (.rebuildStep true) ++
    [.rebuildStart (.setListener 2) true] ++
    List.replicate 12 (.rebuildStep true)

/-- Both elements send; a third one, not attached, is discarded; both
messages are heard. -/
def heardTwo : List (Act Nat) :=
  attachTwo ++ [.sendout 1 10, .sendout 2 20, .sendout 3 30,
    .discardExternal 3, .listenSelect, .listenReceive]

theorem no_missed_event_heardTwo :
    ∃ s, (sysMachine Nat element 0).runIf (Careful element 0)
        (.start (fun _ => 5) 5 true) heardTwo = some s ∧
      s.returned = [ESP_OK, ESP_OK] ∧ s.listened = [some 10] ∧
      ListenGets element 0 s [.listenSelect, .listenReceive] :=
  ⟨_, rfl, rfl, rfl,
    (no_missed_event element_wired true
      (Machine.reaches_of_runIf (show (sysMachine Nat element 0).runIf
        (Careful element 0) (.start (fun _ => 5) 5 true) heardTwo = some _
        by rfl))).1.listens rfl rfl
      ⟨⟨4, 5⟩, by decide, by decide⟩⟩

/-- **An event is missed.**  Both elements are attached; element 1 sends and
is then started, which discards its message; element 2 sends.  The next
listen returns `ESP_FAIL` although the message of element 2 is waiting. -/
theorem event_missed :
    ∃ (acts : List (Act Nat)) (s t : Sys Nat),
      (sysMachine Nat element 0).run (.start (fun _ => 5) 5 true)
        (attachTwo ++ acts) = some s ∧
      acts = [.sendout 1 10, .discardExternal 1, .sendout 2 20] ∧
      s.rebuild = none ∧ s.held = none ∧ Waiting s ∧
      (sysMachine Nat element 0).run s [.listenSelect, .listenReceive] =
        some t ∧
      t.listened = s.listened ++ [none] :=
  ⟨_, _, _, rfl, rfl, rfl, rfl, ⟨⟨4, 5⟩, by decide, by decide⟩, rfl, rfl⟩

end EspAdf.Ports.EventMissed
