import EspAdf.Verified.Machine
import EspAdf.Verified.QueueSet

/-!
# `audio_event_iface.c`: emitters, a listener and its queue set

An event interface owns an internal and an external queue; a listener also
has a queue set over the external queues of the emitters attached to it.
`audio_event_iface_set_listener` and `audio_event_iface_remove_listener`
rebuild that set: discard everything, take every queue out of the old set,
delete it, edit `listening_queues`, create a new set, and add every queue
again.

None of these functions takes a lock, so each call is a program counter here
and one action is one call of the kernel: other tasks send, listen and
discard between any two of them.  One listener is modelled with any number of
emitters; `Iface` holds what `audio_event_iface_init` fixes, `Listener` what
changes later.  An emitter is the interface of an element, for which
`audio_element_init` asks for no queue set, so `audio_event_iface_discard` on
it drains its two queues.
-/

namespace EspAdf.Ports.EventIface

open EspAdf.Verified
open EspAdf.Verified.QueueSet

def ESP_OK : Int := 0
def ESP_FAIL : Int := -1
def ESP_ERR_NO_MEM : Int := 0x101
def ESP_ERR_INVALID_ARG : Int := 0x102

/-- The part of `struct audio_event_iface` that `audio_event_iface_init`
fixes; a queue that was not created is `none`. -/
structure Iface where
  internalQueue : Option Nat
  externalQueue : Option Nat
  internalQueueSize : Nat
  externalQueueSize : Nat
  queueSetSize : Nat
  deriving DecidableEq, Repr

/-- `audio_event_iface_item_t`. -/
structure Item where
  queue : Nat
  queueSize : Nat
  deriving DecidableEq, Repr

/-- The part of the listener that changes. -/
structure Listener where
  queueSet : Option Nat
  listeningQueues : List Item
  deriving DecidableEq, Repr

/-! ## Rebuilding the queue set -/

/-- What a rebuild does to `listening_queues`. -/
inductive Edit where
  /-- `audio_event_iface_set_listener(evt, listener)`. -/
  | setListener (evt : Nat)
  /-- `audio_event_iface_remove_listener(listener, evt)`. -/
  | removeListener (evt : Nat)
  deriving DecidableEq, Repr

def Edit.evt : Edit → Nat
  | .setListener evt => evt
  | .removeListener evt => evt

/-- Where a rebuild stands: the call of the kernel it makes next. -/
inductive RebuildPc where
  /-- `audio_event_iface_discard(listen)`: its external queue. -/
  | discardExternal
  | discardInternal
  /-- `xQueueSelectFromSet` of `audio_event_iface_read`. -/
  | discardSelect
  | discardReceive (queue : Nat)
  /-- `xQueueRemoveFromSet` for the head of what is left of the list. -/
  | removeFromSet (rest : List Item)
  | deleteSet
  | edit
  | createSet
  /-- `while (xQueueReceive(item->queue, ..))`, then the rest of the list. -/
  | drain (item : Item) (rest : List Item)
  | addToSet (item : Item) (rest : List Item)
  deriving DecidableEq, Repr

structure Rebuild where
  pc : RebuildPc
  edit : Edit
  deriving DecidableEq, Repr

/-- A rebuild goes on or returns. -/
inductive Outcome where
  | next (pc : RebuildPc)
  | done (err : Int)
  deriving DecidableEq, Repr

/-- The guard at the entry of both functions. -/
def editAllowed (evt : Iface) : Bool :=
  evt.externalQueue.isSome && evt.externalQueueSize != 0

/-- The change of `listening_queues` between cleanup and update. -/
def editList (evts : Nat → Iface) (e : Edit) (list : List Item) :
    List Item :=
  match e, (evts e.evt).externalQueue with
  | .setListener evt, some q => list ++ [⟨q, (evts evt).externalQueueSize⟩]
  | .removeListener _, some q => list.filter fun item => item.queue != q
  | _, none => list

/-- The head of the second loop of `audio_event_iface_update_listener`. -/
def Outcome.update : List Item → Outcome
  | [] => .done ESP_OK
  | item :: rest => .next (.drain item rest)

variable {M : Type*}

/-- The next action of a rebuild of the listener `listen`.  `alloc` says
whether `xQueueCreateSet` finds memory. -/
def rebuildNext (evts : Nat → Iface) (listen : Nat) (alloc : Bool)
    (k : Kernel M) (l : Listener) (e : Edit) :
    RebuildPc → Kernel M × Listener × Outcome
  | .discardExternal =>
      match (evts listen).externalQueue with
      | some q =>
          if (evts listen).externalQueueSize ≠ 0 then
            match k.receive q with
            | (k', some _) => (k', l, .next .discardExternal)
            | (k', none) => (k', l, .next .discardInternal)
          else (k, l, .next .discardInternal)
      | none => (k, l, .next .discardInternal)
  | .discardInternal =>
      match (evts listen).internalQueue with
      | some q =>
          if (evts listen).internalQueueSize ≠ 0 then
            match k.receive q with
            | (k', some _) => (k', l, .next .discardInternal)
            | (k', none) => (k', l, .next .discardSelect)
          else (k, l, .next .discardSelect)
      | none => (k, l, .next .discardSelect)
  | .discardSelect =>
      match l.queueSet with
      | some s =>
          if (evts listen).queueSetSize ≠ 0 then
            match k.select s with
            | (k', some q) => (k', l, .next (.discardReceive q))
            | (k', none) => (k', l, .next (.removeFromSet l.listeningQueues))
          else (k, l, .next (.removeFromSet l.listeningQueues))
      | none => (k, l, .next (.removeFromSet l.listeningQueues))
  | .discardReceive q =>
      match k.receive q with
      | (k', some _) => (k', l, .next .discardSelect)
      | (k', none) => (k', l, .next (.removeFromSet l.listeningQueues))
  | .removeFromSet [] => (k, l, .next .deleteSet)
  | .removeFromSet (item :: rest) =>
      match l.queueSet with
      | some s =>
          match k.removeFromSet item.queue s with
          | (k', true) => (k', l, .next (.removeFromSet rest))
          | (k', false) => (k', l, .done ESP_FAIL)
      | none => (k, l, .next (.removeFromSet rest))
  | .deleteSet =>
      match l.queueSet with
      | some s => (k.deleteSet s, { l with queueSet := none }, .next .edit)
      | none => (k, l, .next .edit)
  | .edit =>
      (k, { l with listeningQueues := editList evts e l.listeningQueues },
        .next .createSet)
  | .createSet =>
      let queueSize := (l.listeningQueues.map Item.queueSize).sum
      if queueSize ≠ 0 then
        if alloc then
          let (k', s) := k.createSet queueSize
          (k', { l with queueSet := some s }, .update l.listeningQueues)
        else (k, { l with queueSet := none }, .update l.listeningQueues)
      else (k, l, .update l.listeningQueues)
  | .drain item rest =>
      match k.receive item.queue with
      | (k', some _) => (k', l, .next (.drain item rest))
      | (k', none) => (k', l, .next (.addToSet item rest))
  | .addToSet item rest =>
      match l.queueSet with
      | some s =>
          match k.addToSet item.queue s with
          | (k', true) => (k', l, .update rest)
          | (k', false) => (k', l, .done ESP_FAIL)
      | none => (k, l, .update rest)

/-! ## The system -/

/-- The kernel, the listener, the handle an `audio_event_iface_listen` call
holds between its select and its receive, the rebuild in progress, what the
listen calls have returned (`none` for `ESP_FAIL`), and what the rebuilds
have. -/
structure Sys (M : Type*) where
  kernel : Kernel M
  listener : Listener
  held : Option Nat
  rebuild : Option Rebuild
  listened : List (Option M)
  returned : List Int

inductive Act (M : Type*) where
  /-- `audio_event_iface_sendout(evt, m)`. -/
  | sendout (evt : Nat) (m : M)
  /-- `xQueueSelectFromSet` of `audio_event_iface_listen`. -/
  | listenSelect
  /-- The `xQueueReceive` that follows. -/
  | listenReceive
  /-- One `xQueueReceive` of `audio_event_iface_discard(evt)`. -/
  | discardExternal (evt : Nat)
  | discardInternal (evt : Nat)
  /-- The call of a rebuild; `mem` says whether its `calloc` succeeds. -/
  | rebuildStart (e : Edit) (mem : Bool)
  | rebuildStep (alloc : Bool)
  deriving DecidableEq, Repr

/-- `xQueueReceive` on a queue that may not exist, as `discard` guards it. -/
def receiveIf (k : Kernel M) (queue : Option Nat) (size : Nat) : Kernel M :=
  match queue with
  | some q => if size ≠ 0 then (k.receive q).1 else k
  | none => k

def sysStep (evts : Nat → Iface) (listen : Nat) (s : Sys M) :
    Act M → Option (Sys M)
  | .sendout evt m =>
      match (evts evt).externalQueue with
      | some q => some { s with kernel := (s.kernel.send q m).1 }
      | none => some s
  | .listenSelect =>
      if s.held = none then
        match s.listener.queueSet with
        | some σ =>
            match s.kernel.select σ with
            | (k, some q) => some { s with kernel := k, held := some q }
            | (k, none) =>
                some { s with kernel := k, listened := s.listened ++ [none] }
        | none => some { s with listened := s.listened ++ [none] }
      else none
  | .listenReceive =>
      match s.held with
      | some q =>
          let (k, m) := s.kernel.receive q
          some { s with
            kernel := k, held := none, listened := s.listened ++ [m] }
      | none => none
  | .discardExternal evt =>
      let i := evts evt
      some { s with
        kernel := receiveIf s.kernel i.externalQueue i.externalQueueSize }
  | .discardInternal evt =>
      let i := evts evt
      some { s with
        kernel := receiveIf s.kernel i.internalQueue i.internalQueueSize }
  | .rebuildStart e mem =>
      if s.rebuild = none then
        if editAllowed (evts e.evt) then
          match e, mem with
          | .setListener _, false =>
              some { s with returned := s.returned ++ [ESP_ERR_NO_MEM] }
          | _, _ => some { s with rebuild := some ⟨.discardExternal, e⟩ }
        else some { s with returned := s.returned ++ [ESP_ERR_INVALID_ARG] }
      else none
  | .rebuildStep alloc =>
      match s.rebuild with
      | some r =>
          let (k, l, out) :=
            rebuildNext evts listen alloc s.kernel s.listener r.edit r.pc
          match out with
          | .next pc => some { s with
              kernel := k, listener := l, rebuild := some ⟨pc, r.edit⟩ }
          | .done err => some { s with
              kernel := k, listener := l, rebuild := none
              returned := s.returned ++ [err] }
      | none => none

def sysMachine (M : Type*) (evts : Nat → Iface) (listen : Nat) :
    Machine (Sys M) (Act M) := ⟨sysStep evts listen⟩

/-! ## The start -/

/-- The kernel after `audio_event_iface_init` of every interface: each queue
is empty, and the listener's own set, when it asks for one, is set 0.
`alloc` says whether that set finds memory. -/
def initKernel (caps : Nat → Nat) (queueSetSize : Nat) (alloc : Bool) :
    Kernel M where
  queues := fun q => ⟨caps q, [], none⟩
  sets := fun s =>
    if s = 0 ∧ queueSetSize ≠ 0 ∧ alloc then some ⟨queueSetSize, []⟩ else none
  nextSet := 1

/-- The listener after `audio_event_iface_init`. -/
def initListener (queueSetSize : Nat) (alloc : Bool) : Listener where
  queueSet := if queueSetSize ≠ 0 ∧ alloc then some 0 else none
  listeningQueues := []

def Sys.start (caps : Nat → Nat) (queueSetSize : Nat) (alloc : Bool) :
    Sys M where
  kernel := initKernel caps queueSetSize alloc
  listener := initListener queueSetSize alloc
  held := none
  rebuild := none
  listened := []
  returned := []

/-- How the interfaces are wired: no two share a queue, and each external
queue has the size of its interface. -/
structure Wired (evts : Nat → Iface) (caps : Nat → Nat) : Prop where
  external : ∀ e e' q, (evts e).externalQueue = some q →
    (evts e').externalQueue = some q → e = e'
  internal : ∀ e e' q, (evts e).externalQueue = some q →
    (evts e').internalQueue ≠ some q
  caps : ∀ e q, (evts e).externalQueue = some q →
    caps q = (evts e).externalQueueSize

end EspAdf.Ports.EventIface
