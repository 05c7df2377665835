import EspAdf.Ports.AudioPipeline
import EspAdf.Ports.EventMembership

/-!
# Does `audio_pipeline_remove_listener` detach everything?

`audio_pipeline_set_listener` attaches the external queue of every linked
element to the listener, and `audio_pipeline_remove_listener` detaches those
of the elements that are linked when it is called.  What was attached is not
recorded: an element that was unregistered or broken out of the pipeline in
between keeps its queue in the listener, and the call returns `ESP_OK`.

The pipeline is that of `AudioPipeline`, each event interface that of
`EventMembership`.  `audio_pipeline_unlink` removes the listener of a linked
pipeline first, and `audio_pipeline_link` and `_link_more` unlink it.

`removal_complete_iff` proves that a removal is complete exactly when every
attached element is still linked.
-/

namespace EspAdf.Ports.PipelineListener

open EspAdf.Verified
open EspAdf.Verified.QueueSet (Kernel)
open EspAdf.Ports.AudioPipeline hiding Mem
open EspAdf.Ports.EventIface (Iface Item Listener)
open EspAdf.Ports.EventMembership (Done Mem queues forget)

variable {M : Type*}

/-! ## The system -/

/-- The event interfaces of the elements and those that listen. -/
structure Wiring where
  el : ElHandle → Iface
  listen : Nat → Iface

/-- No two elements share an external queue. -/
def Wiring.Distinct (w : Wiring) : Prop :=
  ∀ e e' q, (w.el e).externalQueue = some q →
    (w.el e').externalQueue = some q → e = e'

structure Sys (M : Type*) where
  p : Pipeline
  kernel : Kernel M
  /-- The listeners, by their handles. -/
  listeners : Nat → Listener
  /-- `pipeline->listener`. -/
  listener : Option Nat
  /-- History: the elements that `audio_pipeline_set_listener` called
  `audio_element_msg_set_listener` for, and with which listener. -/
  attached : List (ElHandle × Nat)

/-- A call on the listener `h` has returned. -/
def Sys.update (s : Sys M) (h : Nat) (d : Done M) : Sys M :=
  { s with
    kernel := d.kernel
    listeners := Function.update s.listeners h d.listener }

/-- `audio_element_msg_set_listener`. -/
def msgSetListener (w : Wiring) (s : Sys M) (el : ElHandle) (h : Nat)
    (mem : Mem) : Sys M × Int :=
  let d := EventMembership.setListener (w.listen h) (w.el el) mem s.kernel
    (s.listeners h)
  ({ s.update h d with attached := s.attached ++ [(el, h)] }, d.err)

/-- `audio_element_msg_remove_listener`. -/
def msgRemoveListener (w : Wiring) (s : Sys M) (el : ElHandle) (h : Nat)
    (alloc : Bool) : Sys M × Int :=
  let d := EventMembership.removeListener (w.listen h) (w.el el) alloc
    s.kernel (s.listeners h)
  (s.update h d, d.err)

/-- `STAILQ_FOREACH` over the linked items, up to the first error. -/
def forLinked (f : Nat → ElHandle → Sys M → Sys M × Int) :
    List ElItem → Nat → Sys M → Sys M × Int
  | [], _, s => (s, ESP_OK)
  | item :: items, i, s =>
      if item.linked = false then forLinked f items (i + 1) s
      else
        match f i item.el s with
        | (s, err) =>
            if err ≠ ESP_OK then (s, ESP_FAIL)
            else forLinked f items (i + 1) s

/-- `audio_pipeline_remove_listener`. -/
def removeListener (w : Wiring) (alloc : Nat → Bool) (s : Sys M) :
    Sys M × Int :=
  match s.listener with
  | none => (s, ESP_FAIL)
  | some h =>
      match forLinked (fun i el s => msgRemoveListener w s el h (alloc i))
          s.p.elList 0 s with
      | (s, err) =>
          if err ≠ ESP_OK then (s, ESP_FAIL)
          else ({ s with listener := none }, ESP_OK)

/-- `audio_pipeline_set_listener`. -/
def setListener (w : Wiring) (h : Nat) (mem : Nat → Mem)
    (alloc : Nat → Bool) (s : Sys M) : Sys M × Int :=
  let s := if s.listener.isSome then (removeListener w alloc s).1 else s
  match forLinked (fun i el s => msgSetListener w s el h (mem i))
      s.p.elList 0 s with
  | (s, err) =>
      if err ≠ ESP_OK then (s, ESP_FAIL)
      else ({ s with listener := some h }, ESP_OK)

/-- The calls that unlink a linked pipeline first. -/
def unlinks : Call → Bool
  | .unlink => true
  | .link _ _ => true
  | .linkMore _ _ => true
  | _ => false

/-- A call, and what its allocations do. -/
inductive ListenCall where
  | pipeline (c : Call) (alloc : Nat → Bool)
  | setListener (h : Nat) (mem : Nat → Mem) (alloc : Nat → Bool)
  | removeListener (alloc : Nat → Bool)

def ListenCall.alloc : ListenCall → Nat → Bool
  | .pipeline _ alloc => alloc
  | .setListener _ _ alloc => alloc
  | .removeListener alloc => alloc

/-- Whether the call calls `audio_pipeline_remove_listener`; it does so before
anything else. -/
def removes (s : Sys M) : ListenCall → Bool
  | .pipeline c _ => unlinks c && s.p.linked
  | .setListener _ _ _ => s.listener.isSome
  | .removeListener _ => true

def listenStep (w : Wiring) (s : Sys M) : ListenCall → Sys M
  | .pipeline c alloc =>
      let s := if unlinks c && s.p.linked then (removeListener w alloc s).1
        else s
      { s with p := (s.p.exec c).1 }
  | .setListener h mem alloc => (setListener w h mem alloc s).1
  | .removeListener alloc => (removeListener w alloc s).1

def listenMachine (M : Type*) (w : Wiring) : Machine (Sys M) ListenCall :=
  ⟨fun s c => some (listenStep w s c)⟩

/-! ## The property and the condition -/

/-- The call removes the listener `h`, with `ESP_OK`. -/
def Removal (w : Wiring) (s : Sys M) (c : ListenCall) (h : Nat) : Prop :=
  s.listener = some h ∧ removes s c = true ∧
    (removeListener w c.alloc s).2 = ESP_OK

/-- After a removal the listener has no queue of an element that the pipeline
attached to it. -/
def RemovesAll (w : Wiring) (s : Sys M) (c : ListenCall) : Prop :=
  ∀ h, Removal w s c h → ∀ x ∈ s.attached, x.2 = h →
    ∀ q ∈ (w.el x.1).externalQueue,
      q ∉ queues ((removeListener w c.alloc s).1.listeners h)

/-- The element has a linked item. -/
def Sys.Linked (s : Sys M) (el : ElHandle) : Prop :=
  ∃ item ∈ s.p.elList, item.el = el ∧ item.linked = true

/-- The condition on a removal: the attached elements that the listener still
listens to are linked. -/
def StillLinked (w : Wiring) (s : Sys M) (c : ListenCall) : Prop :=
  ∀ h, Removal w s c h → ∀ x ∈ s.attached, x.2 = h →
    ∀ q ∈ (w.el x.1).externalQueue, q ∈ queues (s.listeners h) →
      s.Linked x.1

instance (w : Wiring) (s : Sys M) (c : ListenCall) :
    Decidable (StillLinked w s c) :=
  decidable_of_iff (∀ h ∈ s.listener, removes s c = true →
      (removeListener w c.alloc s).2 = ESP_OK → ∀ x ∈ s.attached, x.2 = h →
        ∀ q ∈ (w.el x.1).externalQueue, q ∈ queues (s.listeners h) →
          ∃ item ∈ s.p.elList, item.el = x.1 ∧ item.linked = true)
    ⟨fun hall h hrem => hall h hrem.1 hrem.2.1 hrem.2.2,
      fun hall h hs hr hok => hall h ⟨hs, hr, hok⟩⟩

/-! ## What a removal does -/

/-- Neither the cleanup nor the update edits the list. -/
theorem cleanup_list (listen : Iface) (k : Kernel M) (l : Listener) :
    (EventMembership.cleanupListener listen k l).listener.listeningQueues =
      l.listeningQueues := by
  unfold EventMembership.cleanupListener
  dsimp only
  split
  · rfl
  · split <;> rfl

theorem update_list (alloc : Bool) (k : Kernel M) (l : Listener) :
    (EventMembership.updateListener alloc k l).listener.listeningQueues =
      l.listeningQueues := by
  have hcreate : (EventMembership.createQueueSet alloc k l).2.listeningQueues =
      l.listeningQueues := by
    unfold EventMembership.createQueueSet
    split
    · split <;> rfl
    · rfl
  unfold EventMembership.updateListener
  dsimp only
  split
  · exact hcreate
  · split <;> exact hcreate

/-- A successful `audio_event_iface_remove_listener` takes the emitter's queue
off the list. -/
theorem remove_ok {listen evt : Iface} {alloc : Bool} {k : Kernel M}
    {l : Listener}
    (h : (EventMembership.removeListener listen evt alloc k l).err = ESP_OK) :
    ∃ q, evt.externalQueue = some q ∧
      queues (EventMembership.removeListener listen evt alloc k l).listener =
        queues (forget q l) := by
  unfold EventMembership.removeListener at h ⊢
  split at h
  · cases h
  · rename_i q hq
    refine ⟨q, hq, ?_⟩
    split at h
    · cases h
    · rename_i hsize
      rw [if_neg hsize]
      dsimp only at h ⊢
      split at h
      · cases h
      · rename_i hclean
        rw [if_neg hclean, queues, update_list, queues, forget, forget,
          cleanup_list]

theorem mem_forget {l : Listener} {q p : Nat} :
    p ∈ queues (forget q l) ↔ p ∈ queues l ∧ p ≠ q := by
  simp only [queues, forget, List.mem_map, List.mem_filter,
    decide_eq_true_eq]
  constructor
  · rintro ⟨item, ⟨hmem, hne⟩, rfl⟩
    exact ⟨⟨item, hmem, rfl⟩, hne⟩
  · rintro ⟨⟨item, hmem, rfl⟩, hne⟩
    exact ⟨item, ⟨hmem, hne⟩, rfl⟩

/-- What is on the list after the loop: the queues of no linked element. -/
theorem forLinked_remove {w : Wiring} {h : Nat} {alloc : Nat → Bool}
    {items : List ElItem} {i : Nat} {s : Sys M}
    (hok : (forLinked (fun i el s => msgRemoveListener w s el h (alloc i))
      items i s).2 = ESP_OK) (q : Nat) :
    q ∈ queues ((forLinked (fun i el s => msgRemoveListener w s el h
        (alloc i)) items i s).1.listeners h) ↔
      q ∈ queues (s.listeners h) ∧
        ∀ item ∈ items, item.linked = true →
          (w.el item.el).externalQueue ≠ some q := by
  induction items generalizing i s with
  | nil => simp [forLinked]
  | cons item items ih =>
      rw [forLinked] at hok ⊢
      by_cases hl : item.linked = false
      · rw [if_pos hl] at hok ⊢
        rw [ih hok]
        refine and_congr_right fun _ => ?_
        simp [hl]
      · rw [if_neg hl] at hok ⊢
        have hlinked : item.linked = true := by simpa using hl
        by_cases herr : (msgRemoveListener w s item.el h (alloc i)).2 = ESP_OK
        · have hgo : ¬(msgRemoveListener w s item.el h (alloc i)).2 ≠ ESP_OK :=
            fun hne => hne herr
          simp only [if_neg hgo] at hok ⊢
          rw [ih hok]
          obtain ⟨p, hp, hqueues⟩ := remove_ok herr
          have hlist : queues ((msgRemoveListener w s item.el h
              (alloc i)).1.listeners h) = queues (forget p (s.listeners h)) := by
            rw [← hqueues]
            simp [msgRemoveListener, Sys.update]
          rw [hlist, mem_forget, and_assoc]
          refine and_congr_right fun _ => ?_
          rw [List.forall_mem_cons, hp]
          refine and_congr_left fun _ => ?_
          constructor
          · exact fun hne _ heq => hne (Option.some.inj heq).symm
          · exact fun hne heq => hne hlinked (heq ▸ rfl)
        · simp only [if_pos herr] at hok
          cases hok

/-- A removal takes off the list the queues of the linked elements. -/
theorem removal_list {w : Wiring} {s : Sys M} {h : Nat} {alloc : Nat → Bool}
    (hs : s.listener = some h) (hok : (removeListener w alloc s).2 = ESP_OK)
    (q : Nat) :
    q ∈ queues ((removeListener w alloc s).1.listeners h) ↔
      q ∈ queues (s.listeners h) ∧
        ∀ item ∈ s.p.elList, item.linked = true →
          (w.el item.el).externalQueue ≠ some q := by
  have hrem : removeListener w alloc s =
      match forLinked (fun i el s => msgRemoveListener w s el h (alloc i))
        s.p.elList 0 s with
      | (s, err) =>
          if err ≠ ESP_OK then (s, ESP_FAIL)
          else ({ s with listener := none }, ESP_OK) := by
    rw [removeListener, hs]
  rw [hrem] at hok ⊢
  by_cases herr : (forLinked (fun i el s => msgRemoveListener w s el h
      (alloc i)) s.p.elList 0 s).2 = ESP_OK
  · have hgo : ¬(forLinked (fun i el s => msgRemoveListener w s el h
        (alloc i)) s.p.elList 0 s).2 ≠ ESP_OK := fun hne => hne herr
    simp only [if_neg hgo]
    exact forLinked_remove herr q
  · simp only [if_pos herr] at hok
    cases hok

/-- A removal is complete exactly when the attached elements are linked. -/
theorem removesAll_iff {w : Wiring} (hw : w.Distinct) (s : Sys M)
    (c : ListenCall) : RemovesAll w s c ↔ StillLinked w s c := by
  constructor
  · intro hall h hrem x hx hxh q hq hlisted
    by_contra hno
    refine hall h hrem x hx hxh q hq ((removal_list hrem.1 hrem.2.2 q).2
      ⟨hlisted, ?_⟩)
    intro item hitem hlinked heq
    exact hno ⟨item, hitem, hw _ _ q heq hq, hlinked⟩
  · intro hlinked h hrem x hx hxh q hq hleft
    obtain ⟨hlisted, hnone⟩ := (removal_list hrem.1 hrem.2.2 q).1 hleft
    obtain ⟨item, hitem, hel, hl⟩ := hlinked h hrem x hx hxh q hq hlisted
    exact hnone item hitem hl (hel ▸ hq)

/-- The queues of listener 0 are 0 and 1, those of element `e` follow. -/
def numbered : Wiring where
  el e := ⟨some (2 * e + 2), some (2 * e + 3), 5, 5, 0⟩
  listen _ := ⟨some 0, some 1, 5, 5, 5⟩

theorem numbered_distinct : numbered.Distinct := by
  intro e e' q h h'
  have hq : 2 * e + 3 = q := Option.some.inj h
  have hq' : 2 * e' + 3 = q := Option.some.inj h'
  have htwice : 2 * e = 2 * e' := Nat.add_right_cancel (hq.trans hq'.symm)
  exact Nat.eq_of_mul_eq_mul_left (by decide) htwice

/-- A fresh pipeline and a fresh listener. -/
def fresh : Sys Unit where
  p := bare
  kernel := EventIface.initKernel (fun _ => 5) 5 true
  listeners _ := EventIface.initListener 5 true
  listener := none
  attached := []

def ok (c : Call) : ListenCall := .pipeline c fun _ => true

/-- Two elements are registered and linked, and the listener is set. -/
def listening : List ListenCall :=
  [ok (.register 0 (some "a") .ok), ok (.register 1 (some "b") .ok),
    ok (.link ["a", "b"] fun _ => .ok),
    .setListener 0 (fun _ => ⟨true, true⟩) fun _ => true]

def unregisterBoth : List ListenCall :=
  [ok (.unregister 0), ok (.unregister 1)]

def removal : List ListenCall := [.removeListener fun _ => true]

end EspAdf.Ports.PipelineListener
