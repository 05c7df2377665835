import EspAdf.Verified.Blocks
import EspAdf.Verified.Machine

/-!
# `input_key_service.c`: destroying the service while its task runs

`input_key_service_destroy` sends `PERIPH_SERVICE_STATE_STOPED` to the queue
that the key events come through, and returns.  `periph_service_destroy` then
frees the name and the handle, without waiting for the task.  The task reads
the handle when it begins, before every receive, and in
`periph_service_callback`; so it must have done so for the last time when the
handle is freed.

`Past` says that it has.  `destroy_safe` proves that no block is used after
its release if the task is past that point when the handle is freed, and
`destroy_unsafe` that otherwise the task can go on to use it.
-/

namespace EspAdf.Ports.InputKeyService

open EspAdf.Verified

/-! ## Data -/

/-- `audio_event_iface_msg_t.source`: the service's handle, or that of a
peripheral. -/
inductive Source where
  | service
  | periph (handle : Nat)
  deriving DecidableEq, Repr

/-- `audio_event_iface_msg_t`. -/
structure Msg where
  source : Source
  cmd : Int
  sourceType : Int
  data : Int
  deriving DecidableEq, Repr

def PERIPH_SERVICE_STATE_STOPED : Int := 3

def USER_ID_UNKNOWN : Int := -1

/-- `input_key_service_info_t`. -/
structure KeyInfo where
  type : Int
  userId : Int
  actId : Int
  deriving DecidableEq, Repr

/-- `get_input_key_user_id`. -/
def getInputKeyUserId (sourceType actId : Int) : List KeyInfo → Int
  | [] => USER_ID_UNKNOWN
  | keyInfo :: rest =>
      if keyInfo.type = sourceType ∧ keyInfo.actId = actId then keyInfo.userId
      else getInputKeyUserId sourceType actId rest

/-- What `input_key_service_event_send` sends. -/
def stopMsg : Msg := ⟨.service, PERIPH_SERVICE_STATE_STOPED, 0, 0⟩

/-- The test at the end of the loop. -/
def Msg.IsStop (msg : Msg) : Prop :=
  msg.source = .service ∧ msg.cmd = PERIPH_SERVICE_STATE_STOPED

instance (msg : Msg) : Decidable msg.IsStop :=
  inferInstanceAs (Decidable (_ ∧ _))

inductive Block where
  /-- `input_key_service_t`. -/
  | ser
  /-- `service_name`. -/
  | serviceName
  /-- `periph_service_impl_t`, the handle. -/
  | impl
  deriving DecidableEq, Repr

/-- Where `input_key_service_task` stands. -/
inductive TaskPc where
  /-- The task has been created. -/
  | getData
  /-- `periph_service_get_data` in `input_key_service_event_receive`. -/
  | receiveData
  | receive
  | lookup (msg : Msg)
  /-- `periph_service_callback`. -/
  | callback (msg : Msg)
  | check (msg : Msg)
  /-- Behind the loop. -/
  | leave
  | gone
  deriving DecidableEq, Repr

/-- Where `periph_service_destroy` stands. -/
inductive DestroyPc where
  | idle
  /-- `input_key_service_event_send`. -/
  | getQueue
  | send
  | freeName
  | freeImpl
  | done
  deriving DecidableEq, Repr

structure Sys where
  queue : List Msg
  infos : List KeyInfo
  task : TaskPc
  destroyer : DestroyPc
  blocks : Blocks Block
  deriving DecidableEq, Repr

/-- The service after `input_key_service_create`. -/
def start : Sys := ⟨[], [], .getData, .idle, .empty⟩

/-! ## Steps -/

/-- The next statement of the task. -/
def taskStep (s : Sys) : Option Sys :=
  match s.task with
  | .getData => some { s with
      task := .receiveData
      blocks := s.blocks.touchAll [.impl, .ser] }
  | .receiveData => some { s with
      task := .receive
      blocks := s.blocks.touchAll [.impl, .ser] }
  | .receive =>
      match s.queue with
      | [] => none
      | msg :: queue => some { s with queue := queue, task := .lookup msg }
  | .lookup msg => some { s with
      task := if 0 ≤ getInputKeyUserId msg.sourceType msg.data s.infos then
        .callback msg else .check msg
      blocks := s.blocks.touchAll [.ser] }
  | .callback msg => some { s with
      task := .check msg
      blocks := s.blocks.touchAll [.impl] }
  | .check msg => some { s with
      task := if msg.IsStop then .leave else .receiveData }
  | .leave => some { s with
      task := .gone
      blocks := (s.blocks.touchAll [.ser]).release .ser }
  | .gone => none

/-- The next statement of `periph_service_destroy`; the queue holds `n`
messages. -/
def destroyStep (n : Nat) (s : Sys) : Option Sys :=
  match s.destroyer with
  | .idle => some { s with
      destroyer := .getQueue
      blocks := s.blocks.touchAll [.impl] }
  | .getQueue => some { s with
      destroyer := .send
      blocks := s.blocks.touchAll [.impl, .ser] }
  | .send =>
      if s.queue.length < n then some { s with
        destroyer := .freeName
        queue := s.queue ++ [stopMsg] }
      else none
  | .freeName => some { s with
      destroyer := .freeImpl
      blocks := (s.blocks.touchAll [.impl]).release .serviceName }
  | .freeImpl => some { s with
      destroyer := .done
      blocks := (s.blocks.touchAll [.impl]).release .impl }
  | .done => none

inductive Act where
  | task
  | destroy
  /-- A peripheral sends a key event. -/
  | key (handle : Nat) (cmd sourceType data : Int)
  /-- A client calls `input_key_service_add_key`, not after it has called
  `periph_service_destroy`. -/
  | addKey (keyInfo : KeyInfo)
  deriving DecidableEq, Repr

def step (n : Nat) (s : Sys) : Act → Option Sys
  | .task => taskStep s
  | .destroy => destroyStep n s
  | .key handle cmd sourceType data =>
      if s.queue.length < n then some { s with
        queue := s.queue ++ [⟨.periph handle, cmd, sourceType, data⟩] }
      else none
  | .addKey keyInfo =>
      if s.destroyer = .idle then some { s with
        infos := s.infos ++ [keyInfo]
        blocks := s.blocks.touchAll [.impl, .ser] }
      else none

def keyMachine (n : Nat) : Machine Sys Act := ⟨step n⟩

/-! ## The condition -/

/-- No callback is made for `msg`, and the loop ends with it. -/
def Ends (infos : List KeyInfo) (msg : Msg) : Prop :=
  msg.IsStop ∧ getInputKeyUserId msg.sourceType msg.data infos < 0

/-- The task does not use the handle any more: it has taken the message to
stop, or has nothing to do before it takes it, and will not make a callback
for it. -/
def Past (s : Sys) : Prop :=
  match s.task with
  | .getData => False
  | .receiveData => False
  | .receive => ∃ msg ∈ s.queue.head?, Ends s.infos msg
  | .lookup msg => Ends s.infos msg
  | .callback _ => False
  | .check msg => msg.IsStop
  | .leave => True
  | .gone => True

/-- The condition on a step: the handle is freed when the task is past its last
use. -/
def StepOk (s : Sys) (a : Act) : Prop :=
  a = .destroy → s.destroyer = .freeImpl → Past s

instance (infos : List KeyInfo) (msg : Msg) : Decidable (Ends infos msg) :=
  inferInstanceAs (Decidable (_ ∧ _))

instance (s : Sys) : Decidable (Past s) := by
  unfold Past
  split <;> infer_instance

instance (s : Sys) (a : Act) : Decidable (StepOk s a) :=
  inferInstanceAs (Decidable (_ → _))

/-! ## The invariant -/

/-- The message to stop was taken. -/
def Stopping : TaskPc → Prop
  | .getData => False
  | .receiveData => False
  | .receive => False
  | .lookup msg => msg.IsStop
  | .callback msg => msg.IsStop
  | .check msg => msg.IsStop
  | .leave => True
  | .gone => True

/-- The message to stop has been sent. -/
def Sent (destroyer : DestroyPc) : Prop :=
  destroyer = .freeName ∨ destroyer = .freeImpl ∨ destroyer = .done

structure Inv (s : Sys) : Prop where
  faulted : s.blocks.faulted = false
  ser : .ser ∈ s.blocks.released → s.task = .gone
  name : .serviceName ∈ s.blocks.released →
    s.destroyer = .freeImpl ∨ s.destroyer = .done
  impl : .impl ∈ s.blocks.released → s.destroyer = .done
  past : s.destroyer = .done → Past s
  /-- The message to stop is on its way exactly when it was sent. -/
  sent : Sent s.destroyer ↔
    Stopping s.task ∨ ∃ msg ∈ s.queue, msg.IsStop

theorem Inv.start : Inv start where
  faulted := rfl
  ser := nofun
  name := nofun
  impl := nofun
  past := nofun
  sent := by
    simp [Sent, Stopping, InputKeyService.start]

/-- The handle is there as long as the task may use it. -/
theorem Inv.impl_kept {s : Sys} (h : Inv s) (hpast : ¬Past s) :
    .impl ∉ s.blocks.released := fun hin => hpast (h.past (h.impl hin))

theorem Inv.ser_kept {s : Sys} (h : Inv s) (hgone : s.task ≠ .gone) :
    .ser ∉ s.blocks.released := fun hin => hgone (h.ser hin)

/-! ### The task -/

/-- A statement of the task that uses blocks that are there, and takes no
message. -/
theorem Inv.task_uses {s : Sys} (h : Inv s) {bs : List Block} {task : TaskPc}
    (hgone : s.task ≠ .gone) (hbs : ∀ b ∈ bs, b ∉ s.blocks.released)
    (hpast : Past s → Past { s with task := task })
    (hstop : Stopping task ↔ Stopping s.task) :
    Inv { s with task := task, blocks := s.blocks.touchAll bs } where
  faulted := Blocks.faulted_touchAll.2 ⟨h.faulted, hbs⟩
  ser := fun hin => absurd (h.ser hin) hgone
  name := h.name
  impl := h.impl
  past := fun hdone => hpast (h.past hdone)
  sent := h.sent.trans (or_congr_left hstop.symm)

/-- The task takes a message. -/
theorem Inv.receive {s : Sys} (h : Inv s) (htask : s.task = .receive)
    {msg : Msg} {queue : List Msg} (hqueue : s.queue = msg :: queue) :
    Inv { s with queue := queue, task := .lookup msg } where
  faulted := h.faulted
  ser := by
    have hser := h.ser_kept (by simp [htask])
    exact fun hin => absurd hin hser
  name := h.name
  impl := h.impl
  past := by
    intro hdone
    have hpast := h.past hdone
    simp only [Past, htask, hqueue] at hpast
    obtain ⟨head, hhead, hends⟩ := hpast
    obtain rfl := Option.some.inj hhead
    exact hends
  sent := by
    rw [h.sent, htask, hqueue, List.exists_mem_cons_iff]
    exact or_congr_right Iff.rfl |>.trans (by simp [Stopping])

/-- The test at the end of the loop. -/
theorem Inv.check {s : Sys} (h : Inv s) {msg : Msg}
    (htask : s.task = .check msg) :
    Inv { s with task := if msg.IsStop then .leave else .receiveData } where
  faulted := h.faulted
  ser := by
    have hser := h.ser_kept (by simp [htask])
    exact fun hin => absurd hin hser
  name := h.name
  impl := h.impl
  past := by
    intro hdone
    have hpast := h.past hdone
    simp only [Past, htask] at hpast
    rw [if_pos hpast]
    trivial
  sent := by
    rw [h.sent, htask]
    refine or_congr_left ?_
    by_cases hstop : msg.IsStop
    · rw [if_pos hstop]
      exact iff_of_true hstop trivial
    · rw [if_neg hstop]
      exact iff_of_false hstop id

/-- The task frees `input_key_service_t`, and ends. -/
theorem Inv.leave {s : Sys} (h : Inv s) (htask : s.task = .leave) :
    Inv { s with
      task := .gone
      blocks := (s.blocks.touchAll [.ser]).release .ser } where
  faulted := by
    have hser := h.ser_kept (by simp [htask])
    rw [Blocks.faulted_release, Blocks.faulted_touchAll]
    exact ⟨⟨h.faulted, by simpa using hser⟩, hser⟩
  ser := fun _ => rfl
  name := fun hin => h.name ((List.mem_cons.1 hin).resolve_left (by decide))
  impl := fun hin => h.impl ((List.mem_cons.1 hin).resolve_left (by decide))
  past := fun _ => trivial
  sent := by
    rw [h.sent, htask]
    rfl

theorem Inv.task {s t : Sys} (h : Inv s) (hs : taskStep s = some t) : Inv t := by
  unfold taskStep at hs
  split at hs
  case h_1 htask =>
      cases hs
      have himpl := h.impl_kept (by simp [Past, htask])
      have hser := h.ser_kept (by simp [htask])
      refine h.task_uses (by simp [htask]) (by simp [himpl, hser]) ?_ ?_
      · simp [Past, htask]
      · simp [Stopping, htask]
  case h_2 htask =>
      cases hs
      have himpl := h.impl_kept (by simp [Past, htask])
      have hser := h.ser_kept (by simp [htask])
      refine h.task_uses (by simp [htask]) (by simp [himpl, hser]) ?_ ?_
      · simp [Past, htask]
      · simp [Stopping, htask]
  case h_3 htask =>
      split at hs
      · contradiction
      · rename_i msg queue hqueue
        cases hs
        exact h.receive htask hqueue
  case h_4 msg htask =>
      cases hs
      have hser := h.ser_kept (by simp [htask])
      refine h.task_uses (by simp [htask]) (by simp [hser]) ?_ ?_
      · -- The message that ends the loop is not looked up successfully.
        intro hpast
        simp only [Past, htask] at hpast
        rw [if_neg (Int.not_le.2 hpast.2)]
        exact hpast.1
      · rw [htask]
        split
        · rfl
        · rfl
  case h_5 msg htask =>
      cases hs
      have himpl := h.impl_kept (by simp [Past, htask])
      refine h.task_uses (by simp [htask]) (by simp [himpl]) ?_ ?_
      · simp [Past, htask]
      · rw [htask]
        rfl
  case h_6 msg htask =>
      cases hs
      exact h.check htask
  case h_7 htask =>
      cases hs
      exact h.leave htask
  case h_8 => contradiction

/-! ### The destroyer and the others -/

/-- A statement of the destroyer before the message is sent. -/
theorem Inv.destroy_uses {s : Sys} (h : Inv s) {bs : List Block}
    {destroyer : DestroyPc} (hbs : ∀ b ∈ bs, b ∉ s.blocks.released)
    (hold : s.destroyer = .idle ∨ s.destroyer = .getQueue)
    (hnew : destroyer = .getQueue ∨ destroyer = .send) :
    Inv { s with
      destroyer := destroyer
      blocks := s.blocks.touchAll bs } where
  faulted := Blocks.faulted_touchAll.2 ⟨h.faulted, hbs⟩
  ser := h.ser
  name := by
    intro hin
    have hname := h.name hin
    rcases hold with hpc | hpc <;> simp [hpc] at hname
  impl := by
    intro hin
    have himpl := h.impl hin
    rcases hold with hpc | hpc <;> simp [hpc] at himpl
  past := by
    intro hdone
    rcases hnew with rfl | rfl <;> contradiction
  sent := by
    rw [← h.sent]
    refine iff_of_false ?_ ?_
    · rcases hnew with rfl | rfl <;> simp [Sent]
    · rcases hold with hpc | hpc <;> simp [Sent, hpc]

/-- Before it has sent the message, the service is there. -/
theorem Inv.kept {s : Sys} (h : Inv s) (hpc : ¬Sent s.destroyer) :
    .impl ∉ s.blocks.released ∧ .ser ∉ s.blocks.released := by
  constructor
  · exact fun hin => hpc (.inr (.inr (h.impl hin)))
  · intro hin
    refine hpc (h.sent.2 (.inl ?_))
    rw [h.ser hin]
    trivial

/-- The message is sent. -/
theorem Inv.send {s : Sys} (h : Inv s) (hpc : s.destroyer = .send) :
    Inv { s with
      destroyer := .freeName
      queue := s.queue ++ [stopMsg] } where
  faulted := h.faulted
  ser := h.ser
  name := by
    intro hin
    have hname := h.name hin
    simp [hpc] at hname
  impl := by
    intro hin
    have himpl := h.impl hin
    simp [hpc] at himpl
  past := nofun
  sent := by
    refine iff_of_true (.inl rfl) (.inr ⟨stopMsg, by simp, ?_⟩)
    exact ⟨rfl, rfl⟩

theorem Inv.freeName {s : Sys} (h : Inv s) (hpc : s.destroyer = .freeName) :
    Inv { s with
      destroyer := .freeImpl
      blocks := (s.blocks.touchAll [.impl]).release .serviceName } where
  faulted := by
    have himpl : .impl ∉ s.blocks.released := by
      intro hin
      have himpl := h.impl hin
      simp [hpc] at himpl
    have hname : .serviceName ∉ s.blocks.released := by
      intro hin
      have hname := h.name hin
      simp [hpc] at hname
    rw [Blocks.faulted_release, Blocks.faulted_touchAll]
    exact ⟨⟨h.faulted, by simpa using himpl⟩, hname⟩
  ser := fun hin => h.ser ((List.mem_cons.1 hin).resolve_left (by decide))
  name := fun _ => .inl rfl
  impl := by
    intro hin
    have himpl := h.impl ((List.mem_cons.1 hin).resolve_left (by decide))
    simp [hpc] at himpl
  past := nofun
  sent := by
    rw [← h.sent, hpc]
    simp [Sent]

/-- The handle is freed, and the task is past its last use. -/
theorem Inv.freeImpl {s : Sys} (h : Inv s) (hpc : s.destroyer = .freeImpl)
    (hpast : Past s) :
    Inv { s with
      destroyer := .done
      blocks := (s.blocks.touchAll [.impl]).release .impl } where
  faulted := by
    have himpl : .impl ∉ s.blocks.released := by
      intro hin
      have himpl := h.impl hin
      simp [hpc] at himpl
    rw [Blocks.faulted_release, Blocks.faulted_touchAll]
    exact ⟨⟨h.faulted, by simpa using himpl⟩, himpl⟩
  ser := fun hin => h.ser ((List.mem_cons.1 hin).resolve_left (by decide))
  name := fun _ => .inr rfl
  impl := fun _ => rfl
  past := fun _ => hpast
  sent := by
    rw [← h.sent, hpc]
    simp [Sent]

theorem Inv.destroy {n : Nat} {s t : Sys} (h : Inv s)
    (hok : s.destroyer = .freeImpl → Past s)
    (hs : destroyStep n s = some t) : Inv t := by
  unfold destroyStep at hs
  split at hs
  case h_1 hpc =>
      cases hs
      have hkept := h.kept (by simp [Sent, hpc])
      exact h.destroy_uses (by simp [hkept]) (.inl hpc) (.inl rfl)
  case h_2 hpc =>
      cases hs
      have hkept := h.kept (by simp [Sent, hpc])
      exact h.destroy_uses (by simp [hkept]) (.inr hpc) (.inr rfl)
  case h_3 hpc =>
      obtain ⟨-, hs⟩ := Option.ite_none_right_eq_some.1 hs
      cases hs
      exact h.send hpc
  case h_4 hpc =>
      cases hs
      exact h.freeName hpc
  case h_5 hpc =>
      cases hs
      exact h.freeImpl hpc (hok hpc)
  case h_6 => contradiction

/-- A key event that arrives does not end the loop. -/
theorem Inv.key {s : Sys} (h : Inv s) (handle : Nat)
    (cmd sourceType data : Int) :
    Inv { s with
      queue := s.queue ++ [⟨.periph handle, cmd, sourceType, data⟩] } where
  faulted := h.faulted
  ser := h.ser
  name := h.name
  impl := h.impl
  past := by
    intro hdone
    have hpast := h.past hdone
    cases htask : s.task with
    | receive =>
        simp only [Past, htask] at hpast ⊢
        obtain ⟨msg, hmsg, hends⟩ := hpast
        exact ⟨msg, by simp [Option.mem_def.1 hmsg], hends⟩
    | _ =>
        simp only [Past, htask] at hpast ⊢
        try exact hpast
  sent := by
    rw [h.sent]
    refine or_congr_right ?_
    simp [Msg.IsStop, or_and_right, exists_or]

theorem Inv.addKey {s : Sys} (h : Inv s) (hpc : s.destroyer = .idle)
    (keyInfo : KeyInfo) :
    Inv { s with
      infos := s.infos ++ [keyInfo]
      blocks := s.blocks.touchAll [.impl, .ser] } where
  faulted := by
    have hkept := h.kept (by simp [Sent, hpc])
    exact Blocks.faulted_touchAll.2 ⟨h.faulted, by simp [hkept]⟩
  ser := h.ser
  name := h.name
  impl := h.impl
  past := by
    intro hdone
    exact absurd (hpc.symm.trans hdone) (by decide)
  sent := h.sent

theorem Inv.step {n : Nat} {s t : Sys} {a : Act} (h : Inv s)
    (hok : StepOk s a) (hs : (keyMachine n).step s a = some t) : Inv t := by
  cases a with
  | task => exact h.task hs
  | destroy => exact h.destroy (hok rfl) hs
  | key handle cmd sourceType data =>
      obtain ⟨-, hs⟩ := Option.ite_none_right_eq_some.1 hs
      cases hs
      exact h.key handle cmd sourceType data
  | addKey keyInfo =>
      obtain ⟨hpc, hs⟩ := Option.ite_none_right_eq_some.1 hs
      cases hs
      exact h.addKey hpc keyInfo

theorem inv_of_reaches {n : Nat} {s : Sys}
    (h : (keyMachine n).Reaches StepOk start s) : Inv s :=
  Machine.Reaches.invariant h Inv.start
    fun _ _ _ hu hok hs => Inv.step hu hok hs

/-- **The service is not used after it was freed,** in every run in which the
task is past its last use of the handle when that is freed. -/
theorem destroy_safe {n : Nat} {s : Sys}
    (h : (keyMachine n).Reaches StepOk start s) : s.blocks.faulted = false :=
  (inv_of_reaches h).faulted

/-! ## The condition is needed -/

/-- The task can go on to use what was freed. -/
def CanFault (n : Nat) (s : Sys) : Prop :=
  ∃ as t, (keyMachine n).run s as = some t ∧ t.blocks.faulted = true

section Faults

variable {n : Nat} {s : Sys}

theorem CanFault.of_step {t : Sys} {a : Act}
    (hs : (keyMachine n).step s a = some t) (h : CanFault n t) :
    CanFault n s := by
  obtain ⟨as, u, hrun, hfault⟩ := h
  exact ⟨a :: as, u, by rw [Machine.run_cons, hs]; exact hrun, hfault⟩

theorem CanFault.of_task {t : Sys} (hs : taskStep s = some t)
    (h : CanFault n t) : CanFault n s := .of_step (a := .task) hs h

theorem CanFault.of_destroy {t : Sys} (hs : destroyStep n s = some t)
    (h : CanFault n t) : CanFault n s := .of_step (a := .destroy) hs h

theorem CanFault.of_faulted (h : s.blocks.faulted = true) : CanFault n s :=
  ⟨[], s, rfl, h⟩

theorem canFault_receiveData (himpl : .impl ∈ s.blocks.released)
    (htask : s.task = .receiveData) : CanFault n s := by
  refine .of_task (by rw [taskStep, htask]) ?_
  exact .of_faulted (by simp [Blocks.touchAll, himpl])

theorem canFault_check {msg : Msg} (himpl : .impl ∈ s.blocks.released)
    (htask : s.task = .check msg) (hstop : ¬msg.IsStop) : CanFault n s := by
  refine .of_task (by rw [taskStep, htask]) ?_
  exact canFault_receiveData himpl (if_neg hstop)

theorem canFault_lookup {msg : Msg} (himpl : .impl ∈ s.blocks.released)
    (htask : s.task = .lookup msg) (hends : ¬Ends s.infos msg) :
    CanFault n s := by
  refine .of_task (by rw [taskStep, htask]) ?_
  by_cases huser : 0 ≤ getInputKeyUserId msg.sourceType msg.data s.infos
  · refine .of_task (by rw [taskStep, if_pos huser]) ?_
    exact .of_faulted (by simp [Blocks.touchAll, himpl])
  · exact canFault_check himpl (if_neg huser)
      fun hstop => hends ⟨hstop, Int.not_le.1 huser⟩

theorem canFault_of_freed (himpl : .impl ∈ s.blocks.released)
    (hpast : ¬Past s)
    (hsent : Stopping s.task ∨ ∃ msg ∈ s.queue, msg.IsStop) :
    CanFault n s := by
  cases htask : s.task with
  | getData =>
      refine .of_task (by rw [taskStep, htask]) ?_
      exact .of_faulted (by simp [Blocks.touchAll, himpl])
  | receiveData => exact canFault_receiveData himpl htask
  | receive =>
      cases hqueue : s.queue with
      | nil => simp [htask, hqueue, Stopping] at hsent
      | cons msg queue =>
          refine .of_task (by rw [taskStep, htask, hqueue]) ?_
          refine canFault_lookup himpl rfl fun hends => hpast ?_
          simp only [Past, htask, hqueue]
          exact ⟨msg, rfl, hends⟩
  | lookup msg =>
      refine canFault_lookup himpl htask fun hends => hpast ?_
      simpa only [Past, htask] using hends
  | callback msg =>
      refine .of_task (by rw [taskStep, htask]) ?_
      exact .of_faulted (by simp [Blocks.touchAll, himpl])
  | check msg =>
      refine canFault_check himpl htask fun hstop => hpast ?_
      simpa only [Past, htask] using hstop
  | leave => exact absurd (by simp only [Past, htask]) hpast
  | gone => exact absurd (by simp only [Past, htask]) hpast

/-- If the task is not past its last use when the handle is freed, it can use
it. -/
theorem destroy_unsafe (h : Inv s) (hpc : s.destroyer = .freeImpl)
    (hpast : ¬Past s) : CanFault n s := by
  refine .of_destroy (by rw [destroyStep, hpc]) ?_
  exact canFault_of_freed List.mem_cons_self hpast (h.sent.1 (.inr (.inl hpc)))

end Faults

/-! ## Two schedules -/

/-- The task waits for a message, and then `periph_service_destroy` runs to
its end. -/
def waitAndDestroy : List Act :=
  [.task, .task] ++ List.replicate 5 .destroy

/-- The task takes the message afterwards. -/
theorem destroy_waiting_safe : ∃ s,
    (keyMachine 10).run start (waitAndDestroy ++ List.replicate 4 .task) =
      some s ∧
    s.task = .gone ∧ s.destroyer = .done ∧ s.blocks.faulted = false := by
  have h : ((keyMachine 10).runIf StepOk start
      (waitAndDestroy ++ List.replicate 4 .task)).map
      (fun s => (s.task, s.destroyer)) = some (.gone, .done) := by
    decide +kernel
  simp only [Option.map_eq_some_iff, Prod.mk.injEq] at h
  obtain ⟨s, hs, htask, hdestroyer⟩ := h
  exact ⟨s, (Machine.meets_of_runIf hs).1, htask, hdestroyer,
    destroy_safe (Machine.reaches_of_runIf hs)⟩

/-- With a key event ahead of the message, the task uses the handle before its
next receive. -/
theorem destroy_behind_key_faults : ∃ s,
    (keyMachine 10).run start
      ([.key 7 1 2 3] ++ waitAndDestroy ++ List.replicate 4 .task) = some s ∧
    s.destroyer = .done ∧ s.task = .receive ∧ s.blocks.faulted = true := by
  have h : ((keyMachine 10).run start
      ([.key 7 1 2 3] ++ waitAndDestroy ++ List.replicate 4 .task)).map
      (fun s => (s.destroyer, s.task, s.blocks.faulted)) =
      some (.done, .receive, true) := by
    decide +kernel
  simp only [Option.map_eq_some_iff, Prod.mk.injEq] at h
  exact h

end EspAdf.Ports.InputKeyService
