import EspAdf.Verified.Machine

/-!
# `dueros_service.c`: the life cycle of the Dueros service

`dueros_service_create` starts `dueros_task`, and attaches the service
structure to the handle behind that.  The task reads it first thing, and uses
what it has read later.

The task keeps one state, and opens a voice session for `DUER_CMD_START` if the
state is not below `SERVICE_STATE_CONNECTED`.  `DUER_CMD_STOP` sets the state
to `SERVICE_STATE_STOPED`, which is above that, whether the service is
connected or not.  And `DUER_CMD_DESTROY` sets `task_run` to 1, which it is
already.

`life_cycle_iff` says which sequences of commands and events, and which
interleavings with the creation, have the life cycle that is meant.
-/

namespace EspAdf.Ports.DuerosService

open EspAdf.Verified

/-! ## Data -/

/-- `service_state_t`. -/
inductive ServiceState where
  | unknown
  | idle
  | connecting
  | connected
  | running
  | stoped
  deriving DecidableEq, Repr

/-- The value of the enumerator. -/
def ServiceState.val : ServiceState → Nat
  | .unknown => 0
  | .idle => 1
  | .connecting => 2
  | .connected => 3
  | .running => 4
  | .stoped => 5

/-- `duer_task_cmd_t`. -/
inductive Cmd where
  | login
  | connected
  | start
  | stop
  | quit
  | destroy
  deriving DecidableEq, Repr

/-- Where `dueros_service_create` stands, `audio_service_create` having started
the task. -/
inductive CreatePc where
  /-- `audio_calloc` and `xQueueCreate`. -/
  | calloc
  /-- `audio_service_set_data`. -/
  | setData
  /-- `duer_serv_handle = duer`. -/
  | setHandle
  | done
  deriving DecidableEq, Repr

/-- Where `dueros_task` stands. -/
inductive TaskPc where
  | getData
  /-- Up to `while (task_run)`. -/
  | init
  | loop
  /-- `dueros_task_fail`. -/
  | fail
  | gone
  /-- It has used a NULL pointer. -/
  | crashed
  deriving DecidableEq, Repr

structure Sys where
  create : CreatePc
  /-- `user_data` of the handle is the service structure. -/
  userData : Bool
  duerQue : List Cmd
  duerState : ServiceState
  task : TaskPc
  /-- The task's `serv` is not NULL. -/
  serv : Bool
  taskRun : Bool
  /-- The queue and the structure have been released. -/
  released : Bool
  /-- History: the structure was attached when the task read it. -/
  attached : Bool
  /-- History: since the last `DUER_CMD_QUIT` that was handled, a
  `DUER_CMD_CONNECTED` was; and a `DUER_CMD_STOP` was. -/
  connected : Bool
  stopped : Bool
  /-- History: a `DUER_CMD_DESTROY` was handled. -/
  destroyed : Bool
  deriving DecidableEq, Repr

/-- The task has just been started. -/
def start : Sys :=
  { create := .calloc
    userData := false
    duerQue := []
    duerState := .unknown
    task := .getData
    serv := false
    taskRun := true
    released := false
    attached := false
    connected := false
    stopped := false
    destroyed := false }

/-! ## Commands -/

def QUEUE_LEN : Nat := 3

/-- `duer_que_send`, which does not wait. -/
def Sys.queSend (s : Sys) (cmd : Cmd) : Sys :=
  if s.duerQue.length < QUEUE_LEN then { s with duerQue := s.duerQue ++ [cmd] }
  else s

/-- `DUER_CMD_START` opens a voice session. -/
def Opens (s : Sys) : Prop := ¬s.duerState.val < ServiceState.connected.val

instance (s : Sys) : Decidable (Opens s) := inferInstanceAs (Decidable (¬_))

/-- What the task does with a command. -/
def Sys.handle (s : Sys) : Cmd → Sys
  | .login =>
      if s.duerState = .idle then { s with duerState := .connecting } else s
  | .connected => { s with duerState := .connected }
  | .start => if Opens s then { s with duerState := .running } else s
  | .stop => { s with duerState := .stoped }
  | .quit =>
      if s.duerState ≠ .idle then { s with duerState := .idle } else s
  | .destroy => { s with duerState := .idle, taskRun := true }

/-- The history of a command that is handled. -/
def Sys.record (s : Sys) : Cmd → Sys
  | .connected => { s with connected := true }
  | .stop => { s with stopped := true }
  | .quit => { s with connected := false, stopped := false }
  | .destroy => { s with destroyed := true }
  | .login => s
  | .start => s

/-! ## Steps -/

/-- The next statement of `dueros_service_create`. -/
def createStep (s : Sys) : Option Sys :=
  match s.create with
  | .calloc => some { s with create := .setData }
  | .setData => some { s with create := .setHandle, userData := true }
  | .setHandle => some { s with create := .done }
  | .done => none

/-- The next step of `dueros_task`; `alloc` says whether `voiceData` can be
allocated. -/
def taskStep (alloc : Bool) (s : Sys) : Option Sys :=
  match s.task with
  | .getData => some { s with
      task := .init
      serv := s.userData
      attached := decide (s.create = .setHandle ∨ s.create = .done) }
  | .init =>
      if alloc then
        if s.serv then some { s with task := .loop, duerState := .idle }
        else some { s with task := .crashed }
      else some { s with task := .fail }
  | .loop =>
      if s.taskRun then
        match s.duerQue with
        | [] => none
        | cmd :: rest =>
            some (({ s with duerQue := rest }.handle cmd).record cmd)
      else some { s with task := .fail }
  | .fail =>
      if s.serv then some { s with task := .gone, released := true }
      else some { s with task := .crashed }
  | .gone => none
  | .crashed => none

inductive Act where
  | create
  | task (alloc : Bool)
  /-- A client calls `audio_service_connect`, `audio_service_start`,
  `audio_service_stop`, `audio_service_disconnect` or
  `audio_service_destroy`. -/
  | connect
  | start
  | stop
  | disconnect
  | destroy
  /-- `duer_event_hook` gets `DUER_EVENT_STARTED` or `DUER_EVENT_STOPPED`. -/
  | eventStarted
  | eventStopped
  deriving DecidableEq, Repr

/-- What is sent by clients and events. -/
def Act.cmd : Act → Option Cmd
  | .create => none
  | .task _ => none
  | .connect => some .login
  | .start => some .start
  | .stop => some .stop
  | .disconnect => some .quit
  | .destroy => some .destroy
  | .eventStarted => some .connected
  | .eventStopped => some .quit

/-- Commands and events come when the service has been created. -/
def step (s : Sys) (a : Act) : Option Sys :=
  match a with
  | .create => createStep s
  | .task alloc => taskStep alloc s
  | a =>
      match a.cmd with
      | none => none
      | some cmd =>
          if s.create = .done then some (s.queSend cmd) else none

def duerosMachine : Machine Sys Act := ⟨step⟩

/-! ## The property and the condition -/

/-- The command that a step handles. -/
def handles (s : Sys) : Act → Option Cmd
  | .task _ => if s.task = .loop ∧ s.taskRun then s.duerQue.head? else none
  | _ => none

/-- The step does not use NULL; it opens a session only if
`DUER_CMD_CONNECTED` was handled since the last `DUER_CMD_QUIT`; it handles
nothing behind a `DUER_CMD_DESTROY`, and with that leaves the loop. -/
structure Safe (s : Sys) (a : Act) : Prop where
  notNull : ∀ t, step s a = some t → t.task ≠ .crashed
  opens : handles s a = some .start → Opens s → s.connected = true
  last : ∀ cmd, handles s a = some cmd → s.destroyed = false
  leaves : handles s a = some .destroy →
    ∀ t, step s a = some t → t.taskRun = false

/-- The step uses the service structure that the task has read. -/
def uses (s : Sys) : Act → Prop
  | .task alloc => (s.task = .init ∧ alloc = true) ∨ s.task = .fail
  | _ => False

/-- The condition on a step.  The structure was attached when the task read it;
`DUER_CMD_START` is not handled behind a `DUER_CMD_STOP` unless the service is
connected; `DUER_CMD_DESTROY` is not handled. -/
structure StepOk (s : Sys) (a : Act) : Prop where
  attached : uses s a → s.attached = true
  start : handles s a = some .start → s.stopped = true → s.connected = true
  destroy : handles s a ≠ some .destroy

/-! ## The invariant -/

structure Inv (s : Sys) : Prop where
  userData : s.userData = decide (s.create = .setHandle ∨ s.create = .done)
  serv : s.serv = s.attached
  taskRun : s.taskRun = true
  destroyed : s.destroyed = false
  /-- Before the loop nothing was handled. -/
  fresh : s.task = .getData ∨ s.task = .init →
    s.connected = false ∧ s.stopped = false
  /-- The state is not below `SERVICE_STATE_CONNECTED` for one of two
  reasons. -/
  opens : s.task = .loop → (Opens s ↔ s.connected = true ∨ s.stopped = true)
  crashed : s.task ≠ .crashed

theorem Inv.start : Inv start where
  userData := rfl
  serv := rfl
  taskRun := rfl
  destroyed := rfl
  fresh := fun _ => ⟨rfl, rfl⟩
  opens := nofun
  crashed := nofun

/-- The two reasons, command by command. -/
theorem opens_handle {s : Sys} {cmd : Cmd} (hcmd : cmd ≠ .destroy)
    (h : Opens s ↔ s.connected = true ∨ s.stopped = true) :
    Opens ((s.handle cmd).record cmd) ↔
      ((s.handle cmd).record cmd).connected = true ∨
        ((s.handle cmd).record cmd).stopped = true := by
  cases cmd with
  | destroy => exact absurd rfl hcmd
  | connected => simp [Sys.handle, Sys.record, Opens, ServiceState.val]
  | stop => simp [Sys.handle, Sys.record, Opens, ServiceState.val]
  | quit =>
      by_cases hidle : s.duerState = .idle
      · simp [Sys.handle, Sys.record, Opens, ServiceState.val, hidle]
      · simp [Sys.handle, Sys.record, Opens, ServiceState.val, hidle]
  | login =>
      by_cases hidle : s.duerState = .idle
      · have hclosed : ¬Opens s := by simp [Opens, ServiceState.val, hidle]
        have hclosed' : ¬Opens { s with duerState := .connecting } := by
          simp [Opens, ServiceState.val]
        simp only [Sys.handle, Sys.record, if_pos hidle]
        exact iff_of_false hclosed' (mt h.2 hclosed)
      · simpa only [Sys.handle, Sys.record, if_neg hidle] using h
  | start =>
      by_cases hopen : Opens s
      · have hopen' : Opens { s with duerState := .running } := by
          simp [Opens, ServiceState.val]
        simp only [Sys.handle, Sys.record, if_pos hopen]
        exact iff_of_true hopen' (h.1 hopen)
      · simpa only [Sys.handle, Sys.record, if_neg hopen] using h

/-! ### What a step does -/

/-- Handling a command leaves alone what the creation and the task's pointer
are about. -/
structure SameService (s t : Sys) : Prop where
  create : t.create = s.create
  userData : t.userData = s.userData
  serv : t.serv = s.serv
  attached : t.attached = s.attached
  task : t.task = s.task

theorem SameService.of_handle (s : Sys) (cmd : Cmd) :
    SameService s ((s.handle cmd).record cmd) := by
  cases cmd with
  | login =>
      by_cases hidle : s.duerState = .idle
      · simp only [Sys.handle, Sys.record, if_pos hidle]
        exact ⟨rfl, rfl, rfl, rfl, rfl⟩
      · simp only [Sys.handle, Sys.record, if_neg hidle]
        exact ⟨rfl, rfl, rfl, rfl, rfl⟩
  | start =>
      by_cases hopen : Opens s
      · simp only [Sys.handle, Sys.record, if_pos hopen]
        exact ⟨rfl, rfl, rfl, rfl, rfl⟩
      · simp only [Sys.handle, Sys.record, if_neg hopen]
        exact ⟨rfl, rfl, rfl, rfl, rfl⟩
  | quit =>
      by_cases hidle : s.duerState ≠ .idle
      · simp only [Sys.handle, Sys.record, if_pos hidle]
        exact ⟨rfl, rfl, rfl, rfl, rfl⟩
      · simp only [Sys.handle, Sys.record, if_neg hidle]
        exact ⟨rfl, rfl, rfl, rfl, rfl⟩
  | _ => exact ⟨rfl, rfl, rfl, rfl, rfl⟩

/-- Only `DUER_CMD_DESTROY` is about the end of the task. -/
theorem handle_destroyed {s : Sys} {cmd : Cmd} (hcmd : cmd ≠ .destroy) :
    ((s.handle cmd).record cmd).taskRun = s.taskRun ∧
      ((s.handle cmd).record cmd).destroyed = s.destroyed := by
  cases cmd with
  | destroy => exact absurd rfl hcmd
  | connected => exact ⟨rfl, rfl⟩
  | stop => exact ⟨rfl, rfl⟩
  | _ =>
      simp only [Sys.handle, Sys.record]
      split
      · exact ⟨rfl, rfl⟩
      · exact ⟨rfl, rfl⟩

/-- Everything but the creation and the task only sends. -/
theorem step_sends {s t : Sys} {a : Act} (hcreate : a ≠ .create)
    (htask : ∀ alloc, a ≠ .task alloc) (hs : step s a = some t) :
    ∃ cmd, t = s.queSend cmd := by
  cases a with
  | create => exact absurd rfl hcreate
  | task alloc => exact absurd rfl (htask alloc)
  | _ =>
      simp only [step, Act.cmd, Option.ite_none_right_eq_some] at hs
      obtain ⟨-, hs⟩ := hs
      exact ⟨_, (Option.some.inj hs).symm⟩

theorem Inv.queSend {s : Sys} (h : Inv s) (cmd : Cmd) : Inv (s.queSend cmd) := by
  rw [Sys.queSend]
  split
  · exact ⟨h.userData, h.serv, h.taskRun, h.destroyed, h.fresh, h.opens,
      h.crashed⟩
  · exact h

theorem Inv.create {s t : Sys} (h : Inv s) (hs : createStep s = some t) :
    Inv t := by
  have huser := h.userData
  unfold createStep at hs
  split at hs
  case h_1 hpc =>
      cases hs
      refine ⟨?_, h.serv, h.taskRun, h.destroyed, h.fresh, h.opens, h.crashed⟩
      simpa [hpc] using huser
  case h_2 hpc =>
      cases hs
      exact ⟨rfl, h.serv, h.taskRun, h.destroyed, h.fresh, h.opens, h.crashed⟩
  case h_3 hpc =>
      cases hs
      refine ⟨?_, h.serv, h.taskRun, h.destroyed, h.fresh, h.opens, h.crashed⟩
      simpa [hpc] using huser
  case h_4 => contradiction

/-- The task handles a command. -/
theorem Inv.handle {s : Sys} (h : Inv s) (hloop : s.task = .loop) {cmd : Cmd}
    (hcmd : cmd ≠ .destroy) (rest : List Cmd) :
    Inv (({ s with duerQue := rest }.handle cmd).record cmd) := by
  have hsame := SameService.of_handle { s with duerQue := rest } cmd
  have hkept := handle_destroyed (s := { s with duerQue := rest }) hcmd
  refine ⟨?_, ?_, ?_, ?_, ?_, ?_, ?_⟩
  · rw [hsame.userData, hsame.create]
    exact h.userData
  · rw [hsame.serv, hsame.attached]
    exact h.serv
  · rw [hkept.1]
    exact h.taskRun
  · rw [hkept.2]
    exact h.destroyed
  · rw [hsame.task]
    intro hbefore
    exact absurd hbefore (by simp [hloop])
  · intro _
    exact opens_handle hcmd (h.opens hloop)
  · rw [hsame.task]
    exact h.crashed

theorem Inv.task {s t : Sys} {alloc : Bool} (h : Inv s)
    (hok : StepOk s (.task alloc)) (hs : taskStep alloc s = some t) :
    Inv t := by
  unfold taskStep at hs
  split at hs
  case h_1 htask =>
      cases hs
      exact ⟨h.userData, h.userData, h.taskRun, h.destroyed,
        fun _ => h.fresh (.inl htask), nofun, nofun⟩
  case h_2 htask =>
      have hfresh := h.fresh (.inr htask)
      split at hs
      · rename_i halloc
        have hserv : s.serv = true :=
          h.serv.trans (hok.attached (.inl ⟨htask, halloc⟩))
        rw [if_pos hserv] at hs
        cases hs
        refine ⟨h.userData, h.serv, h.taskRun, h.destroyed, nofun, ?_, nofun⟩
        intro _
        simp [Opens, ServiceState.val, hfresh]
      · cases hs
        exact ⟨h.userData, h.serv, h.taskRun, h.destroyed, nofun, nofun, nofun⟩
  case h_3 htask =>
      rw [if_pos h.taskRun] at hs
      split at hs
      · contradiction
      · rename_i cmd rest hque
        cases hs
        have hcmd : cmd ≠ .destroy := by
          rintro rfl
          refine hok.destroy ?_
          simp [handles, htask, h.taskRun, hque]
        exact h.handle htask hcmd rest
  case h_4 htask =>
      have hserv : s.serv = true := h.serv.trans (hok.attached (.inr htask))
      rw [if_pos hserv] at hs
      cases hs
      exact ⟨h.userData, h.serv, h.taskRun, h.destroyed, nofun, nofun, nofun⟩
  case h_5 => contradiction
  case h_6 => contradiction

theorem Inv.step {s t : Sys} {a : Act} (h : Inv s) (hok : StepOk s a)
    (hs : duerosMachine.step s a = some t) : Inv t := by
  by_cases hcreate : a = .create
  · subst hcreate
    exact h.create hs
  · by_cases htask : ∃ alloc, a = .task alloc
    · obtain ⟨alloc, rfl⟩ := htask
      exact h.task hok hs
    · simp only [not_exists] at htask
      obtain ⟨cmd, rfl⟩ := step_sends hcreate htask hs
      exact h.queSend cmd

/-! ## Every sequence and interleaving -/

/-- A step of the task uses NULL exactly when it uses what it has read, and
that is NULL. -/
theorem task_notNull_iff (alloc : Bool) (s : Sys) :
    (∀ t, taskStep alloc s = some t → t.task ≠ .crashed) ↔
      (uses s (.task alloc) → s.serv = true) := by
  unfold taskStep uses
  cases htask : s.task with
  | getData => simp
  | init =>
      cases alloc with
      | true => cases hserv : s.serv <;> simp
      | false => simp
  | loop =>
      simp only [reduceCtorEq, false_and, or_self, false_imp_iff, iff_true]
      intro t hs
      split at hs
      · split at hs
        · contradiction
        · obtain rfl := Option.some.inj hs
          rw [(SameService.of_handle _ _).task]
          simp
      · obtain rfl := Option.some.inj hs
        simp
  | fail => cases hserv : s.serv <;> simp
  | gone => simp
  | crashed => simp

/-- A step uses NULL exactly when the structure was not attached. -/
theorem notNull_iff {s : Sys} (h : Inv s) (a : Act) :
    (∀ t, step s a = some t → t.task ≠ .crashed) ↔
      (uses s a → s.attached = true) := by
  by_cases htask : ∃ alloc, a = .task alloc
  · obtain ⟨alloc, rfl⟩ := htask
    rw [← h.serv]
    exact task_notNull_iff alloc s
  · simp only [not_exists] at htask
    refine iff_of_true (fun t hs => ?_) fun huses => ?_
    · by_cases hcreate : a = .create
      · subst hcreate
        exact (h.create hs).crashed
      · obtain ⟨cmd, rfl⟩ := step_sends hcreate htask hs
        exact (h.queSend cmd).crashed
    · cases a with
      | task alloc => exact absurd rfl (htask alloc)
      | _ => contradiction

/-- A command is handled in the loop. -/
theorem handles_loop {s : Sys} {a : Act} {cmd : Cmd}
    (h : handles s a = some cmd) :
    ∃ alloc rest, a = .task alloc ∧ s.task = .loop ∧ s.taskRun = true ∧
      s.duerQue = cmd :: rest := by
  cases a with
  | task alloc =>
      rw [handles, Option.ite_none_right_eq_some] at h
      obtain ⟨⟨hloop, hrun⟩, hhead⟩ := h
      obtain ⟨rest, hque⟩ := List.head?_eq_some_iff.1 hhead
      exact ⟨alloc, rest, rfl, hloop, hrun, hque⟩
  | _ => contradiction

/-- `DUER_CMD_DESTROY` does not end the loop. -/
theorem not_leaves {s : Sys} {a : Act} (h : handles s a = some .destroy) :
    ∃ t, step s a = some t ∧ t.taskRun = true := by
  obtain ⟨alloc, rest, rfl, hloop, hrun, hque⟩ := handles_loop h
  refine ⟨({ s with duerQue := rest }.handle .destroy).record .destroy, ?_, rfl⟩
  rw [step, taskStep, hloop, hque, hrun]
  rfl

/-- One step is as it should be exactly when it meets the condition. -/
theorem safe_iff {s : Sys} (h : Inv s) (a : Act) : Safe s a ↔ StepOk s a := by
  have hnull := notNull_iff h a
  constructor
  · intro hsafe
    refine ⟨hnull.1 hsafe.notNull, ?_, ?_⟩
    · intro hstart hstopped
      obtain ⟨-, -, -, hloop, -, -⟩ := handles_loop hstart
      exact hsafe.opens hstart ((h.opens hloop).2 (.inr hstopped))
    · intro hdestroy
      obtain ⟨t, hs, hrun⟩ := not_leaves hdestroy
      rw [hsafe.leaves hdestroy t hs] at hrun
      contradiction
  · intro hok
    refine ⟨hnull.2 hok.attached, ?_, fun _ _ => h.destroyed,
      fun hdestroy => absurd hdestroy hok.destroy⟩
    intro hstart hopen
    obtain ⟨-, -, -, hloop, -, -⟩ := handles_loop hstart
    rcases (h.opens hloop).1 hopen with hconnected | hstopped
    · exact hconnected
    · exact hok.start hstart hstopped

/-- **The service has the life cycle that is meant,** in every sequence of
commands and events, and every interleaving with its creation, that meets the
condition, and in no other. -/
theorem life_cycle_iff (as : List Act) :
    duerosMachine.Meets Safe start as ↔ duerosMachine.Meets StepOk start as :=
  Machine.meets_congr (fun _ a h => safe_iff h a)
    (fun _ _ _ h hok hs => h.step hok hs) Inv.start as

/-- If the loop were left, the task would release the queue and the
structure. -/
theorem left_loop_releases {s : Sys} (hloop : s.task = .loop)
    (hserv : s.serv = true) (hrun : s.taskRun = false) (alloc : Bool) :
    ∃ t, duerosMachine.run s [.task alloc, .task alloc] = some t ∧
      t.task = .gone ∧ t.released = true := by
  refine ⟨{ s with task := .gone, released := true }, ?_, rfl, rfl⟩
  simp [Machine.run_cons, duerosMachine, step, taskStep, hloop, hrun, hserv]

/-! ## Three runs -/

/-- The service is created, and the task enters its loop. -/
def created : List Act :=
  [.create, .create, .create, .task true, .task true]

/-- The task is faster than its creator; a session is opened behind a stop,
with no connection; and a command is handled behind the destruction. -/
theorem life_cycle_fails :
    ((duerosMachine.run start [.task true, .task true]).map fun s => s.task) =
        some .crashed ∧
      ((duerosMachine.run start
          (created ++ [.stop, .start, .task true, .task true])).map fun s =>
        (s.duerState, s.connected)) = some (.running, false) ∧
      ((duerosMachine.run start
          (created ++ [.destroy, .connect, .task true, .task true])).map
        fun s => (s.duerState, s.destroyed, s.released)) =
        some (.connecting, true, false) := by
  decide +kernel

end EspAdf.Ports.DuerosService
