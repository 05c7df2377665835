import EspAdf.Verified.Machine

/-!
# `audio_element.c`: the element task and its clients

An element with a task: `audio_element_task` takes commands from the internal
queue, handles them in `audio_element_on_cmd` and, between two commands, runs
`audio_element_process_state_running`.  Any number of clients call
`audio_element_resume`, `_pause`, `_stop`, `_wait_for_stop`, `_reset_state`
and `_terminate` meanwhile.  Nothing of this takes a lock.

The task is a list of operations still to execute, `todo`, so an action is
one access to shared state: a handler is expanded when its command is
dequeued, and branches on what it reads at that moment.  The callbacks
`open`, `close` and `process` may do what `audio_element_input` and
`audio_element_output` do on their behalf (report and send `ERROR`, send
`PAUSE`, call `audio_element_stop`), may call `audio_element_reset_state`, and return
any value; these choices come with the action.

Ring buffers are modelled in `RingBuf`; an operation on one changes nothing
here.  A few fields of `Element` record history that no operation reads.
-/

namespace EspAdf.Ports.AudioElement

open EspAdf.Verified

/-! ## Data -/

/-- `audio_element_state_t`. -/
inductive State where
  | none
  | init
  | running
  | paused
  | stopped
  | finished
  | error
  deriving DecidableEq, Repr

/-- The value of the enumerator, for the comparisons of the source. -/
def State.value : State → Nat
  | .none => 0
  | .init => 1
  | .running => 2
  | .paused => 3
  | .stopped => 4
  | .finished => 5
  | .error => 6

/-- The commands of `audio_element_msg_cmd_t` that reach
`audio_element_on_cmd`. -/
inductive Cmd where
  | error
  | finish
  | stop
  | pause
  | resume
  | destroy
  deriving DecidableEq, Repr

/-- The statuses that the element itself reports. -/
inductive Status where
  | errorOpen
  | errorInput
  | errorProcess
  | errorOutput
  | stateRunning
  | statePaused
  | stateStopped
  deriving DecidableEq, Repr

/-- A queued command; `self` records whether the element task sent it. -/
structure Msg where
  cmd : Cmd
  self : Bool
  deriving DecidableEq, Repr

/-- The waiting time for commands: the loop polls or blocks. -/
inductive WaitTime where
  | zero
  | maxDelay
  deriving DecidableEq, Repr

/-- The bits of `state_event`. -/
inductive Bit where
  | stopped
  | started
  | created
  | destroyed
  | paused
  deriving DecidableEq, Repr

/-- An assignment to a field, or a report. -/
inductive Write where
  | taskRun (b : Bool)
  | state (s : State)
  | waitTime (w : WaitTime)
  | isRunning (b : Bool)
  | isOpen (b : Bool)
  | bit (b : Bit) (v : Bool)
  | report (s : Status)
  deriving DecidableEq, Repr

/-- An operation of the element task. -/
inductive Op where
  | write (w : Write)
  /-- `audio_element_cmd_send` by the task itself. -/
  | send (c : Cmd)
  /-- An operation on the ring buffers. -/
  | ringbuf
  /-- The allocation of `el->buf`. -/
  | mallocBuf
  /-- The callbacks. -/
  | callOpen
  | callClose
  | callProcess
  /-- `audio_element_on_cmd` returns `ESP_OK` or not. -/
  | ret (ok : Bool)
  /-- The guard of `audio_element_process_state_running`. -/
  | testProcess
  /-- `process` returned `AEL_IO_DONE` or `AEL_IO_OK`. -/
  | testInit
  /-- `audio_element_resume(el, 0, 0)` by the task itself. -/
  | resumeSelf
  /-- `audio_element_stop(el)` by a callback. -/
  | stopSelf
  /-- `while (el->task_run)`. -/
  | loop
  /-- `audio_event_iface_waiting_cmd_msg`. -/
  | recv
  deriving DecidableEq, Repr

@[simp] def setTaskRun (b : Bool) : Op := .write (.taskRun b)
@[simp] def setState (s : State) : Op := .write (.state s)
@[simp] def setWait (w : WaitTime) : Op := .write (.waitTime w)
@[simp] def setRunning (b : Bool) : Op := .write (.isRunning b)
@[simp] def setOpen (b : Bool) : Op := .write (.isOpen b)
@[simp] def setBits (b : Bit) : Op := .write (.bit b true)
@[simp] def clearBits (b : Bit) : Op := .write (.bit b false)
@[simp] def report (s : Status) : Op := .write (.report s)

/-- Which callbacks the element has, and the size of its command queue. -/
structure Config where
  hasOpen : Bool
  hasClose : Bool
  internalQueueSize : Nat
  deriving DecidableEq, Repr

structure Element where
  isOpen : Bool
  isRunning : Bool
  taskRun : Bool
  state : State
  waitTime : WaitTime
  stoppedBit : Bool
  startedBit : Bool
  createdBit : Bool
  destroyedBit : Bool
  pausedBit : Bool
  /-- The internal queue, oldest first. -/
  cmds : List Msg
  /-- What was reported so far. -/
  reports : List Status
  todo : List Op
  /-- History: the command being handled. -/
  handling : Option Msg
  /-- History: a `STOP` was handled, and no client's `RESUME` since. -/
  stopHandled : Bool
  /-- History: `AEL_STATUS_STATE_STOPPED` reports since the last `RESUME`. -/
  stopReports : Nat
  /-- History: the commands that clients sent. -/
  sent : List Cmd
  deriving DecidableEq, Repr

/-! ## Sending a command -/

/-- `audio_event_iface_cmd`: fails on a full queue. -/
def Element.cmdSend (cfg : Config) (el : Element) (m : Msg) :
    Element × Bool :=
  if el.cmds.length < cfg.internalQueueSize then
    ({ el with cmds := el.cmds ++ [m] }, true)
  else (el, false)

def Element.setBit (el : Element) (b : Bit) (v : Bool) : Element :=
  match b with
  | .stopped => { el with stoppedBit := v }
  | .started => { el with startedBit := v }
  | .created => { el with createdBit := v }
  | .destroyed => { el with destroyedBit := v }
  | .paused => { el with pausedBit := v }

/-- `audio_element_report_status`. -/
def Element.reportStatus (el : Element) (s : Status) : Element :=
  { el with
    reports := el.reports ++ [s]
    stopReports :=
      if s = .stateStopped then el.stopReports + 1 else el.stopReports }

def Write.apply (el : Element) : Write → Element
  | .taskRun b => { el with taskRun := b }
  | .state s => { el with state := s }
  | .waitTime w => { el with waitTime := w }
  | .isRunning b => { el with isRunning := b }
  | .isOpen b => { el with isOpen := b }
  | .bit b v => el.setBit b v
  | .report s => el.reportStatus s

/-! ## The task's programs -/

/-- `if (el->is_open && el->close) { el->close(el); el->is_open = false; }` -/
def closeOps (cfg : Config) (el : Element) : List Op :=
  if el.isOpen && cfg.hasClose then [.callClose, setOpen false] else []

/-- The end of the `AEL_MSG_CMD_RESUME` case. -/
def resumedOps : List Op :=
  [setWait .zero, clearBits .stopped, setRunning true, .ret true]

/-- `audio_element_on_cmd`, up to a callback's return. -/
def onCmd (cfg : Config) (el : Element) : Cmd → List Op
  | .error => closeOps cfg el ++
      [setState .error, setWait .maxDelay, .ringbuf, .ringbuf,
        setRunning false, setBits .stopped, .ret true]
  | .finish => closeOps cfg el ++
      [setState .finished, setWait .maxDelay, report .stateStopped,
        setBits .stopped, setRunning false, .ret true]
  | .stop =>
      if el.state ≠ .finished ∧ el.state ≠ .stopped then
        closeOps cfg el ++
          [.ringbuf, .ringbuf, setState .stopped, setWait .maxDelay,
            report .stateStopped, setBits .stopped, setRunning false,
            .ret true]
      else [setState .stopped, setBits .stopped, .ret true]
  | .pause => [setState .paused] ++ closeOps cfg el ++
      [setWait .maxDelay, report .statePaused, setRunning false,
        setBits .paused, .ret true]
  | .resume =>
      if el.state = .running then [setRunning true, .ret true]
      else
        (if el.state ≠ .init ∧ el.state ≠ .running ∧ el.state ≠ .paused then
          [.ringbuf] else []) ++
        -- `audio_element_process_state_init`
        (if cfg.hasOpen then [setOpen true, .callOpen]
          else [setOpen true, setBits .started] ++ resumedOps)
  | .destroy => [setTaskRun false, setRunning false, .ret false]

/-- `audio_element_process_state_init` after `open` has returned. -/
def openReturned : Bool → List Op
  | true =>
      [setState .running, report .stateRunning, setBits .started] ++
        resumedOps
  | false =>
      [report .errorOpen, .send .error, .ringbuf, .ringbuf, .ret false]

def AEL_IO_FAIL : Int := -1
def AEL_IO_OK : Int := 0
def AEL_IO_DONE : Int := -2
def AEL_IO_ABORT : Int := -3
def AEL_IO_TIMEOUT : Int := -4
def AEL_PROCESS_FAIL : Int := -5

/-- `audio_element_process_state_running` after `process` has returned. -/
def processReturned (len : Int) : List Op :=
  if len > 0 then []
  else if len = AEL_IO_DONE ∨ len = AEL_IO_OK then [.testInit]
  else if len = AEL_IO_FAIL ∨ len = AEL_PROCESS_FAIL then
    [report .errorProcess, .send .error]
  else []

/-- The end of `audio_element_task`. -/
def exitOps (cfg : Config) (el : Element) : List Op :=
  closeOps cfg el ++ [setBits .destroyed, setTaskRun false]

/-- What follows `audio_event_iface_waiting_cmd_msg` returning `ESP_OK`. -/
def processOps : List Op := [.testProcess, .loop]

/-- The start of `audio_element_task`. -/
def taskOps : List Op :=
  [setTaskRun true, setBits .created, setState .init, setWait .maxDelay,
    .mallocBuf, clearBits .stopped, .loop]

/-! ## One action of the task -/

/-- What a callback may do before it returns. -/
inductive Effect where
  /-- An input fails: `AEL_STATUS_ERROR_INPUT` and `AEL_MSG_CMD_ERROR`. -/
  | inputFail
  | outputFail
  /-- An output times out, or an input or output returns an unknown value. -/
  | sendPause
  /-- An input or output is aborted: `audio_element_stop(el)`. -/
  | stop
  /-- `audio_element_reset_state(el)`. -/
  | resetState
  deriving DecidableEq, Repr

/-- What the environment answers an operation. -/
inductive Answer where
  | go
  /-- A callback goes on. -/
  | effect (e : Effect)
  /-- `open` and the allocation succeed or fail, `close` returns. -/
  | ok (b : Bool)
  /-- `process` returns. -/
  | len (n : Int)
  deriving DecidableEq, Repr

def Effect.ops : Effect → List Op
  | .inputFail => [report .errorInput, .send .error]
  | .outputFail => [report .errorOutput, .send .error]
  | .sendPause => [.send .pause]
  | .stop => [.ringbuf, .stopSelf]
  | .resetState => [setState .init]

/-- The task takes the next command, polls, or blocks. -/
def recvStep (cfg : Config) (el : Element) : Option Element :=
  match el.cmds with
  | m :: rest => some { el with
      cmds := rest
      todo := onCmd cfg el m.cmd
      handling := some m
      stopHandled :=
        if m = ⟨.resume, false⟩ then false else el.stopHandled
      stopReports := if m.cmd = .resume then 0 else el.stopReports }
  | [] =>
      if el.waitTime = .zero then some { el with todo := processOps }
      else none

/-- `audio_element_on_cmd` returns. -/
def retStep (cfg : Config) (el : Element) (ok : Bool) : Element :=
  let stop := match el.handling with
    | some m => decide (m.cmd = .stop)
    | none => false
  { el with
    todo := if ok then processOps else exitOps cfg el
    handling := none
    stopHandled := el.stopHandled || stop }

/-- One operation of the task; `rest` is what follows it. -/
def opStep (cfg : Config) (el : Element) (op : Op) (rest : List Op)
    (a : Answer) : Option Element :=
  let go (el : Element) : Option Element := some { el with todo := rest }
  let run (ops : List Op) : Option Element :=
    some { el with todo := ops ++ rest }
  match op, a with
  | .write w, .go => go (w.apply el)
  | .send c, .go => go (el.cmdSend cfg ⟨c, true⟩).1
  | .ringbuf, .go => go el
  | .mallocBuf, .ok true => go el
  | .mallocBuf, .ok false => go { el with taskRun := false }
  | .callOpen, .ok b => some { el with todo := openReturned b }
  | .callOpen, .effect e => run (e.ops ++ [.callOpen])
  | .callClose, .ok _ => go el
  | .callClose, .effect e => run (e.ops ++ [.callClose])
  | .callProcess, .len n => run (processReturned n)
  | .callProcess, .effect e => run (e.ops ++ [.callProcess])
  | .ret ok, .go => some (retStep cfg el ok)
  | .testProcess, .go =>
      if el.state.value < State.running.value ∨ el.isOpen = false then go el
      else run [.callProcess]
  | .testInit, .go =>
      if el.state = .init then
        run [setOpen false, setRunning false, .resumeSelf]
      else run [.ringbuf, .send .finish]
  | .resumeSelf, .go =>
      if el.taskRun = false ∨ el.isRunning ∨ el.state = .running ∨
          el.state = .error ∨ el.state = .finished then go el
      else run [.send .resume]
  | .stopSelf, .go =>
      if el.taskRun = false ∨ el.state = .stopped then go el
      else run [.send .stop]
  | .loop, .go =>
      some { el with todo := if el.taskRun then [.recv] else exitOps cfg el }
  | .recv, .go => recvStep cfg el
  | _, _ => none

def taskStep (cfg : Config) (el : Element) (a : Answer) : Option Element :=
  match el.todo with
  | [] => none
  | op :: rest => opStep cfg el op rest a

/-! ## The clients -/

def ESP_OK : Int := 0
def ESP_FAIL : Int := -1

/-- `wait_for_rb_threshold`: zero, a fraction to wait for, or out of
range. -/
inductive Threshold where
  | zero
  | wait
  | invalid
  deriving DecidableEq, Repr

inductive Call where
  | resume (t : Threshold)
  | pause
  | stop
  | waitForStop
  | resetState
  | terminate
  deriving DecidableEq, Repr

/-- What a client's call does next. -/
inductive CallPc where
  | resumeTaskRun (t : Threshold)
  | resumeIsRunning (t : Threshold)
  | resumeState (t : Threshold)
  | resumeError (t : Threshold)
  | resumeFinished (t : Threshold)
  | resumeThreshold (t : Threshold)
  | resumeSend (t : Threshold)
  | resumeWait
  | pauseTaskRun
  | pauseState
  | pauseClear
  | pauseSend
  | pauseWait
  | stopTaskRun
  | stopState
  | stopSend
  | waitForStop
  | resetState
  | terminateTaskRun
  | terminateClear
  | terminateSend
  | terminateWait
  deriving DecidableEq, Repr

def Call.start : Call → CallPc
  | .resume t => .resumeTaskRun t
  | .pause => .pauseTaskRun
  | .stop => .stopTaskRun
  | .waitForStop => .waitForStop
  | .resetState => .resetState
  | .terminate => .terminateTaskRun

/-- A call goes on or returns. -/
inductive CallOut where
  | next (pc : CallPc)
  | done (err : Int)
  deriving DecidableEq, Repr

/-- A client's `audio_element_cmd_send`. -/
def Element.clientSend (cfg : Config) (el : Element) (c : Cmd) :
    Element × Bool :=
  match el.cmdSend cfg ⟨c, false⟩ with
  | (el', true) => ({ el' with sent := el'.sent ++ [c] }, true)
  | (el', false) => (el', false)

/-- A bounded wait for a bit: over when the bit is set or the time is. -/
def waitBits (el : Element) (bit : Bool) (timeout : Bool) :
    Option (Element × CallOut) :=
  if bit then some (el, .done ESP_OK)
  else if timeout then some (el, .done ESP_FAIL) else none

/-- The next action of a client's call; `timeout` says whether a bounded wait
is over. -/
def callNext (cfg : Config) (el : Element) (timeout : Bool) :
    CallPc → Option (Element × CallOut)
  | .resumeTaskRun t =>
      if el.taskRun then some (el, .next (.resumeIsRunning t))
      else some (el, .done ESP_FAIL)
  | .resumeIsRunning t =>
      if el.isRunning then some (el, .done ESP_OK)
      else some (el, .next (.resumeState t))
  | .resumeState t =>
      if el.state = .running then some (el, .done ESP_OK)
      else some (el, .next (.resumeError t))
  | .resumeError t =>
      if el.state = .error then some (el, .done ESP_FAIL)
      else some (el, .next (.resumeFinished t))
  | .resumeFinished t =>
      if el.state = .finished then some (el, .done ESP_OK)
      else some (el, .next (.resumeThreshold t))
  | .resumeThreshold t =>
      if t = .invalid then some (el, .done ESP_FAIL)
      else some (el, .next (.resumeSend t))
  | .resumeSend t =>
      let el' := (el.clientSend cfg .resume).1
      if t = .wait then some (el', .next .resumeWait)
      else some (el', .done ESP_OK)
  | .resumeWait =>
      some (el, .done (if timeout then ESP_FAIL else ESP_OK))
  | .pauseTaskRun =>
      if el.taskRun then some (el, .next .pauseState)
      else some (el, .done ESP_FAIL)
  | .pauseState =>
      if el.state.value ≥ State.paused.value then some (el, .done ESP_OK)
      else some (el, .next .pauseClear)
  | .pauseClear => some (el.setBit .paused false, .next .pauseSend)
  | .pauseSend =>
      match el.clientSend cfg .pause with
      | (el', true) => some (el', .next .pauseWait)
      | (el', false) => some (el', .done ESP_FAIL)
  | .pauseWait => waitBits el el.pausedBit timeout
  | .stopTaskRun =>
      if el.taskRun then some (el, .next .stopState)
      else some (el, .done ESP_FAIL)
  | .stopState =>
      if el.state = .stopped then some (el, .done ESP_OK)
      else some (el, .next .stopSend)
  | .stopSend =>
      match el.clientSend cfg .stop with
      | (el', true) => some (el', .done ESP_OK)
      | (el', false) => some (el', .done ESP_FAIL)
  | .waitForStop => waitBits el el.stoppedBit timeout
  | .resetState => some ({ el with state := .init }, .done ESP_OK)
  | .terminateTaskRun =>
      if el.taskRun then some (el, .next .terminateClear)
      else some (el, .done ESP_OK)
  | .terminateClear =>
      some (el.setBit .destroyed false, .next .terminateSend)
  | .terminateSend =>
      match el.clientSend cfg .destroy with
      | (el', true) => some (el', .next .terminateWait)
      | (el', false) => some (el', .done ESP_FAIL)
  | .terminateWait => waitBits el el.destroyedBit timeout

/-! ## The system -/

/-- The element, the calls in progress, and the calls that have returned. -/
structure Sys where
  el : Element
  clients : List (Call × CallPc)
  returned : List (Call × Int)
  deriving DecidableEq, Repr

inductive Act where
  | task (a : Answer)
  | clientStart (c : Call)
  | clientStep (i : Nat) (timeout : Bool)
  deriving DecidableEq, Repr

def sysStep (cfg : Config) (s : Sys) : Act → Option Sys
  | .task a => (taskStep cfg s.el a).map fun el => { s with el := el }
  | .clientStart c =>
      some { s with clients := s.clients ++ [(c, c.start)] }
  | .clientStep i timeout =>
      match s.clients[i]? with
      | none => none
      | some (c, pc) =>
          (callNext cfg s.el timeout pc).map fun (el, out) =>
            match out with
            | .next pc' =>
                { s with el := el, clients := s.clients.set i (c, pc') }
            | .done err => { s with
                el := el, clients := s.clients.eraseIdx i
                returned := s.returned ++ [(c, err)] }

def sysMachine (cfg : Config) : Machine Sys Act := ⟨sysStep cfg⟩

/-- A fresh element whose task `audio_element_run` has just created. -/
def Element.start : Element where
  isOpen := false
  isRunning := false
  taskRun := false
  state := .init
  waitTime := .maxDelay
  stoppedBit := false
  startedBit := false
  createdBit := false
  destroyedBit := false
  pausedBit := false
  cmds := []
  reports := []
  todo := taskOps
  handling := none
  stopHandled := false
  stopReports := 0
  sent := []

def Sys.start : Sys := ⟨.start, [], []⟩

/-! ## Pieces of schedules -/

/-- `AUDIO_EVENT_IFACE_DEFAULT_CFG` and all callbacks. -/
def defaultConfig : Config := ⟨true, true, 5⟩

def taskGo (n : Nat) : List Act := List.replicate n (.task .go)

def clientGo (i n : Nat) : List Act :=
  List.replicate n (.clientStep i false)

/-- The task comes up to its first wait for a command. -/
def startUp : List Act := taskGo 4 ++ [.task (.ok true)] ++ taskGo 2

/-- A client resumes a fresh element, and the task polls, running. -/
def runElement : List Act :=
  startUp ++ [.clientStart (.resume .zero)] ++ clientGo 0 7 ++ taskGo 2 ++
    [.task (.ok true)] ++ taskGo 7

end EspAdf.Ports.AudioElement
