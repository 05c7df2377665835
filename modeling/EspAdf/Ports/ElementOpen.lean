import EspAdf.Ports.ElementMoves

/-!
# A failing `open`

When `open` fails, `audio_element_process_state_init` queues
`AEL_MSG_CMD_ERROR`, whose handler would set `AEL_STATE_ERROR` and
`STOPPED_BIT`.  But the `RESUME` handler returns `ESP_FAIL` as well,
`audio_event_iface_waiting_cmd_msg` passes that on, and the task leaves its
loop: the queued `ERROR` is never handled, and the task exits in the state in
which it found the element.

`open_failure_reported` says when the element nevertheless ends in the error
state: exactly when it already was in it as `open` failed, and nobody calls
`audio_element_reset_state` afterwards.
-/

namespace EspAdf.Ports.AudioElement

open EspAdf.Verified

/-! ## The error state comes with `STOPPED_BIT` -/

/-- When the task is done with what it is doing, an element in the error
state is marked as stopped and not running. -/
def ErrorMarked (el : Element) : Prop :=
  stateField.final el = .error →
    stoppedField.final el = true ∧ runningField.final el = false

theorem errorMarked_expand {el : Element} {op : Op} {rest ops : List Op}
    {a : Answer} (h : ErrorMarked el) (htodo : el.todo = op :: rest)
    (he : Expands el op a ops) :
    ErrorMarked { el with todo := ops ++ rest } := by
  simp only [ErrorMarked, Field.final, htodo] at h
  intro herr
  have herr : stateField.after (ops ++ rest) el.state = .error := herr
  have hold : stateField.after (op :: rest) el.state = .error := by
    rcases he.state_after rest el.state with heq | ⟨-, heq⟩
    · rw [← heq, herr]
    · rw [heq] at herr
      rcases state_after_init (op :: rest) el.state with hkeep | hinit
      · rw [← hkeep, herr]
      · rw [hinit] at herr
        cases herr
  obtain ⟨hstopped, hrunning⟩ := h hold
  constructor
  · show stoppedField.after (ops ++ rest) el.stoppedBit = true
    rw [he.stopped_after]
    exact hstopped
  · show runningField.after (ops ++ rest) el.isRunning = false
    rcases he.running_after rest el.isRunning with heq | ⟨-, -, heq⟩
    · rw [heq]
      exact hrunning
    · rw [heq]
      rcases running_after_false (op :: rest) el.isRunning with hkeep | hfalse
      · rw [hkeep]
        exact hrunning
      · exact hfalse

theorem errorMarked_recv {cfg : Config} (hopen : cfg.hasOpen = true)
    {el : Element} {m : Msg} {more : List Msg} {rest : List Op}
    (h : ErrorMarked el) (htodo : el.todo = .recv :: rest)
    (stopHandled : Bool) (stopReports : Nat) :
    ErrorMarked { el with
      cmds := more, todo := onCmd cfg el m.cmd, handling := some m
      stopHandled := stopHandled, stopReports := stopReports } := by
  simp only [ErrorMarked, Field.final, htodo, Field.after, stateField_get,
    stoppedField_get, runningField_get] at h ⊢
  rw [onCmd_state, onCmd_stopped, onCmd_running]
  intro herr
  cases hc : m.cmd with
  | error => simp
  | resume =>
      rw [hc] at herr
      obtain ⟨hstopped, hrunning⟩ := h herr
      simp [show el.state = .error from herr, hopen, hstopped, hrunning]
  | destroy =>
      rw [hc] at herr
      simp [(h herr).1]
  | _ =>
      rw [hc] at herr
      cases herr

theorem errorMarked_task {cfg : Config} (hopen : cfg.hasOpen = true)
    {el el' : Element} {a : Answer} (h : ErrorMarked el)
    (hm : TaskMove cfg el a el') : ErrorMarked el' := by
  cases hm with
  | write w rest htodo =>
      rw [ErrorMarked, Field.final_write _ htodo, Field.final_write _ htodo,
        Field.final_write _ htodo]
      exact h
  | send c rest htodo =>
      rw [ErrorMarked, Field.final_send _ htodo, Field.final_send _ htodo,
        Field.final_send _ htodo]
      exact h
  | mallocFail rest htodo =>
      simp only [ErrorMarked, Field.final, htodo] at h
      exact h
  | expand op rest a ops htodo he => exact errorMarked_expand h htodo he
  | opened b rest htodo =>
      simp only [ErrorMarked, Field.final, htodo] at h
      cases b with
      | true =>
          intro herr
          simp [Field.final, openReturned, resumedOps] at herr
      | false => exact h
  | ret ok rest htodo =>
      simp only [ErrorMarked, Field.final, htodo] at h
      cases ok with
      | true => exact h
      | false => simpa [ErrorMarked, Field.final, retStep, exitOps] using h
  | loop rest htodo =>
      simp only [ErrorMarked, Field.final, htodo] at h
      cases hrun : el.taskRun with
      | true => exact h
      | false => simpa [ErrorMarked, Field.final, exitOps] using h
  | recv m more rest htodo hc => exact errorMarked_recv hopen h htodo _ _
  | poll rest htodo hc hw =>
      simp only [ErrorMarked, Field.final, htodo] at h
      exact h

theorem errorMarked_client {cfg : Config} {el el' : Element} {pc : CallPc}
    (h : ErrorMarked el) (hm : ClientMove cfg el pc el') :
    ErrorMarked el' := by
  cases hm with
  | reset =>
      intro herr
      have herr : stateField.after el.todo .init = .error := herr
      rcases state_after_init el.todo el.state with hkeep | hinit
      · rw [hkeep] at herr
        exact h herr
      · rw [hinit] at herr
        cases herr
  | _ => exact h

/-- The invariant of every run of an element that has an `open`. -/
theorem errorMarked_reachable {cfg : Config} (hopen : cfg.hasOpen = true)
    {s : Sys} (hs : (sysMachine cfg).Reachable Sys.start s) :
    ErrorMarked s.el := by
  refine hs.invariant (I := fun s => ErrorMarked s.el) ?_ ?_
  · intro herr
    cases herr
  · intro u a v h hstep
    rcases sysStep_move hstep with ⟨ans, -, hm⟩ | ⟨c, -, hel⟩ |
      ⟨i, timeout, c, pc, -, -, hm⟩
    · exact errorMarked_task hopen h hm
    · rw [hel]
      exact h
    · exact errorMarked_client h hm

/-! ## A task on its way out -/

/-- What a task still does after it has left its loop, or is about to. -/
def Op.leaves : Op → Bool
  | .write (.state s) => s = .init
  | .write (.bit b _) => b ≠ .stopped
  | .write (.waitTime _) => false
  | .write (.isRunning _) => false
  | .write _ => true
  | .send _ => true
  | .ringbuf => true
  | .callClose => true
  | .stopSelf => true
  | .ret ok => !ok
  | _ => false

def Leaving (el : Element) : Prop := ∀ op ∈ el.todo, op.leaves = true

theorem leaving_write {el : Element} {w : Write} {rest : List Op}
    (h : Leaving el) (htodo : el.todo = .write w :: rest) :
    (w.apply el).stoppedBit = el.stoppedBit ∧
      (w.apply el).state =
        if el.todo.head? = some (setState .init) then .init else el.state := by
  have hw : (Op.write w).leaves = true := h _ (by simp [htodo])
  cases w with
  | state s =>
      have hinit : s = .init := by simpa [Op.leaves] using hw
      simp [Write.apply, htodo, hinit]
  | bit b v =>
      cases b with
      | stopped => simp [Op.leaves] at hw
      | _ => simp [Write.apply, Element.setBit, htodo]
  | _ => simp [Write.apply, Element.reportStatus, htodo]

theorem leaving_expand {el : Element} {op : Op} {a : Answer}
    {ops : List Op} (h : op.leaves = true) (he : Expands el op a ops) :
    ∀ op' ∈ ops, op'.leaves = true := by
  cases he with
  | closeEffect e => cases e <;> simp [Effect.ops, Op.leaves]
  | ringbuf => simp
  | closed b => simp
  | noStop => simp
  | stop hs => simp [Op.leaves]
  | _ => simp [Op.leaves] at h

/-- A task on its way out assigns the state only for
`audio_element_reset_state`, and `STOPPED_BIT` never. -/
theorem leaving_task {cfg : Config} {el el' : Element} {a : Answer}
    (h : Leaving el) (hm : TaskMove cfg el a el') :
    Leaving el' ∧ el'.stoppedBit = el.stoppedBit ∧
      el'.state =
        if el.todo.head? = some (setState .init) then .init else el.state := by
  have hrest : ∀ {op : Op} {rest : List Op}, el.todo = op :: rest →
      ∀ op' ∈ rest, op'.leaves = true :=
    fun htodo op' hop' => h op' (by simp [htodo, hop'])
  have hhead : ∀ {op : Op} {rest : List Op}, el.todo = op :: rest →
      op.leaves = true :=
    fun htodo => h _ (by simp [htodo])
  cases hm with
  | write w rest htodo => exact ⟨hrest htodo, leaving_write h htodo⟩
  | send c rest htodo =>
      refine ⟨hrest htodo, ?_, ?_⟩
      · rw [Element.cmdSend]
        split <;> rfl
      · rw [Element.cmdSend]
        split <;> simp [htodo]
  | mallocFail rest htodo => cases hhead htodo
  | expand op rest a ops htodo he =>
      refine ⟨?_, rfl, ?_⟩
      · intro op' hop'
        rcases List.mem_append.1 hop' with hops | hmem
        · exact leaving_expand (hhead htodo) he op' hops
        · exact hrest htodo op' hmem
      · rw [htodo]
        cases he <;> simp
  | opened b rest htodo => cases hhead htodo
  | ret ok rest htodo =>
      cases ok with
      | true => cases hhead htodo
      | false =>
          refine ⟨?_, rfl, by simp [retStep, htodo]⟩
          show ∀ op ∈ exitOps cfg el, op.leaves = true
          unfold exitOps closeOps
          split <;> simp [Op.leaves]
  | loop rest htodo => cases hhead htodo
  | recv m more rest htodo hc => cases hhead htodo
  | poll rest htodo hc hw => cases hhead htodo

theorem leaving_client {cfg : Config} {el el' : Element} {pc : CallPc}
    (h : Leaving el) (hm : ClientMove cfg el pc el') :
    Leaving el' ∧ el'.stoppedBit = el.stoppedBit ∧
      el'.state = if pc = .resetState then .init else el.state := by
  cases hm with
  | same pc hpc => exact ⟨h, rfl, by rw [if_neg hpc]⟩
  | send pc c hpc hroom =>
      refine ⟨h, rfl, ?_⟩
      rw [if_neg (fun hreset => by rw [hreset] at hpc; cases hpc)]
  | _ => exact ⟨h, rfl, rfl⟩

theorem leaving_step {cfg : Config} {s t : Sys} {a : Act}
    (h : Leaving s.el) (hstep : sysStep cfg s a = some t) :
    Leaving t.el ∧ t.el.stoppedBit = s.el.stoppedBit ∧
      t.el.state = if ResetsState s a then .init else s.el.state := by
  rcases sysStep_move hstep with ⟨ans, rfl, hm⟩ | ⟨c, rfl, hel⟩ |
    ⟨i, timeout, c, pc, rfl, hi, hm⟩
  · exact leaving_task h hm
  · rw [hel]
    exact ⟨h, rfl, by simp [ResetsState]⟩
  · simpa [ResetsState, hi] using leaving_client h hm

/-- Either nobody resets the state of a task on its way out and it stays as it
is, or it ends as `INIT`. -/
theorem leaving_run {cfg : Config} {as : List Act} {t u : Sys}
    (h : Leaving t.el) (hrun : (sysMachine cfg).run t as = some u) :
    Leaving u.el ∧ u.el.stoppedBit = t.el.stoppedBit ∧
      (((sysMachine cfg).runIf (fun v a => ¬ResetsState v a) t as = some u ∧
          u.el.state = t.el.state) ∨
        ((sysMachine cfg).runIf (fun v a => ¬ResetsState v a) t as = none ∧
          u.el.state = .init)) := by
  induction as generalizing t with
  | nil =>
      cases hrun
      exact ⟨h, rfl, .inl ⟨rfl, rfl⟩⟩
  | cons a as ih =>
      rw [Machine.run_cons, Option.bind_eq_some_iff] at hrun
      rcases hrun with ⟨v, hv, hrest⟩
      rcases leaving_step h hv with ⟨hleaving, hstopped, hstate⟩
      rcases ih hleaving hrest with ⟨hu, hustopped, hcases⟩
      refine ⟨hu, hustopped.trans hstopped, ?_⟩
      by_cases hreset : ResetsState t a
      · right
        rw [if_pos hreset] at hstate
        refine ⟨by simp [Machine.runIf, hreset], ?_⟩
        rcases hcases with ⟨-, hkeep⟩ | ⟨-, hinit⟩
        · rw [hkeep, hstate]
        · exact hinit
      · rw [if_neg hreset] at hstate
        simp only [Machine.runIf, hreset, not_false_eq_true, if_true, hv,
          Option.bind_some, ← hstate]
        exact hcases

/-! ## The outcome of a failed `open` -/

/-- The element task is blocked on an empty command queue, or has exited. -/
def Quiescent (el : Element) : Prop :=
  el.todo = [] ∨
    (el.todo = [.recv] ∧ el.cmds = [] ∧ el.waitTime = .maxDelay)

/-- A call that nobody interferes with, in at most the given number of
actions. -/
def callAlone (cfg : Config) (timeout : Bool) :
    Nat → Element → CallPc → Option (Element × Int)
  | 0, _, _ => none
  | n + 1, el, pc =>
      match callNext cfg el timeout pc with
      | none => none
      | some (el', .next pc') => callAlone cfg timeout n el' pc'
      | some (el', .done err) => some (el', err)

/-- What the callers of a failed element see. -/
theorem callers_of_error (cfg : Config) {el : Element} (th : Threshold)
    (hstate : el.state = .error) (hstopped : el.stoppedBit = true)
    (hrunning : el.isRunning = false) :
    callAlone cfg false 1 el .waitForStop = some (el, ESP_OK) ∧
      callAlone cfg false 4 el (.resumeTaskRun th) = some (el, ESP_FAIL) := by
  constructor
  · simp [callAlone, callNext, waitBits, hstopped]
  · cases htask : el.taskRun <;>
      simp [callAlone, callNext, htask, hrunning, hstate]

/-- **A failed `open` ends in the error state exactly when the element was in
it before.** -/
theorem open_failure_reported {cfg : Config} {s t u : Sys} {rest : List Op}
    {as : List Act} (hopen : cfg.hasOpen = true)
    (hs : (sysMachine cfg).Reachable Sys.start s)
    (hcall : s.el.todo = .callOpen :: rest)
    (hfail : (sysMachine cfg).step s (.task (.ok false)) = some t)
    (hrun : (sysMachine cfg).run t as = some u) (hq : Quiescent u.el) :
    (u.el.state = .error ∧ u.el.stoppedBit = true ↔
      s.el.state = .error ∧
        (sysMachine cfg).runIf (fun v a => ¬ResetsState v a) t as = some u) ∧
    (u.el.state = .error → ∀ th,
      callAlone cfg false 1 u.el .waitForStop = some (u.el, ESP_OK) ∧
      callAlone cfg false 4 u.el (.resumeTaskRun th) =
        some (u.el, ESP_FAIL)) := by
  have ht : t = { s with el := { s.el with todo := openReturned false } } := by
    have hfail : sysStep cfg s (.task (.ok false)) = some t := hfail
    simp only [sysStep, taskStep, hcall, opStep, Option.map_some,
      Option.some.injEq] at hfail
    exact hfail.symm
  have hleaving : Leaving t.el := by
    rw [ht]
    simp [Leaving, openReturned, Op.leaves]
  rcases leaving_run hleaving hrun with ⟨hu, hstopped, hcases⟩
  have hmarked : ErrorMarked u.el := by
    have hreach : (sysMachine cfg).Reachable Sys.start t :=
      Machine.Reaches.step hs trivial hfail
    exact errorMarked_reachable hopen
      (Relation.ReflTransGen.trans hreach (Machine.reachable_of_run hrun))
  have hexit : u.el.todo = [] := by
    rcases hq with hnil | ⟨hrecv, -, -⟩
    · exact hnil
    · have := hu .recv (by simp [hrecv])
      cases this
  simp only [ErrorMarked, Field.final, hexit] at hmarked
  constructor
  · constructor
    · rintro ⟨herr, -⟩
      rcases hcases with ⟨hkeep, hstate⟩ | ⟨-, hinit⟩
      · refine ⟨?_, hkeep⟩
        rw [hstate, ht] at herr
        exact herr
      · rw [hinit] at herr
        cases herr
    · rintro ⟨herr, hkeep⟩
      rcases hcases with ⟨-, hstate⟩ | ⟨hnone, -⟩
      · have hstate : u.el.state = .error := by
          rw [hstate, ht]
          exact herr
        exact ⟨hstate, (hmarked hstate).1⟩
      · rw [hnone] at hkeep
        cases hkeep
  · intro herr th
    exact callers_of_error cfg th herr (hmarked herr).1 (hmarked herr).2

/-! ## Two runs -/

/-- A client resumes a fresh element, and the task calls `open`. -/
def firstOpen : List Act :=
  startUp ++ [.clientStart (.resume .zero)] ++ clientGo 0 7 ++ taskGo 2

/-- `open` fails, and the task runs to its end. -/
def leaveTask : List Act := taskGo 5 ++ [.task (.ok true)] ++ taskGo 3

/-- Two clients resume a fresh element.  The first `RESUME` succeeds but
`process` fails; the second is handled in the error state. -/
def secondOpen : List Act :=
  startUp ++ [.clientStart (.resume .zero), .clientStart (.resume .zero)] ++
    clientGo 0 6 ++ clientGo 1 6 ++ clientGo 0 1 ++ taskGo 2 ++
    [.task (.ok true)] ++ taskGo 8 ++ [.task (.len AEL_IO_FAIL)] ++
    taskGo 4 ++ [.task (.ok true)] ++ taskGo 10 ++ clientGo 0 1 ++ taskGo 3

theorem open_failure_reported_inError : ∃ s t u,
    (sysMachine defaultConfig).run Sys.start secondOpen = some s ∧
    (sysMachine defaultConfig).step s (.task (.ok false)) = some t ∧
    (sysMachine defaultConfig).run t leaveTask = some u ∧
    s.el.state = .error ∧ u.el.state = .error ∧ u.el.stoppedBit = true :=
  ⟨_, _, _, rfl, rfl, rfl, rfl,
    (@open_failure_reported defaultConfig _ _ _ _ leaveTask rfl
      (Machine.reachable_iff_run.2 ⟨secondOpen, rfl⟩) rfl rfl rfl
      (.inl rfl)).1.2 ⟨rfl, rfl⟩⟩

/-- The ordinary case: the element exits in `AEL_STATE_INIT`, with the
`ERROR` it sent itself unhandled, and `audio_element_wait_for_stop` times
out. -/
theorem open_failure_unreported : ∃ s t u,
    (sysMachine defaultConfig).Reachable Sys.start s ∧
    s.el.todo = [.callOpen] ∧
    (sysMachine defaultConfig).step s (.task (.ok false)) = some t ∧
    (sysMachine defaultConfig).Reachable t u ∧ Quiescent u.el ∧
    u.el.state = .init ∧ u.el.stoppedBit = false ∧
    u.el.cmds = [⟨.error, true⟩] ∧
    callAlone defaultConfig true 1 u.el .waitForStop =
      some (u.el, ESP_FAIL) :=
  ⟨_, _, _, Machine.reachable_iff_run.2 ⟨firstOpen, rfl⟩, rfl, rfl,
    Machine.reachable_iff_run.2 ⟨leaveTask, rfl⟩, .inl rfl, rfl, rfl, rfl,
    rfl⟩

end EspAdf.Ports.AudioElement
