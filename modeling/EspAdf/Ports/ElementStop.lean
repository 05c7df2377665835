import EspAdf.Ports.ElementMoves

/-!
# Is `STOP` final?

The element task takes its own commands and those of the clients from one
queue, and each handler of `audio_element_on_cmd` looks at the present state
only.  The `STOP` handler guards against `AEL_STATE_FINISHED` and
`AEL_STATE_STOPPED`; the `FINISH`, `ERROR`, `PAUSE` and `RESUME` handlers have
no such guard.  A `FINISH` that `process` queued behind a `STOP` takes the
element out of `AEL_STATE_STOPPED` and reports `AEL_STATUS_STATE_STOPPED` a
second time (`finish_after_stop`).

`stop_is_final` proves that this is the only way: in every run in which no
command but `STOP`, `DESTROY` and a client's `RESUME` is dequeued after a
`STOP`, no command that reports is dequeued in a run that has reported, and
nobody resets the state of a stopped element, a handled `STOP` is final and
`AEL_STATUS_STATE_STOPPED` is reported at most once for each run.
-/

namespace EspAdf.Ports.AudioElement

open EspAdf.Verified

/-! ## The condition -/

/-- The states that the guard of the `STOP` handler names. -/
def State.ended : State → Bool
  | .stopped => true
  | .finished => true
  | _ => false

/-- After a `STOP` the task dequeues `STOP`, `DESTROY` or a client's `RESUME`;
after a report neither a `FINISH` nor a `STOP` that would report again. -/
def KeepsStopped (el : Element) (m : Msg) : Prop :=
  (el.stopHandled = true →
    m.cmd = .stop ∨ m.cmd = .destroy ∨ m = ⟨.resume, false⟩) ∧
  (1 ≤ el.stopReports →
    m.cmd ≠ .finish ∧ (m.cmd = .stop → el.state.ended = true))

/-- A `STOP` was handled, and no client's `RESUME` since, or is being
handled. -/
def Stopping (el : Element) : Prop :=
  el.stopHandled = true ∨ el.handling.map Msg.cmd = some .stop

/-- The condition on a step: what the task dequeues, and no
`audio_element_reset_state` on a stopped element. -/
def LeavesStopped (s : Sys) (a : Act) : Prop :=
  (a = .task .go → s.el.todo.head? = some .recv →
    ∀ m ∈ s.el.cmds.head?, KeepsStopped s.el m) ∧
  (a = .task (.effect .resetState) ∨ ResetsState s a → Stopping s.el →
    s.el.state ≠ .stopped)

instance (el : Element) (m : Msg) : Decidable (KeepsStopped el m) :=
  inferInstanceAs (Decidable (_ ∧ _))

instance (el : Element) : Decidable (Stopping el) :=
  inferInstanceAs (Decidable (_ ∨ _))

instance (s : Sys) (a : Act) : Decidable (LeavesStopped s a) :=
  inferInstanceAs (Decidable (_ ∧ _))

/-! ## The invariant -/

/-- What an operation that is still to be executed says about the command
that the task is handling, or has handled. -/
def Pending (el : Element) : Op → Prop
  | .callOpen => el.handling.map Msg.cmd = some .resume
  | .write (.isRunning true) => el.handling.map Msg.cmd = some .resume
  | .write (.state s) => el.stopHandled = true → s = .stopped
  | _ => True

structure StopInv (el : Element) : Prop where
  pending : ∀ op ∈ el.todo, Pending el op
  resume : el.handling.map Msg.cmd = some .resume → el.stopHandled = false
  stop : el.handling.map Msg.cmd = some .stop →
    stateField.final el = .stopped
  once : stopReportsField.final el ≤ 1
  stays : el.stopHandled = true → el.state = .stopped

/-- Operations that `Pending` says nothing about. -/
def Op.plain : Op → Bool
  | .callOpen => false
  | .write (.isRunning true) => false
  | .write (.state _) => false
  | _ => true

theorem pending_of_plain {el : Element} {op : Op} (h : op.plain = true) :
    Pending el op := by
  unfold Pending
  split
  · cases h
  · cases h
  · cases h
  · trivial

theorem pending_congr {el el' : Element} {op : Op} (h : Pending el op)
    (hh : el'.handling = el.handling)
    (hs : el'.stopHandled = el.stopHandled) : Pending el' op := by
  unfold Pending at h ⊢
  rw [hh, hs]
  exact h

theorem plain_closeOps {cfg : Config} {el : Element} {op : Op}
    (h : op ∈ closeOps cfg el) : op.plain = true := by
  unfold closeOps at h
  split at h
  · simp only [setOpen, List.mem_cons, List.not_mem_nil, or_false] at h
    rcases h with rfl | rfl <;> rfl
  · cases h

theorem plain_exitOps {cfg : Config} {el : Element} {op : Op}
    (h : op ∈ exitOps cfg el) : op.plain = true := by
  rcases List.mem_append.1 h with hclose | hrest
  · exact plain_closeOps hclose
  · simp only [setBits, setTaskRun, List.mem_cons, List.not_mem_nil,
      or_false] at hrest
    rcases hrest with rfl | rfl <;> rfl

theorem plain_processOps {op : Op} (h : op ∈ processOps) :
    op.plain = true := by
  simp only [processOps, List.mem_cons, List.not_mem_nil, or_false] at h
  rcases h with rfl | rfl <;> rfl

/-- An expansion brings in the operation that was there before, or the state
`INIT`, or nothing of interest. -/
theorem Expands.plain {el : Element} {op : Op} {a : Answer} {ops : List Op}
    (he : Expands el op a ops) : ∀ op' ∈ ops, op'.plain = true ∨ op' = op ∨
      (a = .effect .resetState ∧ op' = setState .init) := by
  cases he with
  | openEffect e => cases e <;> simp [Effect.ops, Op.plain]
  | closeEffect e => cases e <;> simp [Effect.ops, Op.plain]
  | processEffect e => cases e <;> simp [Effect.ops, Op.plain]
  | processed n =>
      rcases processReturned_cases n with h | h | h <;> simp [h, Op.plain]
  | _ => simp [Op.plain]

theorem stopReports_after_ge (ops : List Op) (v : Nat) :
    v ≤ stopReportsField.after ops v := by
  induction ops generalizing v with
  | nil => exact Nat.le_refl v
  | cons op ops ih =>
      cases op with
      | write w =>
          refine Nat.le_trans ?_ (ih (stopReportsField.upd w v))
          rw [stopReportsField_upd]
          split
          · split <;> omega
          · exact Nat.le_refl v
      | callOpen => exact Nat.le_refl v
      | ret ok => exact Nat.le_refl v
      | loop => exact Nat.le_refl v
      | recv => exact Nat.le_refl v
      | _ => exact ih v

/-- A reset before the `STOP` handler assigns the state is overwritten. -/
theorem StopInv.stop_after_init {el : Element} (h : StopInv el)
    (hreset : Stopping el → el.state ≠ .stopped)
    (hc : el.handling.map Msg.cmd = some .stop) :
    stateField.after el.todo .init = .stopped := by
  have hfinal : stateField.after el.todo el.state = .stopped := h.stop hc
  rcases stateField.after_or stateField_const el.todo el.state .init with
    heq | ⟨heq, -⟩
  · rw [heq, hfinal]
  · rw [heq] at hfinal
    exact absurd hfinal (hreset (.inr hc))

/-! ## The steps -/

theorem pending_closeOps {cfg : Config} {el el' : Element} {ops : List Op}
    (h : ∀ op ∈ ops, Pending el' op) :
    ∀ op ∈ closeOps cfg el ++ ops, Pending el' op := by
  intro op hop
  rcases List.mem_append.1 hop with hclose | hops
  · exact pending_of_plain (plain_closeOps hclose)
  · exact h op hops

/-- The programs of the handlers, while `c` is being handled. -/
theorem pending_onCmd {cfg : Config} {el el' : Element} {c : Cmd}
    (hh : el'.handling.map Msg.cmd = some c)
    (hs : el'.stopHandled = true → c = .stop ∨ c = .destroy) :
    ∀ op ∈ onCmd cfg el c, Pending el' op := by
  cases c with
  | error =>
      have hs : el'.stopHandled = false := by simpa using hs
      exact pending_closeOps (by simp [Pending, hs])
  | finish =>
      have hs : el'.stopHandled = false := by simpa using hs
      exact pending_closeOps (by simp [Pending, hs])
  | pause =>
      have hs : el'.stopHandled = false := by simpa using hs
      intro op hop
      rw [onCmd, List.append_assoc] at hop
      rcases List.mem_append.1 hop with hstate | hrest
      · simp only [setState, List.mem_singleton] at hstate
        simp [hstate, Pending, hs]
      · exact pending_closeOps (by simp [Pending]) op hrest
  | stop =>
      simp only [onCmd]
      split
      · exact pending_closeOps (by simp [Pending])
      · simp [Pending]
  | resume =>
      simp only [onCmd]
      split
      · simp [Pending, hh]
      · split <;> split <;> simp [Pending, hh, resumedOps]
  | destroy => simp [onCmd, Pending]

/-- The task dequeues `m`. -/
theorem StopInv.recv {cfg : Config} {el : Element} {m : Msg}
    {more : List Msg} {rest : List Op} (h : StopInv el)
    (htodo : el.todo = .recv :: rest) (hkeep : KeepsStopped el m) :
    StopInv { el with
      cmds := more, todo := onCmd cfg el m.cmd, handling := some m
      stopHandled := if m = ⟨.resume, false⟩ then false else el.stopHandled
      stopReports := if m.cmd = .resume then 0 else el.stopReports } := by
  have hs : (if m = ⟨.resume, false⟩ then false else el.stopHandled) = true →
      (m.cmd = .stop ∨ m.cmd = .destroy) ∧ el.stopHandled = true := by
    by_cases hm : m = ⟨.resume, false⟩
    · simp [hm]
    · rw [if_neg hm]
      intro hs
      rcases hkeep.1 hs with hc | hc | hc
      · exact ⟨.inl hc, hs⟩
      · exact ⟨.inr hc, hs⟩
      · exact absurd hc hm
  constructor
  · exact pending_onCmd rfl fun h => (hs h).1
  · intro hc
    have hc : m.cmd = .resume := Option.some.inj hc
    rw [Bool.eq_false_iff]
    intro hstopped
    rw [hc] at hs
    simpa using (hs hstopped).1
  · intro hc
    have hc : m.cmd = .stop := Option.some.inj hc
    show stateField.after (onCmd cfg el m.cmd) el.state = .stopped
    rw [onCmd_state, hc]
  · have honce : el.stopReports ≤ 1 := by
      simpa [Field.final, htodo] using h.once
    have hended : el.state.ended = true →
        ¬(el.state ≠ .finished ∧ el.state ≠ .stopped) := by
      cases el.state <;> simp [State.ended]
    have hreport := hkeep.2
    show stopReportsField.after (onCmd cfg el m.cmd)
      (if m.cmd = .resume then 0 else el.stopReports) ≤ 1
    rw [onCmd_stopReports]
    cases hc : m.cmd with
    | finish =>
        have : ¬1 ≤ el.stopReports := fun hpos => (hreport hpos).1 hc
        simp only [reduceCtorEq, if_false]
        omega
    | stop =>
        simp only [reduceCtorEq, if_false]
        split
        · rename_i hne
          have : ¬1 ≤ el.stopReports :=
            fun hpos => hended ((hreport hpos).2 hc) hne
          omega
        · exact honce
    | resume => exact Nat.zero_le 1
    | _ => exact honce
  · intro hstopped
    exact h.stays (hs hstopped).2

theorem StopInv.expand {el : Element} {op : Op} {rest ops : List Op}
    {a : Answer} (h : StopInv el) (htodo : el.todo = op :: rest)
    (he : Expands el op a ops)
    (hreset : a = .effect .resetState → Stopping el → el.state ≠ .stopped) :
    StopInv { el with todo := ops ++ rest } := by
  constructor
  · intro op' hop'
    rcases List.mem_append.1 hop' with hops | hmem
    · rcases he.plain op' hops with hplain | rfl | ⟨ha, rfl⟩
      · exact pending_of_plain hplain
      · exact h.pending op' (by simp [htodo])
      · intro hs
        exact absurd (h.stays hs) (hreset ha (.inl hs))
    · exact h.pending op' (by simp [htodo, hmem])
  · exact h.resume
  · intro hc
    show stateField.after (ops ++ rest) el.state = .stopped
    rcases he.state_after rest el.state with heq | ⟨ha, heq⟩
    · rw [heq, ← htodo]
      exact h.stop hc
    · rw [heq, ← htodo]
      exact h.stop_after_init (hreset ha) hc
  · show stopReportsField.after (ops ++ rest) el.stopReports ≤ 1
    rw [he.stopReports_after, ← htodo]
    exact h.once
  · exact h.stays

/-- A step that leaves the command being handled and the final values. -/
theorem StopInv.frame {el el' : Element} (h : StopInv el)
    (hh : el'.handling = el.handling)
    (hs : el'.stopHandled = el.stopHandled)
    (hst : stateField.final el' = stateField.final el)
    (hr : stopReportsField.final el' = stopReportsField.final el)
    (hp : ∀ op ∈ el'.todo, Pending el op)
    (hstay : el'.stopHandled = true → el'.state = .stopped) :
    StopInv el' where
  pending := fun op hop => pending_congr (hp op hop) hh hs
  resume := by rw [hh, hs]; exact h.resume
  stop := by rw [hh, hst]; exact h.stop
  once := by rw [hr]; exact h.once
  stays := hstay

theorem apply_handling (w : Write) (el : Element) :
    (w.apply el).handling = el.handling := by
  cases w with
  | bit b v => cases b <;> rfl
  | _ => rfl

theorem apply_stopHandled (w : Write) (el : Element) :
    (w.apply el).stopHandled = el.stopHandled := by
  cases w with
  | bit b v => cases b <;> rfl
  | _ => rfl

theorem StopInv.write {el : Element} {w : Write} {rest : List Op}
    (h : StopInv el) (htodo : el.todo = .write w :: rest) :
    StopInv { w.apply el with todo := rest } := by
  apply h.frame
  · exact apply_handling w el
  · exact apply_stopHandled w el
  · exact stateField.final_write htodo
  · exact stopReportsField.final_write htodo
  · intro op hop
    exact h.pending op (by rw [htodo]; exact List.mem_cons_of_mem _ hop)
  · intro hs
    have hs : (w.apply el).stopHandled = true := hs
    rw [apply_stopHandled] at hs
    show (w.apply el).state = .stopped
    cases w with
    | state s => exact h.pending (.write (.state s)) (by simp [htodo]) hs
    | bit b v => cases b <;> exact h.stays hs
    | _ => exact h.stays hs

theorem StopInv.opened {el : Element} {rest : List Op} (h : StopInv el)
    (htodo : el.todo = .callOpen :: rest) (b : Bool) :
    StopInv { el with todo := openReturned b } := by
  have hc : el.handling.map Msg.cmd = some .resume :=
    h.pending .callOpen (by simp [htodo])
  have hs := h.resume hc
  constructor
  · cases b <;> simp [openReturned, resumedOps, Pending, hs, hc]
  · exact fun _ => hs
  · intro hstop
    have hstop : el.handling.map Msg.cmd = some .stop := hstop
    rw [hc] at hstop
    cases hstop
  · have honce : el.stopReports ≤ 1 := by
      simpa [Field.final, htodo] using h.once
    cases b <;> simpa [Field.final, openReturned, resumedOps] using honce
  · exact h.stays

theorem StopInv.ret {cfg : Config} {el : Element} {ok : Bool}
    {rest : List Op} (h : StopInv el) (htodo : el.todo = .ret ok :: rest) :
    StopInv (retStep cfg el ok) := by
  constructor
  · intro op hop
    apply pending_of_plain
    cases ok with
    | true => exact plain_processOps hop
    | false => exact plain_exitOps hop
  · intro hc
    cases hc
  · intro hc
    cases hc
  · have honce : el.stopReports ≤ 1 := by
      simpa [Field.final, htodo] using h.once
    cases ok <;>
      simpa [Field.final, retStep, exitOps, processOps] using honce
  · intro hs
    show el.state = .stopped
    simp only [retStep, Bool.or_eq_true] at hs
    rcases hs with hs | hs
    · exact h.stays hs
    · have hc : el.handling.map Msg.cmd = some .stop := by
        cases hh : el.handling with
        | none => simp [hh] at hs
        | some m => simpa [hh] using hs
      simpa [Field.final, htodo] using h.stop hc

/-- One action of the task. -/
theorem StopInv.task {cfg : Config} {el el' : Element} {a : Answer}
    (h : StopInv el) (hm : TaskMove cfg el a el')
    (hrecv : a = .go → el.todo.head? = some .recv →
      ∀ m ∈ el.cmds.head?, KeepsStopped el m)
    (hreset : a = .effect .resetState → Stopping el →
      el.state ≠ .stopped) : StopInv el' := by
  have hrest : ∀ {op : Op} {rest : List Op}, el.todo = op :: rest →
      ∀ op' ∈ rest, Pending el op' := fun htodo op' hop' =>
    h.pending op' (by rw [htodo]; exact List.mem_cons_of_mem _ hop')
  cases hm with
  | write w rest htodo => exact h.write htodo
  | send c rest htodo =>
      refine h.frame ?_ ?_ (stateField.final_send htodo _)
        (stopReportsField.final_send htodo _) (hrest htodo) ?_
      · rw [Element.cmdSend]
        split <;> rfl
      · rw [Element.cmdSend]
        split <;> rfl
      · rw [Element.cmdSend]
        split <;> exact h.stays
  | mallocFail rest htodo =>
      refine h.frame rfl rfl ?_ ?_ (hrest htodo) h.stays
      · simp [Field.final, htodo]
      · simp [Field.final, htodo]
  | expand op rest a ops htodo he => exact h.expand htodo he hreset
  | opened b rest htodo => exact h.opened htodo b
  | ret ok rest htodo => exact h.ret htodo
  | loop rest htodo =>
      refine h.frame rfl rfl ?_ ?_ ?_ h.stays
      · cases hrun : el.taskRun <;> simp [Field.final, htodo, exitOps]
      · cases hrun : el.taskRun <;> simp [Field.final, htodo, exitOps]
      · intro op hop
        apply pending_of_plain
        cases hrun : el.taskRun with
        | true =>
            obtain rfl : op = .recv := by simpa [hrun] using hop
            rfl
        | false => exact plain_exitOps (by simpa [hrun] using hop)
  | recv m more rest htodo hc =>
      exact h.recv htodo (hrecv rfl (by simp [htodo]) m (by simp [hc]))
  | poll rest htodo hc hw =>
      refine h.frame rfl rfl ?_ ?_ ?_ h.stays
      · simp [Field.final, htodo, processOps]
      · simp [Field.final, htodo, processOps]
      · exact fun op hop => pending_of_plain (plain_processOps hop)

/-- One action of a client. -/
theorem StopInv.client {cfg : Config} {el el' : Element} {pc : CallPc}
    (h : StopInv el) (hm : ClientMove cfg el pc el')
    (hreset : pc = .resetState → Stopping el → el.state ≠ .stopped) :
    StopInv el' := by
  cases hm with
  | same pc hpc => exact h
  | reset =>
      exact
        { pending := h.pending, resume := h.resume, once := h.once
          stop := h.stop_after_init (hreset rfl)
          stays := fun hs => absurd (h.stays hs) (hreset rfl (.inl hs)) }
  | _ => exact h.frame rfl rfl rfl rfl h.pending h.stays

theorem stopInv_start : StopInv Element.start := by
  constructor <;> simp [Element.start, taskOps, Pending, Field.final]

theorem stopInv_reaches {cfg : Config} {s : Sys}
    (hs : (sysMachine cfg).Reaches LeavesStopped Sys.start s) :
    StopInv s.el := by
  refine hs.invariant (I := fun s => StopInv s.el) stopInv_start ?_
  intro u a v h hok hstep
  rcases sysStep_move hstep with ⟨ans, rfl, hm⟩ | ⟨c, -, hel⟩ |
    ⟨i, timeout, c, pc, rfl, hi, hm⟩
  · refine h.task hm (fun ha => hok.1 (by rw [ha])) ?_
    intro ha
    exact hok.2 (.inl (by rw [ha]))
  · rw [hel]
    exact h
  · refine h.client hm fun hpc => hok.2 (.inr ?_)
    simp [ResetsState, hi, hpc]

/-! ## The result -/

/-- Only the `RESUME` handler makes the element run. -/
theorem running_of_move {cfg : Config} {el el' : Element} {a : Answer}
    (hm : TaskMove cfg el a el') (h : el.isRunning = false)
    (h' : el'.isRunning = true) : setRunning true ∈ el.todo := by
  cases hm with
  | write w rest htodo =>
      have h' : (w.apply el).isRunning = true := h'
      cases w with
      | isRunning b =>
          have hb : b = true := h'
          simp [htodo, hb]
      | bit b v => cases b <;> exact absurd (h.symm.trans h') (by simp)
      | _ => exact absurd (h.symm.trans h') (by simp)
  | send c rest htodo =>
      rw [Element.cmdSend] at h'
      split at h' <;> exact absurd (h.symm.trans h') (by simp)
  | _ => exact absurd (h.symm.trans h') (by simp)

/-- **A handled `STOP` is final**, and each run reports at most once. -/
theorem stop_is_final {cfg : Config} {s : Sys}
    (hs : (sysMachine cfg).Reaches LeavesStopped Sys.start s) :
    (s.el.stopHandled = true → s.el.state = .stopped ∧
      ∀ a t, (sysMachine cfg).step s a = some t → s.el.isRunning = false →
        t.el.isRunning = false) ∧
    s.el.stopReports ≤ 1 := by
  have h := stopInv_reaches hs
  refine ⟨fun hstopped => ⟨h.stays hstopped, ?_⟩, ?_⟩
  · intro a t hstep hidle
    rcases sysStep_move hstep with ⟨ans, -, hm⟩ | ⟨c, -, hel⟩ |
      ⟨i, timeout, c, pc, -, -, hm⟩
    · rw [Bool.eq_false_iff]
      intro hrun
      have hresume := h.resume (h.pending _ (running_of_move hm hidle hrun))
      rw [hresume] at hstopped
      cases hstopped
    · rw [hel]
      exact hidle
    · generalize t.el = el at hm
      cases hm <;> exact hidle
  · exact Nat.le_trans (stopReports_after_ge s.el.todo s.el.stopReports)
      h.once

/-! ## Two runs -/

/-- A client stops the running element, whose task goes round its loop. -/
def stopElement : List Act :=
  runElement ++ [.clientStart .stop] ++ clientGo 0 3 ++ taskGo 1 ++
    [.task (.len 1)] ++ taskGo 2 ++ [.task (.ok true)] ++ taskGo 9

theorem stop_is_final_stopped : ∃ s,
    (sysMachine defaultConfig).runIf LeavesStopped Sys.start stopElement =
      some s ∧
    s.el.stopHandled = true ∧ s.el.state = .stopped ∧ s.el.stopReports ≤ 1 :=
  have h := stop_is_final (Machine.reaches_of_runIf
    (show (sysMachine defaultConfig).runIf LeavesStopped Sys.start
      stopElement = some _ by rfl))
  ⟨_, rfl, rfl, (h.1 rfl).1, h.2⟩

/-- `process` returns `AEL_IO_DONE` while a client's `STOP` is being sent: the
`FINISH` comes to lie behind the `STOP`. -/
def finishBehindStop : List Act :=
  runElement ++ taskGo 1 ++ [.task (.len AEL_IO_DONE), .clientStart .stop] ++
    clientGo 0 3 ++ taskGo 5 ++ [.task (.ok true)] ++ taskGo 18

/-- The element handles the `STOP`, leaves `AEL_STATE_STOPPED` on its own
`FINISH` and has reported `AEL_STATUS_STATE_STOPPED` twice. -/
theorem finish_after_stop : ∃ s,
    (sysMachine defaultConfig).Reachable Sys.start s ∧
    s.el.sent = [.resume, .stop] ∧ s.el.stopHandled = true ∧
    s.el.state = .finished ∧ s.el.stopReports = 2 :=
  ⟨_, Machine.reachable_iff_run.2 ⟨finishBehindStop, rfl⟩, rfl, rfl, rfl,
    rfl⟩

end EspAdf.Ports.AudioElement
