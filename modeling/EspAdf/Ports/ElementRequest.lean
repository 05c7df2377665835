import EspAdf.Ports.ElementMoves

/-!
# Which request wins

`audio_element_resume`, `_pause` and `_stop` only queue a command, and each
first looks at the element's flags: one that finds the element already where
it should go returns `ESP_OK` and sends nothing.  The flags lag behind the
queue, so a `resume` right after a `stop` is answered by "already running"
and the element stops (`resume_behind_stop`); and a `pause` of a stopped
element is answered by "already paused".

`last_sent_request_wins` proves what does hold of one client and the task:
once the queue is drained the element is in the state that the last request
*sent* asks for, and a call that starts on a drained queue and returns
`ESP_OK` gets its state, except that pausing leaves a stopped element stopped.
-/

namespace EspAdf.Ports.AudioElement

open EspAdf.Verified

/-! ## The requests -/

/-- The command that a call sends, unless a guard answers it. -/
def Call.request : Call → Option Cmd
  | .resume _ => some .resume
  | .pause => some .pause
  | .stop => some .stop
  | .terminate => some .destroy
  | .waitForStop => none
  | .resetState => none

/-- The state that a request asks for; without one the element is fresh. -/
def requested : Option Cmd → State
  | some .resume => .running
  | some .pause => .paused
  | some .stop => .stopped
  | _ => .init

/-- `RESUME`, `PAUSE` or `STOP`. -/
def Cmd.isRequest : Cmd → Bool
  | .resume => true
  | .pause => true
  | .stop => true
  | _ => false

/-- The callbacks send nothing, `open` succeeds, and `process` neither
finishes nor fails. -/
def TaskOk (el : Element) : Answer → Prop
  | .go => True
  | .effect _ => False
  | .ok b => el.todo.head? = some .callOpen → b = true
  | .len n => n ≠ AEL_IO_DONE ∧ n ≠ AEL_IO_OK ∧ n ≠ AEL_IO_FAIL ∧
      n ≠ AEL_PROCESS_FAIL

/-- One client makes one call after the other, and never meets a full
queue. -/
def OneClient (cfg : Config) (s : Sys) : Act → Prop
  | .task ans => TaskOk s.el ans
  | .clientStart c => s.clients = [] ∧ c ≠ .resetState ∧ c ≠ .terminate
  | .clientStep _ _ => s.el.cmds.length < cfg.internalQueueSize

instance (el : Element) (ans : Answer) : Decidable (TaskOk el ans) :=
  match ans with
  | .go => inferInstanceAs (Decidable True)
  | .effect _ => inferInstanceAs (Decidable False)
  | .ok _ => inferInstanceAs (Decidable (_ → _))
  | .len _ => inferInstanceAs (Decidable (_ ∧ _))

instance (cfg : Config) (s : Sys) (a : Act) :
    Decidable (OneClient cfg s a) :=
  match a with
  | .task ans => inferInstanceAs (Decidable (TaskOk s.el ans))
  | .clientStart _ => inferInstanceAs (Decidable (_ ∧ _))
  | .clientStep _ _ => inferInstanceAs (Decidable (_ < _))

/-- No command is queued or being handled. -/
def Drained (el : Element) : Prop := el.cmds = [] ∧ el.handling = none

instance (el : Element) : Decidable (Drained el) :=
  inferInstanceAs (Decidable (_ ∧ _))

/-! ## The invariant of the element -/

/-- An operation of the task between two commands: it assigns neither the
state nor `is_running` anew and sends nothing. -/
def Settled (el : Element) : Op → Prop
  | .write (.state x) => x = el.state
  | .write (.isRunning x) => x = el.isRunning
  | .write _ => True
  | .mallocBuf => True
  | .callClose => True
  | .callProcess => True
  | .testProcess => True
  | .loop => True
  | .recv => True
  | _ => False

/-- The task is between two commands; `last` is the last one it handled. -/
structure Idle (el : Element) (last : Option Cmd) : Prop where
  state : el.state = requested last
  running : el.isRunning = decide (last = some .resume)
  settled : ∀ op ∈ el.todo, Settled el op

/-- An operation of a handler that cannot go wrong. -/
def Op.handles : Op → Bool
  | .write _ => true
  | .ringbuf => true
  | .callClose => true
  | .ret ok => ok
  | _ => false

/-- The task is handling `c`, and what is left of the handler leads to the
state that `c` asks for. -/
def Leads (el : Element) (c : Cmd) : Prop :=
  (c = .resume ∧
    (el.todo = [.callOpen] ∨ el.todo = [setOpen true, .callOpen] ∨
      el.todo = [.ringbuf, setOpen true, .callOpen])) ∨
  ((∀ op ∈ el.todo, op.handles = true) ∧
    stateField.final el = requested (some c) ∧
    runningField.final el = decide (c = .resume))

/-- What the task is doing, when `last` is the last command it dequeued. -/
def Serves (el : Element) (last : Option Cmd) : Prop :=
  match el.handling with
  | some m => last = some m.cmd ∧ Leads el m.cmd
  | none => Idle el last

/-- The commands sent are those dequeued and those still queued. -/
structure RequestInv (el : Element) : Prop where
  requests : ∀ c ∈ el.sent, c.isRequest = true
  account : ∃ done, el.sent = done ++ el.cmds.map Msg.cmd ∧
    Serves el done.getLast?

theorem settled_of_write {el : Element} {w : Write} {op : Op}
    (hw : Settled el (.write w)) (h : Settled el op) :
    (w.apply el).state = el.state ∧ (w.apply el).isRunning = el.isRunning ∧
      Settled (w.apply el) op := by
  have hstate : (w.apply el).state = el.state := by
    cases w with
    | state x => exact hw
    | bit b v => cases b <;> rfl
    | _ => rfl
  have hrunning : (w.apply el).isRunning = el.isRunning := by
    cases w with
    | isRunning x => exact hw
    | bit b v => cases b <;> rfl
    | _ => rfl
  refine ⟨hstate, hrunning, ?_⟩
  unfold Settled at h ⊢
  rw [hstate, hrunning]
  exact h

/-! ## The task's steps -/

theorem processReturned_of_ok {el : Element} {n : Int}
    (h : TaskOk el (.len n)) : processReturned n = [] := by
  obtain ⟨hdone, hok, hfail, hproc⟩ := h
  unfold processReturned
  split
  · rfl
  · rw [if_neg (by simp [hdone, hok]), if_neg (by simp [hfail, hproc])]

theorem apply_cmds (w : Write) (el : Element) :
    (w.apply el).cmds = el.cmds ∧ (w.apply el).sent = el.sent ∧
      (w.apply el).handling = el.handling := by
  cases w with
  | bit b v => cases b <;> exact ⟨rfl, rfl, rfl⟩
  | _ => exact ⟨rfl, rfl, rfl⟩

/-- Between two commands nothing changes that a request is about. -/
structure Rests (el el' : Element) (last : Option Cmd) : Prop where
  idle : Idle el' last
  handling : el'.handling = el.handling
  cmds : el'.cmds = el.cmds
  sent : el'.sent = el.sent
  state : el'.state = el.state
  running : el'.isRunning = el.isRunning

/-- The task dequeues `m` and starts its handler. -/
structure Takes (cfg : Config) (el el' : Element) (m : Msg) : Prop where
  cmds : el.cmds = m :: el'.cmds
  todo : el'.todo = onCmd cfg el m.cmd
  handling : el'.handling = some m
  sent : el'.sent = el.sent
  state : el'.state = el.state
  running : el'.isRunning = el.isRunning

theorem settled_exitOps (cfg : Config) (el el' : Element) :
    ∀ op ∈ exitOps cfg el, Settled el' op := by
  unfold exitOps closeOps
  split <;> simp [Settled]

theorem Idle.move {cfg : Config} {el el' : Element} {a : Answer}
    {last : Option Cmd} (h : Idle el last) (hm : TaskMove cfg el a el')
    (hok : TaskOk el a) :
    Rests el el' last ∨ ∃ m, Takes cfg el el' m := by
  have hhead : ∀ {op : Op} {rest : List Op}, el.todo = op :: rest →
      Settled el op := fun htodo => h.settled _ (by simp [htodo])
  have hrest : ∀ {op : Op} {rest : List Op}, el.todo = op :: rest →
      ∀ op' ∈ rest, Settled el op' := fun htodo op' hop' =>
    h.settled op' (by rw [htodo]; exact List.mem_cons_of_mem _ hop')
  -- a step that only replaces what is left to do
  have hstay : ∀ ops, (∀ op ∈ ops, Settled el op) →
      Rests el { el with todo := ops } last := fun ops hops =>
    ⟨⟨h.state, h.running, hops⟩, rfl, rfl, rfl, rfl, rfl⟩
  cases hm with
  | write w rest htodo =>
      left
      have hw := hhead htodo
      obtain ⟨hcmds, hsent, hhandling⟩ := apply_cmds w el
      have hsame := (settled_of_write hw (hhead htodo))
      refine ⟨⟨?_, ?_, ?_⟩, hhandling, hcmds, hsent, hsame.1, hsame.2.1⟩
      · exact hsame.1.trans h.state
      · exact hsame.2.1.trans h.running
      · intro op hop
        exact (settled_of_write hw (hrest htodo op hop)).2.2
  | send c rest htodo => exact (hhead htodo).elim
  | mallocFail rest htodo =>
      left
      exact ⟨⟨h.state, h.running, hrest htodo⟩, rfl, rfl, rfl, rfl, rfl⟩
  | expand op rest a ops htodo he =>
      left
      apply hstay
      intro op' hop'
      rcases List.mem_append.1 hop' with hops | hmem
      · cases he with
        | malloc => cases hops
        | closed b => cases hops
        | noProcess hno => cases hops
        | process hs ho =>
            obtain rfl : op' = .callProcess := by simpa using hops
            trivial
        | processed n =>
            rw [processReturned_of_ok hok] at hops
            cases hops
        | closeEffect e => exact hok.elim
        | processEffect e => exact hok.elim
        | openEffect e => exact hok.elim
        | _ => exact (hhead htodo).elim
      · exact hrest htodo op' hmem
  | opened b rest htodo => exact (hhead htodo).elim
  | ret ok rest htodo => exact (hhead htodo).elim
  | loop rest htodo =>
      left
      apply hstay
      split
      · simp [Settled]
      · exact settled_exitOps cfg el el
  | recv m more rest htodo hc =>
      right
      exact ⟨m, hc, rfl, rfl, rfl, rfl, rfl⟩
  | poll rest htodo hc hw =>
      left
      apply hstay
      simp [processOps, Settled]

theorem handles_closeOps {cfg : Config} {el : Element} {ops : List Op}
    (h : ∀ op ∈ ops, op.handles = true) :
    ∀ op ∈ closeOps cfg el ++ ops, op.handles = true := by
  intro op hop
  rcases List.mem_append.1 hop with hclose | hops
  · unfold closeOps at hclose
    split at hclose
    · simp only [setOpen, List.mem_cons, List.not_mem_nil, or_false] at hclose
      rcases hclose with rfl | rfl <;> rfl
    · cases hclose
  · exact h op hops

/-- The handler of a request leads to what it asks for. -/
theorem Takes.leads {cfg : Config} (hopen : cfg.hasOpen = true)
    {el el' : Element} {m : Msg} {last : Option Cmd}
    (h : Takes cfg el el' m) (hidle : Idle el last)
    (hreq : m.cmd.isRequest = true) : Leads el' m.cmd := by
  have hfinal : stateField.final el' =
      stateField.after (onCmd cfg el m.cmd) el.state := by
    rw [Field.final, h.todo, stateField_get, h.state]
  have hrun : runningField.final el' =
      runningField.after (onCmd cfg el m.cmd) el.isRunning := by
    rw [Field.final, h.todo, runningField_get, h.running]
  rw [onCmd_state] at hfinal
  rw [onCmd_running] at hrun
  rw [Leads, h.todo, hfinal, hrun]
  cases hc : m.cmd with
  | resume =>
      by_cases hstate : el.state = .running
      · right
        simp [onCmd, hstate, Op.handles, requested]
      · left
        simp only [onCmd, if_neg hstate, hopen, if_true]
        split <;> simp
  | pause =>
      right
      refine ⟨?_, rfl, rfl⟩
      intro op hop
      rw [onCmd, List.append_assoc] at hop
      rcases List.mem_append.1 hop with hstate | hrest
      · simp only [setState, List.mem_singleton] at hstate
        rw [hstate]
        rfl
      · exact handles_closeOps (by simp [Op.handles]) op hrest
  | stop =>
      right
      refine ⟨?_, rfl, ?_⟩
      · simp only [onCmd]
        split
        · exact handles_closeOps (by simp [Op.handles])
        · simp [Op.handles]
      · -- a stopped element does not run
        by_cases hended : el.state ≠ .finished ∧ el.state ≠ .stopped
        · simp [hended]
        · have hlast : last ≠ some .resume := by
            intro hlast
            have hstate := hidle.state
            rw [hlast] at hstate
            simp [hstate, requested] at hended
          simp [hended, hidle.running, hlast]
  | error => simp [hc, Cmd.isRequest] at hreq
  | finish => simp [hc, Cmd.isRequest] at hreq
  | destroy => simp [hc, Cmd.isRequest] at hreq

/-- The task goes on with the handler of `c`, or returns from it. -/
structure Serving (el el' : Element) (c : Cmd) : Prop where
  cmds : el'.cmds = el.cmds
  sent : el'.sent = el.sent
  next : (el'.handling = el.handling ∧ Leads el' c) ∨
    (el'.handling = none ∧ Idle el' (some c))

/-- Opening the element: `open` succeeds. -/
theorem leads_opened {el : Element} :
    Leads { el with todo := openReturned true } .resume := by
  right
  simp [openReturned, resumedOps, Op.handles, Field.final, requested]

theorem Leads.ret {cfg : Config} {el : Element} {rest : List Op} {c : Cmd}
    (htodo : el.todo = .ret true :: rest)
    (hstate : stateField.final el = requested (some c))
    (hrun : runningField.final el = decide (c = .resume)) :
    Serving el (retStep cfg el true) c where
  cmds := rfl
  sent := rfl
  next := by
    right
    refine ⟨rfl, ?_, ?_, ?_⟩
    · show el.state = requested (some c)
      simpa [Field.final, htodo] using hstate
    · show el.isRunning = decide (some c = some .resume)
      simpa [Field.final, htodo] using hrun
    · show ∀ op ∈ processOps, Settled (retStep cfg el true) op
      simp [processOps, Settled]

theorem Leads.move {cfg : Config} {el el' : Element} {a : Answer} {c : Cmd}
    (h : Leads el c) (hm : TaskMove cfg el a el') (hok : TaskOk el a) :
    Serving el el' c := by
  rcases h with ⟨rfl, hopening⟩ | ⟨hall, hstate, hrun⟩
  · cases hm with
    | write w rest htodo =>
        rw [htodo] at hopening
        simp only [setOpen, List.cons.injEq, reduceCtorEq, false_and,
          or_false, false_or, Op.write.injEq] at hopening
        obtain ⟨rfl, rfl⟩ := hopening
        exact ⟨rfl, rfl, .inl ⟨rfl, .inl ⟨rfl, .inl rfl⟩⟩⟩
    | expand op rest a ops htodo he =>
        rw [htodo] at hopening
        cases he with
        | ringbuf =>
            simp only [setOpen, List.cons.injEq, reduceCtorEq, false_and,
              false_or, true_and] at hopening
            exact ⟨rfl, rfl, .inl ⟨rfl, .inl ⟨rfl, .inr (.inl hopening)⟩⟩⟩
        | openEffect e => exact hok.elim
        | _ => simp at hopening
    | opened b rest htodo =>
        obtain rfl : b = true := hok (by simp [htodo])
        exact ⟨rfl, rfl, .inl ⟨rfl, leads_opened⟩⟩
    | send c rest htodo => simp [htodo] at hopening
    | mallocFail rest htodo => simp [htodo] at hopening
    | ret ok rest htodo => simp [htodo] at hopening
    | loop rest htodo => simp [htodo] at hopening
    | recv m more rest htodo hc => simp [htodo] at hopening
    | poll rest htodo hc hw => simp [htodo] at hopening
  · have hhead : ∀ {op : Op} {rest : List Op}, el.todo = op :: rest →
        op.handles = true := fun htodo => hall _ (by simp [htodo])
    have hrest : ∀ {op : Op} {rest : List Op}, el.todo = op :: rest →
        ∀ op' ∈ rest, op'.handles = true := fun htodo op' hop' =>
      hall op' (by rw [htodo]; exact List.mem_cons_of_mem _ hop')
    cases hm with
    | write w rest htodo =>
        obtain ⟨hcmds, hsent, hhandling⟩ := apply_cmds w el
        refine ⟨hcmds, hsent, .inl ⟨hhandling, .inr ⟨hrest htodo, ?_, ?_⟩⟩⟩
        · exact (stateField.final_write htodo).trans hstate
        · exact (runningField.final_write htodo).trans hrun
    | send c rest htodo => cases hhead htodo
    | mallocFail rest htodo => cases hhead htodo
    | expand op rest a ops htodo he =>
        cases he with
        | ringbuf =>
            simp only [Field.final, htodo] at hstate hrun
            exact ⟨rfl, rfl, .inl ⟨rfl, .inr ⟨hrest htodo, hstate, hrun⟩⟩⟩
        | closed b =>
            simp only [Field.final, htodo] at hstate hrun
            exact ⟨rfl, rfl, .inl ⟨rfl, .inr ⟨hrest htodo, hstate, hrun⟩⟩⟩
        | closeEffect e => exact hok.elim
        | _ => cases hhead htodo
    | opened b rest htodo => cases hhead htodo
    | ret ok rest htodo =>
        obtain rfl : ok = true := hhead htodo
        exact Leads.ret htodo hstate hrun
    | loop rest htodo => cases hhead htodo
    | recv m more rest htodo hc => cases hhead htodo
    | poll rest htodo hc hw => cases hhead htodo

/-! ## The steps of the system -/

theorem RequestInv.task {cfg : Config} (hopen : cfg.hasOpen = true)
    {el el' : Element} {a : Answer} (h : RequestInv el)
    (hm : TaskMove cfg el a el') (hok : TaskOk el a) : RequestInv el' := by
  obtain ⟨done, hsent, hserves⟩ := h.account
  unfold Serves at hserves
  cases hh : el.handling with
  | some m =>
      simp only [hh] at hserves
      have hmove := hserves.2.move hm hok
      refine ⟨by rw [hmove.sent]; exact h.requests, done, ?_, ?_⟩
      · rw [hmove.sent, hmove.cmds, hsent]
      · unfold Serves
        rcases hmove.next with ⟨hkeep, hleads⟩ | ⟨hnone, hidle⟩
        · simp only [hkeep, hh]
          exact ⟨hserves.1, hleads⟩
        · simp only [hnone]
          rw [hserves.1]
          exact hidle
  | none =>
      simp only [hh] at hserves
      rcases hserves.move hm hok with hrests | ⟨m, htakes⟩
      · refine ⟨by rw [hrests.sent]; exact h.requests, done, ?_, ?_⟩
        · rw [hrests.sent, hrests.cmds, hsent]
        · unfold Serves
          simp only [hrests.handling, hh]
          exact hrests.idle
      · have hreq : m.cmd.isRequest = true :=
          h.requests m.cmd (by simp [hsent, htakes.cmds])
        refine ⟨by rw [htakes.sent]; exact h.requests, done ++ [m.cmd],
          ?_, ?_⟩
        · rw [htakes.sent, hsent, htakes.cmds]
          simp
        · unfold Serves
          simp only [htakes.handling]
          exact ⟨by simp, htakes.leads hopen hserves hreq⟩

/-- The points of the calls that the one client makes. -/
def CallPc.permitted : CallPc → Bool
  | .resetState => false
  | .terminateTaskRun => false
  | .terminateClear => false
  | .terminateSend => false
  | .terminateWait => false
  | _ => true

/-- What the task is doing depends on these fields only. -/
theorem Serves.frame {el el' : Element} {last : Option Cmd}
    (h : Serves el last) (hh : el'.handling = el.handling)
    (htodo : el'.todo = el.todo) (hstate : el'.state = el.state)
    (hrun : el'.isRunning = el.isRunning) : Serves el' last := by
  unfold Serves at h ⊢
  rw [hh]
  split at h
  · refine ⟨h.1, ?_⟩
    rw [Leads, Field.final, Field.final, htodo, stateField_get,
      runningField_get, hstate, hrun]
    exact h.2
  · refine ⟨hstate.trans h.state, hrun.trans h.running, ?_⟩
    intro op hop
    rw [htodo] at hop
    have hop := h.settled op hop
    unfold Settled at hop ⊢
    rw [hstate, hrun]
    exact hop

theorem RequestInv.client {cfg : Config} {el el' : Element} {pc : CallPc}
    (h : RequestInv el) (hm : ClientMove cfg el pc el')
    (hpc : pc.permitted = true) : RequestInv el' := by
  obtain ⟨done, hsent, hserves⟩ := h.account
  cases hm with
  | same pc hne => exact h
  | clearPaused =>
      exact ⟨h.requests, done, hsent, hserves.frame rfl rfl rfl rfl⟩
  | clearDestroyed => cases hpc
  | send pc c hsends hroom =>
      constructor
      · intro c' hc'
        rcases List.mem_append.1 hc' with hold | hnew
        · exact h.requests c' hold
        · obtain rfl : c' = c := by simpa using hnew
          cases pc <;> simp [CallPc.sends, CallPc.permitted] at hsends hpc <;>
            rw [← hsends] <;> rfl
      · exact ⟨done, by simp [hsent], hserves.frame rfl rfl rfl rfl⟩
  | reset => cases hpc

theorem callNext_permitted {cfg : Config} {el el' : Element}
    {timeout : Bool} {pc pc' : CallPc}
    (h : callNext cfg el timeout pc = some (el', .next pc'))
    (hp : pc.permitted = true) : pc'.permitted = true := by
  cases pc with
  | resumeSend t =>
      simp only [callNext] at h
      split at h <;> cases h
      rfl
  | pauseSend =>
      simp only [callNext] at h
      split at h <;> cases h
      rfl
  | stopSend =>
      simp only [callNext] at h
      split at h <;> cases h
  | pauseClear =>
      cases h
      rfl
  | pauseWait =>
      simp only [callNext, waitBits] at h
      split at h
      · cases h
      · split at h <;> cases h
  | waitForStop =>
      simp only [callNext, waitBits] at h
      split at h
      · cases h
      · split at h <;> cases h
  | resumeWait => cases h
  | resetState => cases hp
  | terminateTaskRun => cases hp
  | terminateClear => cases hp
  | terminateSend => cases hp
  | terminateWait => cases hp
  | _ =>
      simp only [callNext] at h
      split at h <;> cases h <;> rfl

/-- The invariant of the element and its client. -/
structure SysInv (s : Sys) : Prop where
  request : RequestInv s.el
  permitted : ∀ p ∈ s.clients, p.2.permitted = true

theorem SysInv.step {cfg : Config} (hopen : cfg.hasOpen = true) {s t : Sys}
    {a : Act} (h : SysInv s) (hok : OneClient cfg s a)
    (hstep : sysStep cfg s a = some t) : SysInv t := by
  cases a with
  | task ans =>
      simp only [sysStep, Option.map_eq_some_iff] at hstep
      obtain ⟨el, hel, rfl⟩ := hstep
      exact ⟨h.request.task hopen (taskStep_move hel) hok, h.permitted⟩
  | clientStart c =>
      cases hstep
      refine ⟨h.request, ?_⟩
      intro p hp
      rcases List.mem_append.1 hp with hold | hnew
      · exact h.permitted p hold
      · obtain ⟨-, hreset, hterminate⟩ := hok
        obtain rfl : p = (c, c.start) := by simpa using hnew
        cases c with
        | resetState => exact absurd rfl hreset
        | terminate => exact absurd rfl hterminate
        | _ => rfl
  | clientStep i timeout =>
      obtain ⟨c, pc, el, out, hi, hnext, hout⟩ := sysStep_client hstep
      have hpc : pc.permitted = true :=
        h.permitted (c, pc) (List.mem_of_getElem? hi)
      have hel : RequestInv el := h.request.client (callNext_move hnext) hpc
      rcases hout with ⟨pc', rfl, rfl⟩ | ⟨err, rfl, rfl⟩
      · refine ⟨hel, fun p hp => ?_⟩
        rcases List.mem_or_eq_of_mem_set hp with hold | rfl
        · exact h.permitted p hold
        · exact callNext_permitted hnext hpc
      · exact ⟨hel, fun p hp => h.permitted p (List.mem_of_mem_eraseIdx hp)⟩

theorem sysInv_start : SysInv Sys.start where
  request :=
    { requests := by simp [Sys.start, Element.start]
      account := by
        refine ⟨[], rfl, ?_, ?_, ?_⟩
        · rfl
        · rfl
        · simp [Sys.start, Element.start, taskOps, Settled] }
  permitted := by simp [Sys.start]

theorem sysInv_reaches {cfg : Config} (hopen : cfg.hasOpen = true) {s : Sys}
    (hs : (sysMachine cfg).Reaches (OneClient cfg) Sys.start s) : SysInv s :=
  hs.invariant sysInv_start fun _ _ _ h hok hstep => h.step hopen hok hstep

/-- A drained element is in the state that the last request sent asks for. -/
theorem SysInv.idle {s : Sys} (h : SysInv s) (hd : Drained s.el) :
    Idle s.el s.el.sent.getLast? := by
  obtain ⟨done, hsent, hserves⟩ := h.request.account
  unfold Serves at hserves
  rw [hd.1] at hsent
  simp only [hd.2] at hserves
  simpa [hsent] using hserves

/-! ## One call on a drained queue -/

/-- What a call that has not sent yet is going to send. -/
def CallPc.request : CallPc → Option Cmd
  | .resumeTaskRun _ => some .resume
  | .resumeIsRunning _ => some .resume
  | .resumeState _ => some .resume
  | .resumeError _ => some .resume
  | .resumeFinished _ => some .resume
  | .resumeThreshold _ => some .resume
  | .resumeSend _ => some .resume
  | .pauseTaskRun => some .pause
  | .pauseState => some .pause
  | .pauseClear => some .pause
  | .pauseSend => some .pause
  | .stopTaskRun => some .stop
  | .stopState => some .stop
  | .stopSend => some .stop
  | .terminateTaskRun => some .destroy
  | .terminateClear => some .destroy
  | .terminateSend => some .destroy
  | _ => none

theorem request_start {c : Call} : c.start.request = c.request := by
  cases c <;> rfl

/-- The states in which a guard answers a request with `ESP_OK`. -/
def Guarded : Option Cmd → State → Prop
  | some .resume, st => st = .running
  | some .pause, st => State.paused.value ≤ st.value
  | some .stop, st => st = .stopped
  | _, _ => True

/-- What an action of a call can do between two commands of the task. -/
inductive Asks (el : Element) (pc : CallPc) : Element → CallOut → Prop where
  | next (pc' : CallPc) (hr : pc'.request = pc.request) :
      Asks el pc el (.next pc')
  | clear (pc' : CallPc) (hr : pc'.request = pc.request) :
      Asks el pc (el.setBit .paused false) (.next pc')
  | answered (err : Int) (hg : err = ESP_OK → Guarded pc.request el.state) :
      Asks el pc el (.done err)
  | sent (r : Cmd) (hr : pc.request = some r) (out : CallOut)
      (hout : ∀ pc', out = .next pc' → pc' = .resumeWait ∨ pc' = .pauseWait) :
      Asks el pc
        { el with cmds := el.cmds ++ [⟨r, false⟩], sent := el.sent ++ [r] }
        out

theorem asks_of_waitBits {el el' : Element} {bit timeout : Bool}
    {out : CallOut} {pc : CallPc} (hr : pc.request = none)
    (h : waitBits el bit timeout = some (el', out)) : Asks el pc el' out := by
  have hg : ∀ err : Int, err = ESP_OK → Guarded pc.request el.state := by
    intro err _
    rw [hr]
    trivial
  unfold waitBits at h
  split at h
  · cases h
    exact .answered _ (hg _)
  · split at h <;> cases h
    exact .answered _ (hg _)

/-- A test that answers the request, or lets the call go on. -/
theorem asks_of_test {el el' : Element} {P : Prop} [Decidable P] {err : Int}
    {pc pc' : CallPc} {out : CallOut}
    (h : (if P then some (el, CallOut.done err) else some (el, .next pc')) =
      some (el', out))
    (hr : pc'.request = pc.request)
    (hg : P → err = ESP_OK → Guarded pc.request el.state) :
    Asks el pc el' out := by
  split at h <;> cases h
  · rename_i hyes
    exact .answered _ (hg hyes)
  · exact .next _ hr

theorem not_ok_of_fail {P : Prop} (h : ESP_FAIL = ESP_OK) : P := by
  cases h

/-- The test whether there is a task. -/
theorem asks_of_taskRun {el el' : Element} {pc pc' : CallPc} {out : CallOut}
    (h : (if el.taskRun = true then some (el, CallOut.next pc')
      else some (el, .done ESP_FAIL)) = some (el', out))
    (hr : pc'.request = pc.request) : Asks el pc el' out := by
  split at h <;> cases h
  · exact .next _ hr
  · exact .answered _ not_ok_of_fail

theorem callNext_asks {cfg : Config} {el el' : Element} {timeout : Bool}
    {pc : CallPc} {out : CallOut} {last : Option Cmd} (hidle : Idle el last)
    (hroom : el.cmds.length < cfg.internalQueueSize)
    (hp : pc.permitted = true)
    (h : callNext cfg el timeout pc = some (el', out)) :
    Asks el pc el' out := by
  have hsend : ∀ c, el.clientSend cfg c =
      ({ el with cmds := el.cmds ++ [⟨c, false⟩], sent := el.sent ++ [c] },
        true) := by
    intro c
    rcases clientSend_cases cfg el c with ⟨-, heq⟩ | ⟨hfull, -⟩
    · exact heq
    · exact absurd hroom hfull
  cases pc with
  | resumeTaskRun t => exact asks_of_taskRun h rfl
  | resumeIsRunning t =>
      refine asks_of_test h rfl fun hrun _ => ?_
      rw [hidle.running, decide_eq_true_eq] at hrun
      show el.state = .running
      rw [hidle.state, hrun]
      rfl
  | resumeState t => exact asks_of_test h rfl fun hstate _ => hstate
  | resumeError t => exact asks_of_test h rfl fun _ => not_ok_of_fail
  | resumeFinished t =>
      refine asks_of_test h rfl fun hstate _ => ?_
      rw [hidle.state] at hstate
      unfold requested at hstate
      split at hstate <;> cases hstate
  | resumeThreshold t => exact asks_of_test h rfl fun _ => not_ok_of_fail
  | resumeSend t =>
      simp only [callNext, hsend] at h
      split at h <;> cases h
      · exact .sent .resume rfl _ (by simp)
      · exact .sent .resume rfl _ (by simp)
  | pauseTaskRun => exact asks_of_taskRun h rfl
  | pauseState => exact asks_of_test h rfl fun hstate _ => hstate
  | pauseClear =>
      cases h
      exact .clear _ rfl
  | pauseSend =>
      simp only [callNext, hsend] at h
      cases h
      exact .sent .pause rfl _ (by simp)
  | stopTaskRun => exact asks_of_taskRun h rfl
  | stopState => exact asks_of_test h rfl fun hstate _ => hstate
  | stopSend =>
      simp only [callNext, hsend] at h
      cases h
      exact .sent .stop rfl _ (by simp)
  | resumeWait =>
      cases h
      exact .answered _ fun _ => trivial
  | pauseWait => exact asks_of_waitBits rfl h
  | waitForStop => exact asks_of_waitBits rfl h
  | resetState => cases hp
  | terminateTaskRun => cases hp
  | terminateClear => cases hp
  | terminateSend => cases hp
  | terminateWait => cases hp

/-- Nothing was sent since `s`, and nothing happened to the element. -/
structure Untouched (s u : Sys) : Prop where
  drained : Drained u.el
  sent : u.el.sent = s.el.sent
  state : u.el.state = s.el.state

/-- Where a call `c` made in state `s` stands. -/
inductive CallRun (s : Sys) (c : Call) (u : Sys) : Prop where
  | asking (pc : CallPc) (hc : u.clients = [(c, pc)])
      (hr : pc.request = c.request) (hret : u.returned = s.returned)
      (hu : Untouched s u)
  | sent (r : Cmd) (hr : c.request = some r)
      (hs : u.el.sent = s.el.sent ++ [r])
      (hc : ∀ p ∈ u.clients, p.2 = .resumeWait ∨ p.2 = .pauseWait)
  | answered (err : Int) (hc : u.clients = [])
      (hret : u.returned = s.returned ++ [(c, err)]) (hu : Untouched s u)
      (hg : err = ESP_OK → Guarded c.request s.el.state)

theorem task_sent {cfg : Config} {el el' : Element} {a : Answer}
    (hm : TaskMove cfg el a el') : el'.sent = el.sent := by
  cases hm with
  | write w rest htodo => exact (apply_cmds w el).2.1
  | send c rest htodo =>
      rw [Element.cmdSend]
      split <;> rfl
  | _ => rfl

theorem Untouched.task {cfg : Config} {s u : Sys} {el : Element}
    {a : Answer} (h : Untouched s u) (hinv : SysInv u)
    (hm : TaskMove cfg u.el a el) (hok : TaskOk u.el a) :
    Untouched s { u with el := el } := by
  rcases (hinv.idle h.drained).move hm hok with hrests | ⟨m, htakes⟩
  · refine ⟨⟨?_, ?_⟩, ?_, ?_⟩
    · exact hrests.cmds.trans h.drained.1
    · exact hrests.handling.trans h.drained.2
    · exact hrests.sent.trans h.sent
    · exact hrests.state.trans h.state
  · have hcmds := htakes.cmds
    rw [h.drained.1] at hcmds
    cases hcmds

theorem CallRun.client {cfg : Config} {s u v : Sys} {c : Call} {i : Nat}
    {timeout : Bool} (h : CallRun s c u) (hinv : SysInv u)
    (hroom : u.el.cmds.length < cfg.internalQueueSize)
    (hstep : sysStep cfg u (.clientStep i timeout) = some v) :
    CallRun s c v := by
  obtain ⟨c', pc, el, out, hi, hnext, hout⟩ := sysStep_client hstep
  have hmem : (c', pc) ∈ u.clients := List.mem_of_getElem? hi
  cases h with
  | asking pc₀ hc hr hret hu =>
      rw [hc] at hi hmem
      obtain ⟨rfl, rfl⟩ : c' = c ∧ pc = pc₀ := by simpa using hmem
      obtain rfl : i = 0 := by
        cases i with
        | zero => rfl
        | succ i => cases hi
      have hpc : pc.permitted = true :=
        hinv.permitted (c', pc) (by simp [hc])
      have hasks := callNext_asks (hinv.idle hu.drained) hroom hpc hnext
      rcases hout with ⟨pc', rfl, rfl⟩ | ⟨err, rfl, rfl⟩
      · simp only [hc, List.set_cons_zero]
        cases hasks with
        | next _ hr' =>
            exact .asking pc' rfl (hr'.trans hr) hret
              ⟨hu.drained, hu.sent, hu.state⟩
        | clear _ hr' =>
            exact .asking pc' rfl (hr'.trans hr) hret
              ⟨hu.drained, hu.sent, hu.state⟩
        | sent r hr' _ hwait =>
            refine .sent r (hr.symm.trans hr') ?_ ?_
            · simp [hu.sent]
            · simpa using hwait pc' rfl
      · simp only [hc, List.eraseIdx_zero, List.tail_cons]
        cases hasks with
        | answered _ hg =>
            refine .answered err rfl (by simp [hret])
              ⟨hu.drained, hu.sent, hu.state⟩ ?_
            intro herr
            rw [← hr, ← hu.state]
            exact hg herr
        | sent r hr' _ hwait =>
            exact .sent r (hr.symm.trans hr') (by simp [hu.sent]) (by simp)
  | sent r hr hs hc =>
      have hwait := hc (c', pc) hmem
      have hdone : ∃ err, out = .done err ∧ el = u.el := by
        rcases hwait with hpc | hpc
        · simp only at hpc
          rw [hpc] at hnext
          cases hnext
          exact ⟨_, rfl, rfl⟩
        · simp only at hpc
          rw [hpc] at hnext
          simp only [callNext, waitBits] at hnext
          split at hnext
          · cases hnext
            exact ⟨_, rfl, rfl⟩
          · split at hnext <;> cases hnext
            exact ⟨_, rfl, rfl⟩
      obtain ⟨err, rfl, rfl⟩ := hdone
      rcases hout with ⟨pc', hcontra, -⟩ | ⟨err', -, rfl⟩
      · cases hcontra
      · exact .sent r hr hs fun p hp => hc p (List.mem_of_mem_eraseIdx hp)
  | answered err hc hret hu hg =>
      rw [hc] at hmem
      cases hmem

/-- The steps of a run in which no further call is made. -/
def SameCall (cfg : Config) (s : Sys) : Act → Prop
  | .clientStart _ => False
  | a => OneClient cfg s a

instance (cfg : Config) (s : Sys) (a : Act) : Decidable (SameCall cfg s a) :=
  match a with
  | .task ans => inferInstanceAs (Decidable (TaskOk s.el ans))
  | .clientStart _ => inferInstanceAs (Decidable False)
  | .clientStep _ _ => inferInstanceAs (Decidable (_ < _))

theorem SameCall.oneClient {cfg : Config} {s : Sys} {a : Act}
    (h : SameCall cfg s a) : OneClient cfg s a := by
  cases a with
  | clientStart c => exact h.elim
  | _ => exact h

theorem CallRun.step {cfg : Config} {s u v : Sys} {c : Call} {a : Act}
    (h : CallRun s c u) (hinv : SysInv u) (hok : SameCall cfg u a)
    (hstep : sysStep cfg u a = some v) : CallRun s c v := by
  cases a with
  | clientStart c' => exact hok.elim
  | clientStep i timeout => exact h.client hinv hok hstep
  | task ans =>
      simp only [sysStep, Option.map_eq_some_iff] at hstep
      obtain ⟨el, hel, rfl⟩ := hstep
      have hm := taskStep_move hel
      cases h with
      | asking pc hc hr hret hu =>
          exact .asking pc hc hr hret (hu.task hinv hm hok)
      | sent r hr hs hc =>
          exact .sent r hr ((task_sent hm).trans hs) hc
      | answered err hc hret hu hg =>
          exact .answered err hc hret (hu.task hinv hm hok) hg

/-! ## The result -/

/-- A call that started on a drained queue and has returned `ESP_OK`. -/
theorem CallRun.wins {s t : Sys} {c : Call} {r : Cmd} (h : CallRun s c t)
    (hinv : SysInv t) (hd : Drained t.el)
    (hret : t.returned = s.returned ++ [(c, ESP_OK)])
    (hr : c.request = some r) (hterminate : c ≠ .terminate) :
    t.el.state = requested (some r) ∨
      (c = .pause ∧ s.el.state = .stopped ∧ t.el.state = .stopped) := by
  cases h with
  | asking pc hc hreq hsame hu =>
      rw [hsame] at hret
      simp at hret
  | sent r' hr' hs hc =>
      left
      obtain rfl : r' = r := Option.some.inj (hr'.symm.trans hr)
      simpa [hs] using (hinv.idle hd).state
  | answered err hc hret' hu hg =>
      obtain rfl : err = ESP_OK := by
        rw [hret'] at hret
        simpa using hret
      have hguard := hg rfl
      have hstate := hu.state
      rw [hr] at hguard
      cases c with
      | resume th =>
          obtain rfl : Cmd.resume = r := Option.some.inj hr
          exact .inl (hstate.trans hguard)
      | stop =>
          obtain rfl : Cmd.stop = r := Option.some.inj hr
          exact .inl (hstate.trans hguard)
      | pause =>
          obtain rfl : Cmd.pause = r := Option.some.inj hr
          have hguard : State.paused.value ≤ s.el.state.value := hguard
          have hidle := (hinv.idle hd).state
          rw [hstate] at hidle
          rw [hstate]
          unfold requested at hidle
          split at hidle <;> rw [hidle] at hguard ⊢
          · simp [State.value] at hguard
          · exact .inl rfl
          · exact .inr ⟨rfl, rfl, rfl⟩
          · simp [State.value] at hguard
      | terminate => exact absurd rfl hterminate
      | waitForStop => cases hr
      | resetState => cases hr

/-- A pause, from its first action to its return; the task handles it. -/
def pauseElement : List Act :=
  clientGo 0 4 ++ taskGo 1 ++ [.task (.len 1)] ++ taskGo 3 ++
    [.task (.ok true)] ++ taskGo 6 ++ clientGo 0 1

/-- The client stops the running element and resumes it before the task has
handled the `STOP`. -/
def resumeAfterStop : List Act :=
  runElement ++ [.clientStart .stop] ++ clientGo 0 3 ++
    [.clientStart (.resume .zero)] ++ clientGo 0 2 ++ taskGo 1 ++
    [.task (.len 1)] ++ taskGo 2 ++ [.task (.ok true)] ++ taskGo 9

end EspAdf.Ports.AudioElement
