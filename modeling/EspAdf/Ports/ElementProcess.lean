import EspAdf.Ports.ElementMoves

/-!
# Is `process` called only while the element runs?

`audio_element_process_state_running` compares the state with
`AEL_STATE_RUNNING` in the order of the enumeration and looks at `is_open`:
in `AEL_STATE_PAUSED`, `_STOPPED`, `_FINISHED` and `_ERROR` it is `is_open`
alone that keeps `process` from being called.  But the handlers clear
`is_open` only together with a call of `close`, so an element without `close`
is processed once more after each of these commands; and without `open` a
`RESUME` sets `is_open` and leaves the state as it is.

`process_while_running` proves that these are the only ways, over any
sequence of delivered commands, and that each of them leads the task straight
to a call of `process` in another state.
-/

namespace EspAdf.Ports.AudioElement

open EspAdf.Verified

/-! ## Any command, and what has happened so far -/

/-- The commands after which the element waits for a `RESUME`. -/
def Cmd.halts : Cmd → Bool
  | .error => true
  | .finish => true
  | .stop => true
  | .pause => true
  | .resume => false
  | .destroy => false

/-- Those of them after which the element has to be opened anew. -/
def Cmd.ends (c : Cmd) : Bool := c.halts && c ≠ .pause

structure Watched where
  sys : Sys
  /-- History: `open` returned `ESP_OK`, or the element without `open` was
  started, since the last `close`, `STOP`, `FINISH` or `ERROR`. -/
  opened : Bool
  /-- History: a `STOP`, `PAUSE`, `FINISH` or `ERROR` was handled, and no
  `RESUME` successfully since. -/
  halted : Bool
  deriving DecidableEq, Repr

inductive WatchAct where
  | sys (a : Act)
  /-- Somebody queues any command. -/
  | deliver (c : Cmd)
  deriving DecidableEq, Repr

/-- `opened` after the task's next operation. -/
def openedAfter (cfg : Config) (w : Watched) (a : Answer) : Bool :=
  match w.sys.el.todo.head? with
  | some .callOpen => w.opened || a = .ok true
  | some (.write (.isOpen true)) => w.opened || !cfg.hasOpen
  | some .callClose =>
      match a with
      | .ok _ => false
      | _ => w.opened
  | some (.ret _) => w.opened && !w.sys.el.handling.any (·.cmd.ends)
  | _ => w.opened

/-- `halted` after the task's next operation. -/
def haltedAfter (w : Watched) : Bool :=
  match w.sys.el.todo.head? with
  | some (.ret ok) =>
      match w.sys.el.handling with
      | some m => m.cmd.halts || (w.halted && !(ok && m.cmd = .resume))
      | none => w.halted
  | _ => w.halted

def watchStep (cfg : Config) (w : Watched) : WatchAct → Option Watched
  | .sys (.task a) => (sysStep cfg w.sys (.task a)).map fun sys =>
      ⟨sys, openedAfter cfg w a, haltedAfter w⟩
  | .sys a => (sysStep cfg w.sys a).map fun sys => { w with sys := sys }
  | .deliver c => some { w with
      sys := { w.sys with el := (w.sys.el.cmdSend cfg ⟨c, false⟩).1 } }

def watchMachine (cfg : Config) : Machine Watched WatchAct :=
  ⟨watchStep cfg⟩

def Watched.start : Watched := ⟨.start, false, false⟩

/-! ## The property and the condition -/

/-- The next operation of the task calls `process`. -/
def Invokes (el : Element) : Prop :=
  el.todo.head? = some .testProcess ∧
    State.running.value ≤ el.state.value ∧ el.isOpen = true

/-- A call of `process` finds the element running and opened. -/
def ProcessOk (w : Watched) : Prop :=
  Invokes w.sys.el →
    w.sys.el.state = .running ∧ w.opened = true ∧ w.halted = false

/-- A command that halts the element closes it, and a `RESUME` either opens it
or finds it in a state in which it is not processed. -/
def Settles (cfg : Config) (el : Element) (c : Cmd) : Prop :=
  (c.halts = true → el.isOpen = true → cfg.hasClose = true) ∧
  (c = .resume → cfg.hasOpen = false →
    el.state.value ≤ State.running.value)

/-- The condition on a step: what the task dequeues. -/
def SettlesNext (cfg : Config) (w : Watched) (a : WatchAct) : Prop :=
  a = .sys (.task .go) → w.sys.el.todo.head? = some .recv →
    ∀ m ∈ w.sys.el.cmds.head?, Settles cfg w.sys.el m.cmd

instance (el : Element) : Decidable (Invokes el) :=
  inferInstanceAs (Decidable (_ ∧ _))

instance (cfg : Config) (el : Element) (c : Cmd) :
    Decidable (Settles cfg el c) :=
  inferInstanceAs (Decidable (_ ∧ _))

instance (cfg : Config) (w : Watched) (a : WatchAct) :
    Decidable (SettlesNext cfg w a) :=
  inferInstanceAs (Decidable (_ → _))

/-- `Invokes` says when `process` is called. -/
theorem invokes_iff {cfg : Config} {el : Element} {rest : List Op}
    (h : el.todo = .testProcess :: rest) :
    Invokes el ↔
      taskStep cfg el .go = some { el with todo := .callProcess :: rest } := by
  by_cases hg : el.state.value < State.running.value ∨ el.isOpen = false
  · have hne : rest ≠ .callProcess :: rest := fun heq =>
      absurd (congrArg List.length heq) (by simp)
    have hno : ¬Invokes el := by
      rintro ⟨-, hs, ho⟩
      rcases hg with hlow | hclosed
      · omega
      · exact absurd (ho.symm.trans hclosed) (by simp)
    simp only [hno, false_iff, taskStep, h, opStep, if_pos hg,
      Option.some.injEq]
    intro heq
    exact hne (congrArg Element.todo heq)
  · have hyes := hg
    simp only [not_or, Nat.not_lt, Bool.not_eq_false] at hyes
    have : Invokes el := ⟨by simp [h], hyes.1, hyes.2⟩
    simp [this, taskStep, h, opStep, if_neg hg]

/-! ## What one step can do -/

/-- What everybody but the task leaves of the element: `reset` says that
`audio_element_reset_state` is executed. -/
structure Leaves (el el' : Element) (reset : Prop) : Prop where
  todo : el'.todo = el.todo
  handling : el'.handling = el.handling
  isOpen : el'.isOpen = el.isOpen
  isRunning : el'.isRunning = el.isRunning
  waitTime : el'.waitTime = el.waitTime
  state : reset ∧ el'.state = .init ∨ ¬reset ∧ el'.state = el.state

/-- A client executes `audio_element_reset_state`. -/
def ClientResets (w : Watched) : WatchAct → Prop
  | .sys (.task _) => False
  | .sys a => ResetsState w.sys a
  | .deliver _ => False

instance (w : Watched) (a : WatchAct) : Decidable (ClientResets w a) :=
  match a with
  | .sys (.task _) => inferInstanceAs (Decidable False)
  | .sys (.clientStart c) =>
      inferInstanceAs (Decidable (ResetsState w.sys (.clientStart c)))
  | .sys (.clientStep i t) =>
      inferInstanceAs (Decidable (ResetsState w.sys (.clientStep i t)))
  | .deliver _ => inferInstanceAs (Decidable False)

inductive WatchMove (cfg : Config) (w : Watched) :
    WatchAct → Watched → Prop where
  | task (a : Answer) (el : Element) (hm : TaskMove cfg w.sys.el a el) :
      WatchMove cfg w (.sys (.task a))
        ⟨{ w.sys with el := el }, openedAfter cfg w a, haltedAfter w⟩
  | other (a : WatchAct) (sys : Sys) (ha : ∀ ans, a ≠ .sys (.task ans))
      (h : Leaves w.sys.el sys.el (ClientResets w a)) :
      WatchMove cfg w a { w with sys := sys }

theorem leaves_cmdSend (cfg : Config) (el : Element) (m : Msg) :
    Leaves el (el.cmdSend cfg m).1 False := by
  rw [Element.cmdSend]
  split <;> exact ⟨rfl, rfl, rfl, rfl, rfl, .inr ⟨id, rfl⟩⟩

theorem ClientMove.leaves {cfg : Config} {el el' : Element} {pc : CallPc}
    (hm : ClientMove cfg el pc el') : Leaves el el' (pc = .resetState) := by
  cases hm with
  | reset => exact ⟨rfl, rfl, rfl, rfl, rfl, .inl ⟨rfl, rfl⟩⟩
  | same pc hpc => exact ⟨rfl, rfl, rfl, rfl, rfl, .inr ⟨hpc, rfl⟩⟩
  | send pc c hpc hroom =>
      refine ⟨rfl, rfl, rfl, rfl, rfl, .inr ⟨?_, rfl⟩⟩
      rintro rfl
      cases hpc
  | _ => exact ⟨rfl, rfl, rfl, rfl, rfl, .inr ⟨by simp, rfl⟩⟩

theorem watchStep_move {cfg : Config} {w w' : Watched} {a : WatchAct}
    (h : watchStep cfg w a = some w') : WatchMove cfg w a w' := by
  cases a with
  | deliver c =>
      cases h
      exact .other _ _ (by simp) (leaves_cmdSend cfg _ _)
  | sys a =>
      cases a with
      | task ans =>
          simp only [watchStep, sysStep, Option.map_map,
            Option.map_eq_some_iff] at h
          obtain ⟨el, hel, rfl⟩ := h
          exact .task ans el (taskStep_move hel)
      | clientStart c =>
          cases h
          exact .other _ _ (by simp) ⟨rfl, rfl, rfl, rfl, rfl, .inr ⟨id, rfl⟩⟩
      | clientStep i timeout =>
          simp only [watchStep, Option.map_eq_some_iff] at h
          obtain ⟨sys, hsys, rfl⟩ := h
          obtain ⟨c, pc, el, out, hi, hnext, hout⟩ := sysStep_client hsys
          have hl := (callNext_move hnext).leaves
          have hr : ClientResets w (.sys (.clientStep i timeout)) =
              (pc = .resetState) := by
            simp [ClientResets, ResetsState, hi]
          have hsysel : sys.el = el := by
            rcases hout with ⟨pc', -, rfl⟩ | ⟨err, -, rfl⟩ <;> rfl
          rw [← hsysel, ← hr] at hl
          exact .other _ _ (by simp) hl

/-! ## The invariant -/

/-- Operations between two commands. -/
def Op.between : Op → Bool
  | .testProcess => true
  | .loop => true
  | .recv => true
  | _ => false

/-- The operations from the guard of `process` to the loop. -/
def Op.processing : Op → Bool
  | .testProcess => true
  | .callProcess => true
  | .testInit => true
  | _ => false

/-- The program comes back to the loop of `audio_element_task`. -/
def GoesOn (ops : List Op) : Prop :=
  ∃ op ∈ ops, op.between = true ∨ op = .ret true

/-- What holds while `is_open` is set, or going to be. -/
structure Ready (w : Watched) : Prop where
  low : (stateField.final w.sys.el).value ≤ State.running.value
  opened : w.opened = true ∨ openField.after w.sys.el.todo false = true
  resumed : w.halted = true →
    w.sys.el.handling.map Msg.cmd = some .resume
  closing : Op.callClose ∉ w.sys.el.todo
  halts : ∀ m ∈ w.sys.el.handling, m.cmd.halts = false

structure ProcessInv (cfg : Config) (w : Watched) : Prop where
  ready : GoesOn w.sys.el.todo → openField.final w.sys.el = true → Ready w
  between : ∀ op ∈ w.sys.el.todo, op.between = true →
    w.sys.el.handling = none
  polling : Op.testProcess ∈ w.sys.el.todo → w.sys.el.todo = processOps
  opening : Op.callOpen ∈ w.sys.el.todo →
    w.sys.el.handling.map Msg.cmd = some .resume
  nullOpen : GoesOn w.sys.el.todo → setOpen true ∈ w.sys.el.todo →
    cfg.hasOpen = false

/-- The operations that the invariant speaks of. -/
def Op.noted : Op → Bool
  | .callOpen => true
  | .callClose => true
  | .write (.isOpen true) => true
  | .ret true => true
  | op => op.between

/-- An expansion keeps the noted operations that it brings in. -/
theorem Expands.noted {el : Element} {op : Op} {a : Answer} {ops : List Op}
    (he : Expands el op a ops) :
    ∀ op' ∈ ops, op'.noted = true → op' = op := by
  cases he with
  | openEffect e => cases e <;> simp [Effect.ops, Op.noted, Op.between]
  | closeEffect e => cases e <;> simp [Effect.ops, Op.noted, Op.between]
  | processEffect e => cases e <;> simp [Effect.ops, Op.noted, Op.between]
  | processed n =>
      rcases processReturned_cases n with h | h | h <;>
        simp [h, Op.noted, Op.between]
  | _ => simp [Op.noted, Op.between]

theorem Expands.noted_mem {el : Element} {op : Op} {a : Answer}
    {rest ops : List Op} (he : Expands el op a ops)
    (htodo : el.todo = op :: rest) :
    ∀ op' ∈ ops ++ rest, op'.noted = true → op' ∈ el.todo := by
  intro op' hop' hnoted
  rw [htodo]
  rcases List.mem_append.1 hop' with hops | hrest
  · rw [he.noted op' hops hnoted]
    exact List.mem_cons_self
  · exact List.mem_cons_of_mem _ hrest

/-- An expansion may be the reset of the state, no other change of it. -/
theorem Expands.final_state {el : Element} {op : Op} {a : Answer}
    {rest ops : List Op} (he : Expands el op a ops)
    (htodo : el.todo = op :: rest) :
    stateField.after (ops ++ rest) el.state = stateField.final el ∨
      stateField.after (ops ++ rest) el.state = .init := by
  rcases he.state_after rest el.state with heq | ⟨-, heq⟩
  · left
    rw [heq, ← htodo]
    rfl
  · rw [heq, ← htodo]
    exact state_after_init _ _

/-- Nothing that an expansion brings in opens the element. -/
theorem Expands.open_before {el : Element} {op : Op} {a : Answer}
    {rest ops : List Op} (he : Expands el op a ops)
    (htodo : el.todo = op :: rest)
    (hopen : openField.after (ops ++ rest) el.isOpen = true) :
    openField.final el = true := by
  show openField.after el.todo el.isOpen = true
  rw [htodo]
  rcases he.open_after rest el.isOpen with heq | ⟨-, -, heq⟩
  · rw [← heq]
    exact hopen
  · rw [heq] at hopen
    rcases open_after_false (op :: rest) el.isOpen with hsame | hclosed
    · rw [← hsame]
      exact hopen
    · rw [hclosed] at hopen
      cases hopen

theorem Op.noted_of_between {op : Op} (h : op.between = true) :
    op.noted = true := by
  cases op with
  | write w => cases h
  | ret ok => cases h
  | _ => first | rfl | cases h

theorem GoesOn.of_noted {ops ops' : List Op} (h : GoesOn ops')
    (hsub : ∀ op ∈ ops', op.noted = true → op ∈ ops) : GoesOn ops := by
  obtain ⟨op, hop, hgo⟩ := h
  refine ⟨op, hsub op hop ?_, hgo⟩
  rcases hgo with hb | rfl
  · exact Op.noted_of_between hb
  · rfl

/-- A step that brings in no noted operation and keeps the command being
handled. -/
theorem ProcessInv.frame {cfg : Config} {w w' : Watched}
    (h : ProcessInv cfg w)
    (hsub : ∀ op ∈ w'.sys.el.todo, op.noted = true → op ∈ w.sys.el.todo)
    (hpoll : Op.testProcess ∈ w'.sys.el.todo →
      w'.sys.el.todo = w.sys.el.todo)
    (hh : w'.sys.el.handling = w.sys.el.handling)
    (hst : stateField.final w'.sys.el = stateField.final w.sys.el ∨
      stateField.final w'.sys.el = .init)
    (hop : openField.final w'.sys.el = true →
      openField.final w.sys.el = true)
    (hopened : GoesOn w.sys.el.todo → Ready w →
      w'.opened = true ∨ openField.after w'.sys.el.todo false = true)
    (hhalt : w'.halted = w.halted) : ProcessInv cfg w' where
  ready := by
    intro hgo hopen
    have hr := h.ready (hgo.of_noted hsub) (hop hopen)
    refine ⟨?_, hopened (hgo.of_noted hsub) hr, ?_, ?_, ?_⟩
    · rcases hst with hst | hst
      · rw [hst]
        exact hr.low
      · rw [hst]
        decide
    · rw [hhalt, hh]
      exact hr.resumed
    · exact fun hclose => hr.closing (hsub _ hclose rfl)
    · rw [hh]
      exact hr.halts
  between := by
    intro op hmem hb
    rw [hh]
    exact h.between op (hsub op hmem (Op.noted_of_between hb)) hb
  polling := fun hmem =>
    (hpoll hmem).trans (h.polling (hsub _ hmem rfl))
  opening := by
    intro hmem
    rw [hh]
    exact h.opening (hsub _ hmem rfl)
  nullOpen := fun hgo hmem =>
    h.nullOpen (hgo.of_noted hsub) (hsub _ hmem rfl)

/-- The guard of `process` is followed by the loop alone. -/
theorem ProcessInv.notPolling {cfg : Config} {w : Watched} {op : Op}
    {rest : List Op} (h : ProcessInv cfg w)
    (htodo : w.sys.el.todo = op :: rest) : Op.testProcess ∉ rest := by
  intro hmem
  have hall := h.polling (by rw [htodo]; exact List.mem_cons_of_mem _ hmem)
  rw [htodo, processOps, List.cons.injEq] at hall
  rw [hall.2] at hmem
  simp at hmem

/-! ## The handlers -/

/-- What a noted operation of a handler says about the command. -/
def Handled (cfg : Config) (el : Element) (c : Cmd) : Op → Prop
  | .callOpen => c = .resume ∧ cfg.hasOpen = true
  | .callClose => c.halts = true ∧ el.isOpen = true ∧ cfg.hasClose = true
  | .write (.isOpen true) => c = .resume
  | .ret true => c ≠ .destroy ∧ (c = .resume → cfg.hasOpen = true →
      el.state = .running)
  | op => op.between = false

theorem handled_closeOps {cfg : Config} {el : Element} {c : Cmd}
    {ops : List Op} (hc : c.halts = true)
    (h : ∀ op ∈ ops, Handled cfg el c op) :
    ∀ op ∈ closeOps cfg el ++ ops, Handled cfg el c op := by
  intro op hop
  rcases List.mem_append.1 hop with hclose | hops
  · unfold closeOps at hclose
    split at hclose
    · rename_i hboth
      simp only [Bool.and_eq_true] at hboth
      simp only [setOpen, List.mem_cons, List.not_mem_nil, or_false] at hclose
      rcases hclose with rfl | rfl
      · exact ⟨hc, hboth⟩
      · rfl
    · cases hclose
  · exact h op hops

theorem handled_onCmd (cfg : Config) (el : Element) (c : Cmd) :
    ∀ op ∈ onCmd cfg el c, Handled cfg el c op := by
  cases c with
  | error => exact handled_closeOps rfl (by simp [Handled, Op.between])
  | finish => exact handled_closeOps rfl (by simp [Handled, Op.between])
  | pause =>
      intro op hop
      rw [onCmd, List.append_assoc] at hop
      rcases List.mem_append.1 hop with hstate | hrest
      · obtain rfl : op = setState .paused := by simpa using hstate
        rfl
      · exact handled_closeOps rfl (by simp [Handled, Op.between]) op hrest
  | stop =>
      simp only [onCmd]
      split
      · exact handled_closeOps rfl (by simp [Handled, Op.between])
      · simp [Handled, Op.between]
  | resume =>
      simp only [onCmd]
      split
      · rename_i hrun
        simp [Handled, Op.between, hrun]
      · cases ho : cfg.hasOpen <;> split <;>
          simp [Handled, Op.between, resumedOps, ho]
  | destroy => simp [onCmd, Handled, Op.between]

theorem goesOn_onCmd {cfg : Config} {el : Element} {c : Cmd}
    (h : GoesOn (onCmd cfg el c)) : c ≠ .destroy ∧
      (c = .resume → cfg.hasOpen = true → el.state = .running) := by
  obtain ⟨op, hop, hgo⟩ := h
  have hnoted := handled_onCmd cfg el c op hop
  rcases hgo with hb | rfl
  · cases op <;> simp_all [Handled, Op.between]
  · exact hnoted

theorem processing_onCmd (cfg : Config) (el : Element) (c : Cmd) :
    ∀ op ∈ onCmd cfg el c, op.processing = false := by
  have hclose : ∀ op ∈ closeOps cfg el, op.processing = false := by
    unfold closeOps
    split <;> simp [Op.processing]
  have happend : ∀ {ops : List Op}, (∀ op ∈ ops, op.processing = false) →
      ∀ op ∈ closeOps cfg el ++ ops, op.processing = false := by
    intro ops hops op hop
    exact (List.mem_append.1 hop).elim (hclose op) (hops op)
  cases c with
  | error => exact happend (by simp [Op.processing])
  | finish => exact happend (by simp [Op.processing])
  | pause =>
      intro op hop
      rw [onCmd, List.append_assoc] at hop
      rcases List.mem_append.1 hop with hstate | hrest
      · obtain rfl : op = setState .paused := by simpa using hstate
        rfl
      · exact happend (by simp [Op.processing]) op hrest
  | stop =>
      simp only [onCmd]
      split
      · exact happend (by simp [Op.processing])
      · simp [Op.processing]
  | resume =>
      simp only [onCmd]
      split
      · simp [Op.processing]
      · split <;> split <;> simp [Op.processing, resumedOps]
  | destroy => simp [onCmd, Op.processing]

/-- A command that halts the element closes it. -/
theorem onCmd_closes {cfg : Config} {el : Element} {c : Cmd}
    (hset : Settles cfg el c) (hc : c.halts = true)
    (hlow : el.isOpen = true → el.state.value ≤ State.running.value) :
    openField.after (onCmd cfg el c) el.isOpen = false := by
  rw [onCmd_open]
  cases ho : el.isOpen with
  | false => cases c <;> simp_all [Cmd.halts]
  | true =>
      have hclose := hset.1 hc ho
      have hlow := hlow ho
      cases c with
      | stop =>
          have hne : el.state ≠ .finished ∧ el.state ≠ .stopped := by
            constructor <;>
            · intro heq
              rw [heq] at hlow
              exact absurd hlow (by decide)
          simp [hclose, hne]
      | resume => cases hc
      | destroy => cases hc
      | _ => simp [hclose]

/-- A command that leaves the element open and the task running is a
resume. -/
theorem resume_of_open {cfg : Config} {el : Element} {c : Cmd}
    (hset : Settles cfg el c)
    (hlow : el.isOpen = true → el.state.value ≤ State.running.value)
    (hgo : GoesOn (onCmd cfg el c))
    (hopen : openField.after (onCmd cfg el c) el.isOpen = true) :
    c = .resume := by
  have hhalt : c.halts = false := by
    rw [Bool.eq_false_iff]
    intro hhalt
    rw [onCmd_closes hset hhalt hlow] at hopen
    cases hopen
  cases c with
  | resume => rfl
  | destroy => exact absurd rfl (goesOn_onCmd hgo).1
  | _ => cases hhalt

/-! ## The steps -/

/-- A command that `Settles` leaves the element ready if it is open. -/
theorem ProcessInv.recv_ready {cfg : Config} {w : Watched} {el : Element}
    {m : Msg} {rest : List Op} (h : ProcessInv cfg w)
    (htodo : w.sys.el.todo = .recv :: rest)
    (hset : Settles cfg w.sys.el m.cmd)
    (hel : el.todo = onCmd cfg w.sys.el m.cmd)
    (hm : el.handling = some m) (hs : el.state = w.sys.el.state)
    (ho : el.isOpen = w.sys.el.isOpen) (hgo : GoesOn el.todo)
    (hopen : openField.final el = true) :
    Ready ⟨{ w.sys with el := el }, w.opened, w.halted⟩ := by
  have hnoted := handled_onCmd cfg w.sys.el m.cmd
  have hgoes : GoesOn w.sys.el.todo :=
    ⟨.recv, by simp [htodo], .inl rfl⟩
  have hbefore : w.sys.el.isOpen = true → Ready w := fun hopen =>
    h.ready hgoes (by simpa [Field.final, htodo] using hopen)
  have hlow : w.sys.el.isOpen = true →
      w.sys.el.state.value ≤ State.running.value := fun hopen => by
    simpa [Field.final, htodo] using (hbefore hopen).low
  have hfinal : openField.final el =
      openField.after (onCmd cfg w.sys.el m.cmd) w.sys.el.isOpen := by
    rw [Field.final, hel, openField_get, ho]
  have hstate : stateField.final el =
      stateField.after (onCmd cfg w.sys.el m.cmd) w.sys.el.state := by
    rw [Field.final, hel, stateField_get, hs]
  have hgo : GoesOn (onCmd cfg w.sys.el m.cmd) := hel ▸ hgo
  have hopen : openField.after (onCmd cfg w.sys.el m.cmd)
      w.sys.el.isOpen = true := hfinal ▸ hopen
  have hc : m.cmd = .resume := resume_of_open hset hlow hgo hopen
  have hhalt : m.cmd.halts = false := by
    rw [hc]
    rfl
  refine ⟨?_, ?_, fun _ => ?_, ?_, ?_⟩
  · show (stateField.final el).value ≤ State.running.value
    rw [hstate, onCmd_state, hc]
    show w.sys.el.state.value ≤ State.running.value
    cases ho : cfg.hasOpen with
    | false => exact hset.2 hc ho
    | true =>
        have hrun := (goesOn_onCmd hgo).2 hc ho
        exact Nat.le_of_eq (congrArg State.value hrun)
  · show w.opened = true ∨ openField.after el.todo false = true
    rw [hel, onCmd_open, hc]
    by_cases hrun : w.sys.el.state = .running
    · rw [onCmd_open, hc] at hopen
      simp only [if_pos hrun] at hopen ⊢
      simpa [htodo] using (hbefore hopen).opened
    · simp [hrun]
  · show el.handling.map Msg.cmd = some .resume
    rw [hm, ← hc]
    rfl
  · intro hclose
    have hclose : Op.callClose ∈ onCmd cfg w.sys.el m.cmd := hel ▸ hclose
    have := (hnoted _ hclose).1
    rw [hhalt] at this
    cases this
  · intro m' hm'
    have hm' : el.handling = some m' := hm'
    obtain rfl : m = m' := Option.some.inj (hm.symm.trans hm')
    exact hhalt

theorem ProcessInv.recv {cfg : Config} {w : Watched} {el : Element}
    {m : Msg} {rest : List Op} (h : ProcessInv cfg w)
    (htodo : w.sys.el.todo = .recv :: rest)
    (hset : Settles cfg w.sys.el m.cmd)
    (hel : el.todo = onCmd cfg w.sys.el m.cmd)
    (hm : el.handling = some m) (hs : el.state = w.sys.el.state)
    (ho : el.isOpen = w.sys.el.isOpen) :
    ProcessInv cfg ⟨{ w.sys with el := el }, w.opened, w.halted⟩ := by
  have hnoted := handled_onCmd cfg w.sys.el m.cmd
  constructor
  · exact h.recv_ready htodo hset hel hm hs ho
  · intro op hop hb
    have hop : op ∈ onCmd cfg w.sys.el m.cmd := hel ▸ hop
    have := hnoted op hop
    cases op <;> simp_all [Handled, Op.between]
  · intro hop
    have hop : Op.testProcess ∈ onCmd cfg w.sys.el m.cmd := hel ▸ hop
    cases hnoted _ hop
  · intro hop
    have hop : Op.callOpen ∈ onCmd cfg w.sys.el m.cmd := hel ▸ hop
    show el.handling.map Msg.cmd = some .resume
    rw [hm, ← (hnoted _ hop).1]
    rfl
  · intro hgo hop
    have hop : setOpen true ∈ onCmd cfg w.sys.el m.cmd := hel ▸ hop
    have hc : m.cmd = .resume := hnoted _ hop
    have hgo : GoesOn (onCmd cfg w.sys.el m.cmd) := hel ▸ hgo
    rw [Bool.eq_false_iff]
    intro ho
    have hrun := (goesOn_onCmd hgo).2 hc ho
    rw [hc] at hop
    simp [onCmd, hrun] at hop

theorem noted_exitOps (cfg : Config) (el : Element) :
    ∀ op ∈ exitOps cfg el, op.noted = true → op = .callClose := by
  intro op hop
  unfold exitOps closeOps at hop
  split at hop
  · simp only [setOpen, setBits, setTaskRun, List.cons_append,
      List.nil_append, List.mem_cons, List.not_mem_nil, or_false] at hop
    rcases hop with rfl | rfl | rfl | rfl <;> simp [Op.noted, Op.between]
  · simp only [setBits, setTaskRun, List.nil_append, List.mem_cons,
      List.not_mem_nil, or_false] at hop
    rcases hop with rfl | rfl <;> simp [Op.noted, Op.between]

theorem not_goesOn_exitOps (cfg : Config) (el : Element) :
    ¬GoesOn (exitOps cfg el) := by
  rintro ⟨op, hop, hb | rfl⟩
  · rw [noted_exitOps cfg el op hop (Op.noted_of_between hb)] at hb
    cases hb
  · cases noted_exitOps cfg el _ hop rfl

/-- At the end of the task the invariant says nothing. -/
theorem ProcessInv.exit {cfg : Config} {w : Watched}
    (h : ∀ op ∈ w.sys.el.todo, op.noted = true → op = .callClose) :
    ProcessInv cfg w := by
  have hno : ∀ op ∈ w.sys.el.todo, op.between = true → False := by
    intro op hop hb
    have := h op hop (Op.noted_of_between hb)
    subst this
    cases hb
  have hgo : ¬GoesOn w.sys.el.todo := by
    rintro ⟨op, hop, hb | rfl⟩
    · exact hno op hop hb
    · cases h _ hop rfl
  constructor
  · exact fun hg => absurd hg hgo
  · exact fun op hop hb => (hno op hop hb).elim
  · exact fun hop => (hno _ hop rfl).elim
  · intro hop
    cases h _ hop rfl
  · exact fun hg => absurd hg hgo

theorem ProcessInv.opened {cfg : Config} {w : Watched} {rest : List Op}
    (h : ProcessInv cfg w) (htodo : w.sys.el.todo = .callOpen :: rest)
    (b : Bool) :
    ProcessInv cfg ⟨{ w.sys with
      el := { w.sys.el with todo := openReturned b } },
      openedAfter cfg w (.ok b), haltedAfter w⟩ := by
  have hc : w.sys.el.handling.map Msg.cmd = some .resume :=
    h.opening (by simp [htodo])
  cases b with
  | false => exact .exit (by simp [openReturned, Op.noted, Op.between])
  | true =>
      constructor
      · intro _ _
        refine ⟨?_, ?_, fun _ => hc, ?_, ?_⟩
        · simp [Field.final, openReturned, resumedOps]
        · simp [openedAfter, htodo]
        · simp [openReturned, resumedOps]
        · intro m hm
          have hm : w.sys.el.handling = some m := hm
          rw [hm] at hc
          rw [Option.some.inj hc]
          rfl
      · intro op hop hb
        have hop : op ∈ openReturned true := hop
        simp only [openReturned, resumedOps, List.cons_append,
          List.nil_append, List.mem_cons, List.not_mem_nil, or_false] at hop
        rcases hop with rfl | rfl | rfl | rfl | rfl | rfl | rfl <;> cases hb
      · intro hop
        simp [openReturned, resumedOps] at hop
      · intro hop
        simp [openReturned, resumedOps] at hop
      · intro _ hop
        simp [openReturned, resumedOps] at hop

theorem ProcessInv.ret {cfg : Config} {w : Watched} {ok : Bool}
    {rest : List Op} (h : ProcessInv cfg w)
    (htodo : w.sys.el.todo = .ret ok :: rest) :
    ProcessInv cfg ⟨{ w.sys with el := retStep cfg w.sys.el ok },
      openedAfter cfg w .go, haltedAfter w⟩ := by
  cases ok with
  | false => exact .exit (noted_exitOps cfg w.sys.el)
  | true =>
      have hgo : GoesOn w.sys.el.todo := ⟨.ret true, by simp [htodo], .inr rfl⟩
      constructor
      · intro _ hopen
        have hr : Ready w := h.ready hgo (by
          simpa [Field.final, retStep, processOps, htodo] using hopen)
        have hopened : w.opened = true := by simpa [htodo] using hr.opened
        have hlow : w.sys.el.state.value ≤ State.running.value := by
          simpa [Field.final, htodo] using hr.low
        have hhalts := hr.halts
        have hresumed := hr.resumed
        refine ⟨hlow, .inl ?_, ?_, by simp [retStep, processOps], ?_⟩
        · cases hm : w.sys.el.handling with
          | none => simp [openedAfter, htodo, hopened, hm]
          | some m =>
              simp [openedAfter, htodo, hopened, hm, Cmd.ends, hhalts m hm]
        · intro hhalt
          exfalso
          cases hm : w.sys.el.handling with
          | none =>
              simp only [haltedAfter, htodo, List.head?_cons, hm] at hhalt
              simp [hm, hhalt] at hresumed
          | some m =>
              simp only [haltedAfter, htodo, List.head?_cons, hm,
                hhalts m hm, Bool.false_or, Bool.and_eq_true] at hhalt
              simp [hm, hhalt.1] at hresumed
              simp [hresumed] at hhalt
        · simp [retStep]
      · exact fun op hop hb => rfl
      · exact fun _ => rfl
      · simp [retStep, processOps]
      · simp [retStep, processOps]

/-- An operation is replaced by others. -/
theorem ProcessInv.expand {cfg : Config} {w : Watched} {op : Op}
    {rest ops : List Op} {a : Answer} (h : ProcessInv cfg w)
    (htodo : w.sys.el.todo = op :: rest) (he : Expands w.sys.el op a ops) :
    ProcessInv cfg ⟨{ w.sys with el := { w.sys.el with todo := ops ++ rest } },
      openedAfter cfg w a, haltedAfter w⟩ := by
  refine h.frame (he.noted_mem htodo) ?_ rfl (he.final_state htodo)
    (he.open_before htodo) ?_ ?_
  · intro hmem
    rcases List.mem_append.1 hmem with hops | hrest
    · obtain rfl := he.noted _ hops rfl
      cases he <;> simp at hops
    · exact absurd hrest (h.notPolling htodo)
  · intro hgo hr
    have hopened : w.opened = true ∨ openField.after (ops ++ rest) false = true := by
      refine hr.opened.imp_right fun hlater => ?_
      rcases he.open_after rest false with heq | ⟨-, -, heq⟩ <;>
        rw [heq, ← htodo] <;> exact hlater
    cases he with
    | closed b => exact absurd (by simp [htodo]) hr.closing
    | _ => simpa [openedAfter, htodo] using hopened
  · cases he <;> simp [haltedAfter, htodo]

/-- The task goes round its loop. -/
theorem ProcessInv.turn {cfg : Config} {w : Watched} {op : Op}
    {rest ops : List Op} (h : ProcessInv cfg w)
    (htodo : w.sys.el.todo = op :: rest) (hop : op = .loop ∨ op = .recv)
    (hops : ops = [.recv] ∨ ops = processOps) :
    ProcessInv cfg
      { w with sys := { w.sys with el := { w.sys.el with todo := ops } } } := by
  have hb : op.between = true := by rcases hop with rfl | rfl <;> rfl
  have hgo : GoesOn w.sys.el.todo := ⟨op, by simp [htodo], .inl hb⟩
  have hnone := h.between op (by simp [htodo]) hb
  have hnew : ∀ op ∈ ops, op.between = true := by
    rcases hops with rfl | rfl <;> simp [processOps, Op.between]
  have hfinal : ∀ {α : Type} (F : Field α) (v : α),
      F.after ops v = v ∧ F.after w.sys.el.todo v = v := by
    intro α F v
    rw [htodo]
    constructor
    · rcases hops with rfl | rfl <;> rfl
    · rcases hop with rfl | rfl <;> rfl
  constructor
  · intro _ hopen
    have hopen : openField.after ops w.sys.el.isOpen = true := hopen
    rw [(hfinal _ _).1] at hopen
    have hr : Ready w := h.ready hgo (by
      rw [Field.final, (hfinal _ _).2]
      exact hopen)
    refine ⟨?_, .inl ?_, hr.resumed, ?_, hr.halts⟩
    · show (stateField.after ops w.sys.el.state).value ≤ State.running.value
      rw [(hfinal _ _).1, ← (hfinal stateField w.sys.el.state).2]
      exact hr.low
    · have hopened := hr.opened
      rw [(hfinal _ _).2] at hopened
      simpa using hopened
    · intro hclose
      cases hnew _ hclose
  · exact fun op' hop' _ => hnone
  · intro hmem
    rcases hops with rfl | rfl
    · simp at hmem
    · rfl
  · intro hmem
    cases hnew _ hmem
  · intro _ hmem
    cases hnew _ hmem

/-- One operation of the task; the handlers and their returns are treated
above. -/
theorem ProcessInv.task {cfg : Config} {w : Watched} {el : Element}
    {a : Answer} (h : ProcessInv cfg w) (hm : TaskMove cfg w.sys.el a el)
    (hrecv : a = .go → w.sys.el.todo.head? = some .recv →
      ∀ m ∈ w.sys.el.cmds.head?, Settles cfg w.sys.el m.cmd) :
    ProcessInv cfg
      ⟨{ w.sys with el := el }, openedAfter cfg w a, haltedAfter w⟩ := by
  have hrest : ∀ {op : Op} {rest : List Op}, w.sys.el.todo = op :: rest →
      ∀ op' ∈ rest, op'.noted = true → op' ∈ w.sys.el.todo :=
    fun htodo op' hop' _ => by
      rw [htodo]
      exact List.mem_cons_of_mem _ hop'
  have hpoll : ∀ {op : Op} {rest ops : List Op}, w.sys.el.todo = op :: rest →
      Op.testProcess ∈ rest → rest = ops := fun htodo hmem =>
    absurd hmem (h.notPolling htodo)
  cases hm with
  | write op rest htodo =>
      refine h.frame (hrest htodo) (hpoll htodo) ?_ (.inl (stateField.final_write htodo))
        (fun hopen => ?_) ?_ ?_
      · cases op with
        | bit b v => cases b <;> rfl
        | _ => rfl
      · rw [openField.final_write htodo] at hopen
        exact hopen
      · intro hgo hr
        have hopened := hr.opened
        cases op with
        | isOpen b =>
            cases b with
            | true =>
                have hno := h.nullOpen hgo (by simp [htodo])
                simp [openedAfter, htodo, hno]
            | false => simpa [openedAfter, htodo] using hopened
        | _ => simpa [openedAfter, htodo] using hopened
      · simp [haltedAfter, htodo]
  | send c rest htodo =>
      refine h.frame (hrest htodo) (hpoll htodo) ?_ (.inl (stateField.final_send htodo _))
        (fun hopen => ?_) ?_ ?_
      · rw [Element.cmdSend]
        split <;> rfl
      · rw [openField.final_send htodo] at hopen
        exact hopen
      · intro hgo hr
        simpa [openedAfter, htodo] using hr.opened
      · simp [haltedAfter, htodo]
  | mallocFail rest htodo =>
      refine h.frame (hrest htodo) (hpoll htodo) rfl (.inl ?_) (fun hopen => ?_) ?_ ?_
      · simp [Field.final, htodo]
      · simpa [Field.final, htodo] using hopen
      · intro hgo hr
        simpa [openedAfter, htodo] using hr.opened
      · simp [haltedAfter, htodo]
  | expand op rest a ops htodo he => exact h.expand htodo he
  | opened b rest htodo => exact h.opened htodo b
  | ret ok rest htodo => exact h.ret htodo
  | loop rest htodo =>
      simp only [openedAfter, haltedAfter, htodo, List.head?_cons]
      split
      · exact h.turn htodo (.inl rfl) (.inl rfl)
      · exact .exit (noted_exitOps cfg w.sys.el)
  | recv m more rest htodo hc =>
      have hset := hrecv rfl (by simp [htodo]) m (by simp [hc])
      simp only [openedAfter, haltedAfter, htodo, List.head?_cons]
      exact h.recv htodo hset rfl rfl rfl rfl
  | poll rest htodo hc hw =>
      simp only [openedAfter, haltedAfter, htodo, List.head?_cons]
      exact h.turn htodo (.inr rfl) (.inr rfl)

/-- An action of somebody else. -/
theorem ProcessInv.other {cfg : Config} {w : Watched} {sys : Sys} {r : Prop}
    (h : ProcessInv cfg w) (hl : Leaves w.sys.el sys.el r) :
    ProcessInv cfg { w with sys := sys } := by
  refine h.frame ?_ (fun _ => hl.todo) hl.handling ?_ ?_ ?_ rfl
  · intro op hop _
    rw [← hl.todo]
    exact hop
  · rw [Field.final, Field.final, hl.todo]
    rcases hl.state with ⟨-, hs⟩ | ⟨-, hs⟩
    · rw [stateField_get, hs]
      exact state_after_init _ _
    · exact .inl (by rw [stateField_get, hs, stateField_get])
  · rw [Field.final, Field.final, hl.todo, openField_get, hl.isOpen,
      openField_get]
    exact id
  · intro _ hr
    show w.opened = true ∨ openField.after sys.el.todo false = true
    rw [hl.todo]
    exact hr.opened

theorem processInv_start (cfg : Config) : ProcessInv cfg Watched.start := by
  constructor
  · intro _ hopen
    cases hopen
  · exact fun op hop hb => rfl
  · simp [Watched.start, Sys.start, Element.start, taskOps]
  · simp [Watched.start, Sys.start, Element.start, taskOps]
  · simp [Watched.start, Sys.start, Element.start, taskOps]

theorem processInv_reaches {cfg : Config} {w : Watched}
    (hw : (watchMachine cfg).Reaches (SettlesNext cfg) Watched.start w) :
    ProcessInv cfg w := by
  refine hw.invariant (I := ProcessInv cfg) (processInv_start cfg) ?_
  intro u a v h hok hstep
  cases watchStep_move hstep with
  | task ans el hm => exact h.task hm fun ha => hok (by rw [ha])
  | other a sys ha hl => exact h.other hl

/-! ## Straight to a wrong call -/

/-- Operations that need no answer of the environment. -/
def Op.passes : Op → Bool
  | .write _ => true
  | .ringbuf => true
  | _ => false

/-- The handlers whose commands are not `Settles` call nobody. -/
theorem onCmd_passes {cfg : Config} (el : Element) {c : Cmd}
    (h : c.halts = true ∧ cfg.hasClose = false ∨
      c = .resume ∧ cfg.hasOpen = false) :
    ∃ ops, onCmd cfg el c = ops ++ [.ret true] ∧
      ∀ op ∈ ops, op.passes = true := by
  refine ⟨(onCmd cfg el c).dropLast, ?_, ?_⟩
  · rcases h with ⟨hc, hno⟩ | ⟨rfl, hno⟩
    · cases c with
      | resume => cases hc
      | destroy => cases hc
      | stop => simp only [onCmd, closeOps, hno]; split <;> simp
      | _ => simp [onCmd, closeOps, hno]
    · simp only [onCmd, hno]
      split
      · rfl
      · split <;> simp [resumedOps]
  · rcases h with ⟨hc, hno⟩ | ⟨rfl, hno⟩
    · cases c with
      | resume => cases hc
      | destroy => cases hc
      | stop => simp only [onCmd, closeOps, hno]; split <;> simp [Op.passes]
      | _ => simp [onCmd, closeOps, hno, Op.passes]
    · simp only [onCmd, hno]
      split
      · simp [Op.passes]
      · split <;> simp [resumedOps, Op.passes]

/-- The task alone, for `n` operations. -/
def watchGo (n : Nat) : List WatchAct := List.replicate n (.sys (.task .go))

/-- The task executes such a program, and the fields get their final
values. -/
theorem run_passes (cfg : Config) (ops : List Op)
    (hp : ∀ op ∈ ops, op.passes = true) :
    ∀ w : Watched, w.sys.el.todo = ops ++ [.ret true] → ∃ w',
      (watchMachine cfg).run w (watchGo ops.length) = some w' ∧
      w'.sys.el.todo = [.ret true] ∧
      w'.sys.el.state = stateField.final w.sys.el ∧
      w'.sys.el.isOpen = openField.final w.sys.el := by
  induction ops with
  | nil =>
      intro w htodo
      exact ⟨w, rfl, htodo, by simp [Field.final, htodo],
        by simp [Field.final, htodo]⟩
  | cons op ops ih =>
      intro w htodo
      have ih := ih fun op' hop' => hp op' (List.mem_cons_of_mem _ hop')
      have hpass := hp op List.mem_cons_self
      cases op with
      | write wr =>
          obtain ⟨w', hrun, htodo', hs, ho⟩ := ih
            ⟨{ w.sys with el := { wr.apply w.sys.el with
              todo := ops ++ [.ret true] } },
              openedAfter cfg w .go, haltedAfter w⟩ rfl
          refine ⟨w', ?_, htodo', ?_, ?_⟩
          · rw [← hrun]
            simp [watchGo, List.replicate_succ, Machine.run_cons,
              watchMachine, watchStep, sysStep, taskStep, htodo, opStep]
          · rw [hs]
            exact stateField.final_write htodo
          · rw [ho]
            exact openField.final_write htodo
      | ringbuf =>
          obtain ⟨w', hrun, htodo', hs, ho⟩ := ih
            ⟨{ w.sys with el := { w.sys.el with
              todo := ops ++ [.ret true] } },
              openedAfter cfg w .go, haltedAfter w⟩ rfl
          refine ⟨w', ?_, htodo', ?_, ?_⟩
          · rw [← hrun]
            simp [watchGo, List.replicate_succ, Machine.run_cons,
              watchMachine, watchStep, sysStep, taskStep, htodo, opStep]
          · rw [hs]
            simp [Field.final, htodo]
          · rw [ho]
            simp [Field.final, htodo]
      | _ => cases hpass

theorem recv_step {cfg : Config} {w w' : Watched} {m : Msg}
    (hhead : w.sys.el.todo.head? = some .recv)
    (hm : m ∈ w.sys.el.cmds.head?)
    (hstep : (watchMachine cfg).step w (.sys (.task .go)) = some w') :
    w'.sys.el.todo = onCmd cfg w.sys.el m.cmd ∧
      w'.sys.el.state = w.sys.el.state ∧
      w'.sys.el.isOpen = w.sys.el.isOpen := by
  obtain ⟨rest, htodo⟩ := List.head?_eq_some_iff.1 hhead
  obtain ⟨more, hcmds⟩ := List.head?_eq_some_iff.1 hm
  simp only [watchMachine, watchStep, sysStep, taskStep, htodo, opStep,
    recvStep, hcmds, Option.map_some, Option.some.injEq] at hstep
  subst hstep
  exact ⟨rfl, rfl, rfl⟩

/-- A dequeued command that is not `Settles` leads straight to a call of
`process` in another state. -/
theorem processed_otherwise {cfg : Config} {w w' : Watched} {a : WatchAct}
    (hno : ¬SettlesNext cfg w a)
    (hstep : (watchMachine cfg).step w a = some w') :
    ∃ n v, (watchMachine cfg).run w' (watchGo n) = some v ∧
      ¬ProcessOk v := by
  simp only [SettlesNext, Classical.not_forall] at hno
  obtain ⟨rfl, hhead, m, hm, hset⟩ := hno
  have hkind : m.cmd.halts = true ∧ w.sys.el.isOpen = true ∧
        cfg.hasClose = false ∨
      m.cmd = .resume ∧ cfg.hasOpen = false ∧
        State.running.value < w.sys.el.state.value := by
    simp only [Settles, Classical.not_and_iff_not_or_not,
      Classical.not_imp, Bool.not_eq_true, Nat.not_le] at hset
    exact hset
  obtain ⟨ops, hops, hpass⟩ := onCmd_passes w.sys.el
    (hkind.imp (fun h => ⟨h.1, h.2.2⟩) fun h => ⟨h.1, h.2.1⟩)
  have hel := recv_step hhead hm hstep
  obtain ⟨v, hrun, hret, hs, ho⟩ :=
    run_passes cfg ops hpass w' (hel.1.trans hops)
  rw [Field.final, hel.1, stateField_get, hel.2.1, onCmd_state] at hs
  rw [Field.final, hel.1, openField_get, hel.2.2, onCmd_open] at ho
  refine ⟨ops.length + 1, ⟨{ v.sys with el := retStep cfg v.sys.el true },
    openedAfter cfg v .go, haltedAfter v⟩, ?_, ?_⟩
  · rw [watchGo, List.replicate_succ', Machine.run_append, ← watchGo, hrun]
    simp [Machine.run_cons, watchMachine, watchStep, sysStep, taskStep, hret,
      opStep]
  · intro hok
    have hbad : State.running.value ≤ v.sys.el.state.value ∧
        v.sys.el.isOpen = true ∧ v.sys.el.state ≠ .running := by
      rw [hs, ho]
      rcases hkind with ⟨hhalts, hopen, hclose⟩ | ⟨hc, hopen, hlow⟩
      · rw [hopen, hclose]
        cases hc : m.cmd with
        | resume => rw [hc] at hhalts; cases hhalts
        | destroy => rw [hc] at hhalts; cases hhalts
        | _ => simp [State.value]
      · rw [hc]
        have hne : w.sys.el.state ≠ .running := fun heq => by
          rw [heq] at hlow
          exact Nat.lt_irrefl _ hlow
        simp only [if_neg hne]
        exact ⟨Nat.le_of_lt hlow, trivial, hne⟩
    exact hbad.2.2 (hok ⟨rfl, hbad.1, hbad.2.1⟩).1

/-! ## The result -/

/-- **Only a running element is processed**, when every command that halts the
element closes it and every `RESUME` opens it. -/
theorem process_while_running {cfg : Config} {w : Watched}
    (hw : (watchMachine cfg).Reaches (SettlesNext cfg) Watched.start w) :
    ProcessOk w ∧ ∀ a w', ¬SettlesNext cfg w a →
      (watchMachine cfg).step w a = some w' → ∃ n v,
        (watchMachine cfg).run w' (watchGo n) = some v ∧ ¬ProcessOk v := by
  have h := processInv_reaches hw
  refine ⟨?_, fun a w' hno hstep => processed_otherwise hno hstep⟩
  rintro ⟨hhead, hvalue, hopen⟩
  have hmem : Op.testProcess ∈ w.sys.el.todo := List.mem_of_head? hhead
  have htodo := h.polling hmem
  have hr : Ready w := h.ready ⟨_, hmem, .inl rfl⟩ (by
    simpa [Field.final, htodo, processOps] using hopen)
  have hlow : w.sys.el.state.value ≤ State.running.value := by
    simpa [Field.final, htodo, processOps] using hr.low
  refine ⟨?_, ?_, ?_⟩
  · cases hs : w.sys.el.state <;> simp_all [State.value]
  · simpa [htodo, processOps] using hr.opened
  · rw [Bool.eq_false_iff]
    intro hhalt
    have hresume := hr.resumed hhalt
    rw [h.between _ hmem rfl] at hresume
    cases hresume

/-! ## Two runs -/

/-- `process` returns a length, and the task takes the next command. -/
def processOnce : List WatchAct :=
  watchGo 1 ++ [.sys (.task (.len 1))] ++ watchGo 2

/-- The running element is paused and resumed. -/
def pauseAndResume : List WatchAct :=
  runElement.map .sys ++ [.deliver .pause] ++ processOnce ++ watchGo 1 ++
    [.sys (.task (.ok true))] ++ watchGo 8 ++ [.deliver .resume] ++
    watchGo 2 ++ [.sys (.task (.ok true))] ++ watchGo 7

theorem process_while_running_resumed : ∃ w,
    (watchMachine defaultConfig).runIf (SettlesNext defaultConfig)
      Watched.start pauseAndResume = some w ∧
    Invokes w.sys.el ∧ w.sys.el.state = .running ∧ w.opened = true ∧
    w.halted = false :=
  have h := process_while_running (Machine.reaches_of_runIf
    (show (watchMachine defaultConfig).runIf (SettlesNext defaultConfig)
      Watched.start pauseAndResume = some _ by rfl))
  ⟨_, rfl, by decide, h.1 (by decide)⟩

/-- An element without `close`. -/
def noClose : Config := { defaultConfig with hasClose := false }

/-- The element without `close` is processed while it is paused. -/
theorem process_while_paused : ∃ w,
    (watchMachine noClose).Reachable Watched.start w ∧
    Invokes w.sys.el ∧ w.sys.el.state = .paused ∧ w.halted = true :=
  ⟨_, Machine.reachable_iff_run.2 ⟨runElement.map .sys ++
    [.deliver .pause] ++ processOnce ++ watchGo 6, rfl⟩, by decide, rfl, rfl⟩

end EspAdf.Ports.AudioElement
