import EspAdf.Ports.AudioElement

/-!
# What one action of the element system can do

`TaskMove` and `ClientMove` say everything one action can do, so no later
proof unfolds a step function.  A `Field` is a field of the element that the
operations of the task assign; its `final` value is the one it has when the
operations the task still has to execute are done, which is what the
invariants about the element are stated over.
-/

namespace EspAdf.Ports.AudioElement

open EspAdf.Verified

/-! ## What one action of the task can do -/

/-- An operation that is replaced by others, `ops`, before the task goes on
with what follows it. -/
inductive Expands (el : Element) : Op → Answer → List Op → Prop where
  | ringbuf : Expands el .ringbuf .go []
  | malloc : Expands el .mallocBuf (.ok true) []
  | openEffect (e : Effect) :
      Expands el .callOpen (.effect e) (e.ops ++ [.callOpen])
  | closed (b : Bool) : Expands el .callClose (.ok b) []
  | closeEffect (e : Effect) :
      Expands el .callClose (.effect e) (e.ops ++ [.callClose])
  | processed (n : Int) :
      Expands el .callProcess (.len n) (processReturned n)
  | processEffect (e : Effect) :
      Expands el .callProcess (.effect e) (e.ops ++ [.callProcess])
  | noProcess (h : el.state.value < State.running.value ∨ el.isOpen = false) :
      Expands el .testProcess .go []
  | process (hs : State.running.value ≤ el.state.value)
      (ho : el.isOpen = true) : Expands el .testProcess .go [.callProcess]
  | reinit (h : el.state = .init) : Expands el .testInit .go
      [setOpen false, setRunning false, .resumeSelf]
  | finished (h : el.state ≠ .init) :
      Expands el .testInit .go [.ringbuf, .send .finish]
  | noResume : Expands el .resumeSelf .go []
  | resume (hr : el.isRunning = false) (hs : el.state ≠ .running) :
      Expands el .resumeSelf .go [.send .resume]
  | noStop : Expands el .stopSelf .go []
  | stop (hs : el.state ≠ .stopped) : Expands el .stopSelf .go [.send .stop]

/-- Everything one action of the task can do. -/
inductive TaskMove (cfg : Config) (el : Element) : Answer → Element → Prop
    where
  | write (w : Write) (rest : List Op) (h : el.todo = .write w :: rest) :
      TaskMove cfg el .go { w.apply el with todo := rest }
  | send (c : Cmd) (rest : List Op) (h : el.todo = .send c :: rest) :
      TaskMove cfg el .go { (el.cmdSend cfg ⟨c, true⟩).1 with todo := rest }
  | mallocFail (rest : List Op) (h : el.todo = .mallocBuf :: rest) :
      TaskMove cfg el (.ok false) { el with taskRun := false, todo := rest }
  | expand (op : Op) (rest : List Op) (a : Answer) (ops : List Op)
      (h : el.todo = op :: rest) (he : Expands el op a ops) :
      TaskMove cfg el a { el with todo := ops ++ rest }
  | opened (b : Bool) (rest : List Op) (h : el.todo = .callOpen :: rest) :
      TaskMove cfg el (.ok b) { el with todo := openReturned b }
  | ret (ok : Bool) (rest : List Op) (h : el.todo = .ret ok :: rest) :
      TaskMove cfg el .go (retStep cfg el ok)
  | loop (rest : List Op) (h : el.todo = .loop :: rest) :
      TaskMove cfg el .go { el with
        todo := if el.taskRun then [.recv] else exitOps cfg el }
  | recv (m : Msg) (more : List Msg) (rest : List Op)
      (h : el.todo = .recv :: rest) (hc : el.cmds = m :: more) :
      TaskMove cfg el .go { el with
        cmds := more
        todo := onCmd cfg el m.cmd
        handling := some m
        stopHandled :=
          if m = ⟨.resume, false⟩ then false else el.stopHandled
        stopReports := if m.cmd = .resume then 0 else el.stopReports }
  | poll (rest : List Op) (h : el.todo = .recv :: rest)
      (hc : el.cmds = []) (hw : el.waitTime = .zero) :
      TaskMove cfg el .go { el with todo := processOps }

theorem taskStep_move {cfg : Config} {el el' : Element} {a : Answer}
    (hs : taskStep cfg el a = some el') : TaskMove cfg el a el' := by
  unfold taskStep at hs
  split at hs
  · contradiction
  · rename_i op rest htodo
    unfold opStep at hs
    split at hs
    case h_1 => exact Option.some.inj hs ▸ .write _ rest htodo
    case h_2 => exact Option.some.inj hs ▸ .send _ rest htodo
    case h_3 => exact Option.some.inj hs ▸ .expand _ rest _ _ htodo .ringbuf
    case h_4 => exact Option.some.inj hs ▸ .expand _ rest _ _ htodo .malloc
    case h_5 => exact Option.some.inj hs ▸ .mallocFail rest htodo
    case h_6 b => exact Option.some.inj hs ▸ .opened b rest htodo
    case h_7 e =>
      exact Option.some.inj hs ▸ .expand _ rest _ _ htodo (.openEffect e)
    case h_8 b =>
      exact Option.some.inj hs ▸ .expand _ rest _ _ htodo (.closed b)
    case h_9 e =>
      exact Option.some.inj hs ▸ .expand _ rest _ _ htodo (.closeEffect e)
    case h_10 n =>
      exact Option.some.inj hs ▸ .expand _ rest _ _ htodo (.processed n)
    case h_11 e =>
      exact Option.some.inj hs ▸ .expand _ rest _ _ htodo (.processEffect e)
    case h_12 ok => exact Option.some.inj hs ▸ .ret ok rest htodo
    case h_13 =>
      split at hs
      · rename_i hno
        exact Option.some.inj hs ▸ .expand _ rest _ _ htodo (.noProcess hno)
      · rename_i hyes
        simp only [not_or, Bool.not_eq_false, Nat.not_lt] at hyes
        exact Option.some.inj hs ▸
          .expand _ rest _ _ htodo (.process hyes.1 hyes.2)
    case h_14 =>
      split at hs
      · rename_i hinit
        exact Option.some.inj hs ▸ .expand _ rest _ _ htodo (.reinit hinit)
      · rename_i hne
        exact Option.some.inj hs ▸ .expand _ rest _ _ htodo (.finished hne)
    case h_15 =>
      split at hs
      · exact Option.some.inj hs ▸ .expand _ rest _ _ htodo .noResume
      · rename_i hgo
        simp only [not_or, Bool.not_eq_true] at hgo
        exact Option.some.inj hs ▸
          .expand _ rest _ _ htodo (.resume hgo.2.1 hgo.2.2.1)
    case h_16 =>
      split at hs
      · exact Option.some.inj hs ▸ .expand _ rest _ _ htodo .noStop
      · rename_i hgo
        simp only [not_or] at hgo
        exact Option.some.inj hs ▸ .expand _ rest _ _ htodo (.stop hgo.2)
    case h_17 => exact Option.some.inj hs ▸ .loop rest htodo
    case h_18 =>
      unfold recvStep at hs
      split at hs
      · rename_i m more hc
        exact Option.some.inj hs ▸ .recv m more rest htodo hc
      · rename_i hc
        split at hs
        · rename_i hw
          exact Option.some.inj hs ▸ .poll rest htodo hc hw
        · contradiction
    case h_19 => contradiction

/-! ## What a field will be when the program is done -/

/-- A field of the element that the operations of the task assign. -/
structure Field (α : Type) where
  get : Element → α
  upd : Write → α → α
  get_apply : ∀ w el, get (w.apply el) = upd w (get el)
  get_frame : ∀ el cmds ops, get { el with cmds := cmds, todo := ops } = get el

/-- The value of a field after the operations up to the next jump of the
task or the return of `open`, when nobody else assigns it. -/
@[simp] def Field.after {α : Type} (F : Field α) : List Op → α → α
  | [], v => v
  | .write w :: ops, v => F.after ops (F.upd w v)
  | .callOpen :: _, v => v
  | .ret _ :: _, v => v
  | .loop :: _, v => v
  | .recv :: _, v => v
  | _ :: ops, v => F.after ops v

/-- The value the field is going to have. -/
def Field.final {α : Type} (F : Field α) (el : Element) : α :=
  F.after el.todo (F.get el)

/-- An assignment by the task is already part of the final value. -/
theorem Field.final_write {α : Type} (F : Field α) {el : Element} {w : Write}
    {rest : List Op} (h : el.todo = .write w :: rest) :
    F.final { w.apply el with todo := rest } = F.final el := by
  have hget : F.get { w.apply el with todo := rest } = F.get (w.apply el) :=
    F.get_frame (w.apply el) (w.apply el).cmds rest
  rw [Field.final, Field.final, h, hget, F.get_apply]
  rfl

theorem Field.final_send {α : Type} (F : Field α) {cfg : Config}
    {el : Element} {c : Cmd} {rest : List Op}
    (h : el.todo = .send c :: rest) (m : Msg) :
    F.final { (el.cmdSend cfg m).1 with todo := rest } = F.final el := by
  rw [Field.final, Field.final, h, Element.cmdSend]
  split
  · show F.after rest (F.get { el with cmds := el.cmds ++ [m], todo := rest })
      = F.after rest (F.get el)
    rw [F.get_frame]
  · show F.after rest (F.get { el with cmds := el.cmds, todo := rest })
      = F.after rest (F.get el)
    rw [F.get_frame]

/-- A value that no assignment of a program changes. -/
theorem Field.after_fixed {α : Type} (F : Field α) {v : α} (ops : List Op)
    (h : ∀ w, .write w ∈ ops → F.upd w v = v) : F.after ops v = v := by
  induction ops with
  | nil => rfl
  | cons op ops ih =>
      have ih := ih fun w hw => h w (List.mem_cons_of_mem _ hw)
      cases op with
      | write w =>
          show F.after ops (F.upd w v) = v
          rw [h w List.mem_cons_self]
          exact ih
      | callOpen => rfl
      | ret ok => rfl
      | loop => rfl
      | recv => rfl
      | _ => exact ih

/-- An assignment by somebody else is overwritten or stays. -/
theorem Field.after_or {α : Type} (F : Field α)
    (hconst : ∀ w, (∀ v v', F.upd w v = F.upd w v') ∨ ∀ v, F.upd w v = v)
    (ops : List Op) (v v' : α) :
    F.after ops v' = F.after ops v ∨
      (F.after ops v = v ∧ F.after ops v' = v') := by
  induction ops with
  | nil => exact .inr ⟨rfl, rfl⟩
  | cons op ops ih =>
      cases op with
      | write w =>
          rcases hconst w with hset | hkeep
          · left
            show F.after ops (F.upd w v') = F.after ops (F.upd w v)
            rw [hset v' v]
          · show F.after ops (F.upd w v') = F.after ops (F.upd w v) ∨
              (F.after ops (F.upd w v) = v ∧ F.after ops (F.upd w v') = v')
            rw [hkeep, hkeep]
            exact ih
      | callOpen => exact .inr ⟨rfl, rfl⟩
      | ret ok => exact .inr ⟨rfl, rfl⟩
      | loop => exact .inr ⟨rfl, rfl⟩
      | recv => exact .inr ⟨rfl, rfl⟩
      | _ => exact ih

/-- Closing the element assigns `is_open` only. -/
theorem Field.after_closeOps {α : Type} (F : Field α)
    (hF : ∀ b v, F.upd (.isOpen b) v = v) (cfg : Config) (el : Element)
    (ops : List Op) (v : α) :
    F.after (closeOps cfg el ++ ops) v = F.after ops v := by
  unfold closeOps
  split
  · show F.after ops (F.upd (.isOpen false) v) = F.after ops v
    rw [hF]
  · rfl

def stateField : Field State where
  get := Element.state
  upd := fun w v => match w with
    | .state s => s
    | _ => v
  get_apply := by
    intro w el
    cases w with
    | bit b v => cases b <;> rfl
    | _ => rfl
  get_frame := fun _ _ _ => rfl

@[simp] theorem stateField_get (el : Element) :
    stateField.get el = el.state := rfl

@[simp] theorem stateField_upd (w : Write) (v : State) :
    stateField.upd w v = match w with
      | .state s => s
      | _ => v := rfl

@[simp] theorem stateField_closeOps (cfg : Config) (el : Element)
    (ops : List Op) (v : State) :
    stateField.after (closeOps cfg el ++ ops) v = stateField.after ops v :=
  stateField.after_closeOps (fun _ _ => rfl) cfg el ops v

def runningField : Field Bool where
  get := Element.isRunning
  upd := fun w v => match w with
    | .isRunning b => b
    | _ => v
  get_apply := by
    intro w el
    cases w with
    | bit b v => cases b <;> rfl
    | _ => rfl
  get_frame := fun _ _ _ => rfl

@[simp] theorem runningField_get (el : Element) :
    runningField.get el = el.isRunning := rfl

@[simp] theorem runningField_upd (w : Write) (v : Bool) :
    runningField.upd w v = match w with
      | .isRunning b => b
      | _ => v := rfl

@[simp] theorem runningField_closeOps (cfg : Config) (el : Element)
    (ops : List Op) (v : Bool) :
    runningField.after (closeOps cfg el ++ ops) v = runningField.after ops v :=
  runningField.after_closeOps (fun _ _ => rfl) cfg el ops v

def stoppedField : Field Bool where
  get := Element.stoppedBit
  upd := fun w v => match w with
    | .bit .stopped b => b
    | _ => v
  get_apply := by
    intro w el
    cases w with
    | bit b v => cases b <;> rfl
    | _ => rfl
  get_frame := fun _ _ _ => rfl

@[simp] theorem stoppedField_get (el : Element) :
    stoppedField.get el = el.stoppedBit := rfl

@[simp] theorem stoppedField_upd (w : Write) (v : Bool) :
    stoppedField.upd w v = match w with
      | .bit .stopped b => b
      | _ => v := rfl

@[simp] theorem stoppedField_closeOps (cfg : Config) (el : Element)
    (ops : List Op) (v : Bool) :
    stoppedField.after (closeOps cfg el ++ ops) v = stoppedField.after ops v :=
  stoppedField.after_closeOps (fun _ _ => rfl) cfg el ops v

/-- `AEL_STATUS_STATE_STOPPED` reports since the last `RESUME`. -/
def stopReportsField : Field Nat where
  get := Element.stopReports
  upd := fun w v => match w with
    | .report s => if s = .stateStopped then v + 1 else v
    | _ => v
  get_apply := by
    intro w el
    cases w with
    | bit b v => cases b <;> rfl
    | _ => rfl
  get_frame := fun _ _ _ => rfl

@[simp] theorem stopReportsField_get (el : Element) :
    stopReportsField.get el = el.stopReports := rfl

@[simp] theorem stopReportsField_upd (w : Write) (v : Nat) :
    stopReportsField.upd w v = match w with
      | .report s => if s = .stateStopped then v + 1 else v
      | _ => v := rfl

@[simp] theorem stopReportsField_closeOps (cfg : Config) (el : Element)
    (ops : List Op) (v : Nat) :
    stopReportsField.after (closeOps cfg el ++ ops) v = stopReportsField.after ops v :=
  stopReportsField.after_closeOps (fun _ _ => rfl) cfg el ops v

def openField : Field Bool where
  get := Element.isOpen
  upd := fun w v => match w with
    | .isOpen b => b
    | _ => v
  get_apply := by
    intro w el
    cases w with
    | bit b v => cases b <;> rfl
    | _ => rfl
  get_frame := fun _ _ _ => rfl

@[simp] theorem openField_get (el : Element) :
    openField.get el = el.isOpen := rfl

@[simp] theorem openField_upd (w : Write) (v : Bool) :
    openField.upd w v = match w with
      | .isOpen b => b
      | _ => v := rfl

/-- `is_open` stays set when there is no `close`. -/
@[simp] theorem openField_closeOps (cfg : Config) (el : Element)
    (ops : List Op) (v : Bool) :
    openField.after (closeOps cfg el ++ ops) v =
      openField.after ops (if el.isOpen && cfg.hasClose then false else v) := by
  unfold closeOps
  split <;> rfl

def waitField : Field WaitTime where
  get := Element.waitTime
  upd := fun w v => match w with
    | .waitTime t => t
    | _ => v
  get_apply := by
    intro w el
    cases w with
    | bit b v => cases b <;> rfl
    | _ => rfl
  get_frame := fun _ _ _ => rfl

@[simp] theorem waitField_get (el : Element) :
    waitField.get el = el.waitTime := rfl

@[simp] theorem waitField_upd (w : Write) (v : WaitTime) :
    waitField.upd w v = match w with
      | .waitTime t => t
      | _ => v := rfl

@[simp] theorem waitField_closeOps (cfg : Config) (el : Element)
    (ops : List Op) (v : WaitTime) :
    waitField.after (closeOps cfg el ++ ops) v = waitField.after ops v :=
  waitField.after_closeOps (fun _ _ => rfl) cfg el ops v

theorem stateField_const (w : Write) :
    (∀ v v', stateField.upd w v = stateField.upd w v') ∨
      ∀ v, stateField.upd w v = v := by
  cases w with
  | state s => exact .inl fun _ _ => rfl
  | _ => exact .inr fun _ => rfl

theorem runningField_const (w : Write) :
    (∀ v v', runningField.upd w v = runningField.upd w v') ∨
      ∀ v, runningField.upd w v = v := by
  cases w with
  | isRunning b => exact .inl fun _ _ => rfl
  | _ => exact .inr fun _ => rfl

theorem openField_const (w : Write) :
    (∀ v v', openField.upd w v = openField.upd w v') ∨
      ∀ v, openField.upd w v = v := by
  cases w with
  | isOpen b => exact .inl fun _ _ => rfl
  | _ => exact .inr fun _ => rfl

/-- A reset to `INIT` is overwritten, or it is the final state. -/
theorem state_after_init (ops : List Op) (v : State) :
    stateField.after ops .init = stateField.after ops v ∨
      stateField.after ops .init = .init := by
  rcases stateField.after_or stateField_const ops v .init with h | h
  · exact .inl h
  · exact .inr h.2

theorem running_after_false (ops : List Op) (v : Bool) :
    runningField.after ops false = runningField.after ops v ∨
      runningField.after ops false = false := by
  rcases runningField.after_or runningField_const ops v false with h | h
  · exact .inl h
  · exact .inr h.2

theorem open_after_false (ops : List Op) (v : Bool) :
    openField.after ops false = openField.after ops v ∨
      openField.after ops false = false := by
  rcases openField.after_or openField_const ops v false with h | h
  · exact .inl h
  · exact .inr h.2

/-! ## Final values of the task's programs -/

/-- What a resume leaves in a field; `audio_element_reset_output_ringbuf`
assigns none. -/
theorem Field.after_onCmd_resume {α : Type} (F : Field α) (cfg : Config)
    (el : Element) (v : α) :
    F.after (onCmd cfg el .resume) v =
      if el.state = .running then F.after [setRunning true, .ret true] v
      else if cfg.hasOpen then F.after [setOpen true, .callOpen] v
      else F.after ([setOpen true, setBits .started] ++ resumedOps) v := by
  simp only [onCmd]
  split
  · rfl
  · split <;> split <;> rfl

/-- The state that handling a command leads to, up to the return of `open`. -/
theorem onCmd_state (cfg : Config) (el : Element) (c : Cmd) (v : State) :
    stateField.after (onCmd cfg el c) v = match c with
      | .error => .error
      | .finish => .finished
      | .stop => .stopped
      | .pause => .paused
      | .resume => v
      | .destroy => v := by
  cases c with
  | stop =>
      simp only [onCmd]
      split <;> simp
  | resume =>
      rw [Field.after_onCmd_resume]
      split_ifs <;> simp [resumedOps]
  | _ => simp [onCmd]

theorem onCmd_running (cfg : Config) (el : Element) (c : Cmd) (v : Bool) :
    runningField.after (onCmd cfg el c) v = match c with
      | .error => false
      | .finish => false
      | .stop =>
          if el.state ≠ .finished ∧ el.state ≠ .stopped then false else v
      | .pause => false
      | .resume => if el.state = .running ∨ cfg.hasOpen = false then true else v
      | .destroy => false := by
  cases c with
  | stop =>
      simp only [onCmd]
      split <;> simp
  | resume =>
      rw [Field.after_onCmd_resume]
      split_ifs <;> simp_all [resumedOps]
  | _ => simp [onCmd]

theorem onCmd_stopped (cfg : Config) (el : Element) (c : Cmd) (v : Bool) :
    stoppedField.after (onCmd cfg el c) v = match c with
      | .error => true
      | .finish => true
      | .stop => true
      | .pause => v
      | .resume => if el.state = .running ∨ cfg.hasOpen = true then v else false
      | .destroy => v := by
  cases c with
  | stop =>
      simp only [onCmd]
      split <;> simp
  | resume =>
      rw [Field.after_onCmd_resume]
      split_ifs <;> simp_all [resumedOps]
  | _ => simp [onCmd]

theorem onCmd_stopReports (cfg : Config) (el : Element) (c : Cmd) (v : Nat) :
    stopReportsField.after (onCmd cfg el c) v = match c with
      | .error => v
      | .finish => v + 1
      | .stop =>
          if el.state ≠ .finished ∧ el.state ≠ .stopped then v + 1 else v
      | .pause => v
      | .resume => v
      | .destroy => v := by
  cases c with
  | stop =>
      simp only [onCmd]
      split <;> simp
  | resume =>
      rw [Field.after_onCmd_resume]
      split_ifs <;> simp [resumedOps]
  | _ => simp [onCmd]

theorem onCmd_open (cfg : Config) (el : Element) (c : Cmd) (v : Bool) :
    openField.after (onCmd cfg el c) v = match c with
      | .error => if el.isOpen && cfg.hasClose then false else v
      | .finish => if el.isOpen && cfg.hasClose then false else v
      | .stop =>
          if (el.state ≠ .finished ∧ el.state ≠ .stopped) ∧
            (el.isOpen && cfg.hasClose) then false else v
      | .pause => if el.isOpen && cfg.hasClose then false else v
      | .resume => if el.state = .running then v else true
      | .destroy => v := by
  cases c with
  | stop =>
      simp only [onCmd]
      by_cases h : el.state ≠ .finished ∧ el.state ≠ .stopped
      · simp [h]
      · simp [h]
  | resume =>
      rw [Field.after_onCmd_resume]
      split_ifs <;> simp [resumedOps]
  | _ => simp [onCmd]

theorem onCmd_wait (cfg : Config) (el : Element) (c : Cmd) (v : WaitTime) :
    waitField.after (onCmd cfg el c) v = match c with
      | .error => .maxDelay
      | .finish => .maxDelay
      | .stop =>
          if el.state ≠ .finished ∧ el.state ≠ .stopped then .maxDelay else v
      | .pause => .maxDelay
      | .resume => if el.state = .running ∨ cfg.hasOpen then v else .zero
      | .destroy => v := by
  cases c with
  | stop =>
      simp only [onCmd]
      split <;> simp
  | resume =>
      rw [Field.after_onCmd_resume]
      split_ifs <;> simp_all [resumedOps]
  | _ => simp [onCmd]

theorem processReturned_cases (n : Int) :
    processReturned n = [] ∨ processReturned n = [.testInit] ∨
      processReturned n = [report .errorProcess, .send .error] := by
  unfold processReturned
  split
  · exact .inl rfl
  · split
    · exact .inr (.inl rfl)
    · split
      · exact .inr (.inr rfl)
      · exact .inl rfl

/-- Only `audio_element_reset_state` brings a new state into a program. -/
theorem Expands.state_after {el : Element} {op : Op} {a : Answer}
    {ops : List Op} (h : Expands el op a ops) (rest : List Op) (v : State) :
    stateField.after (ops ++ rest) v = stateField.after (op :: rest) v ∨
      (a = .effect .resetState ∧
        stateField.after (ops ++ rest) v =
          stateField.after (op :: rest) .init) := by
  cases h with
  | openEffect e => cases e <;> simp [Effect.ops]
  | closeEffect e => cases e <;> simp [Effect.ops]
  | processEffect e => cases e <;> simp [Effect.ops]
  | processed n => rcases processReturned_cases n with h | h | h <;> simp [h]
  | _ => simp

theorem Expands.running_after {el : Element} {op : Op} {a : Answer}
    {ops : List Op} (h : Expands el op a ops) (rest : List Op) (v : Bool) :
    runningField.after (ops ++ rest) v = runningField.after (op :: rest) v ∨
      (op = .testInit ∧ el.state = .init ∧
        runningField.after (ops ++ rest) v =
          runningField.after (op :: rest) false) := by
  cases h with
  | openEffect e => cases e <;> simp [Effect.ops]
  | closeEffect e => cases e <;> simp [Effect.ops]
  | processEffect e => cases e <;> simp [Effect.ops]
  | processed n => rcases processReturned_cases n with h | h | h <;> simp [h]
  | reinit hinit => exact .inr ⟨rfl, hinit, by simp⟩
  | _ => simp

/-- Only reopening after `audio_element_reset_state` clears `is_open`. -/
theorem Expands.open_after {el : Element} {op : Op} {a : Answer}
    {ops : List Op} (h : Expands el op a ops) (rest : List Op) (v : Bool) :
    openField.after (ops ++ rest) v = openField.after (op :: rest) v ∨
      (op = .testInit ∧ el.state = .init ∧
        openField.after (ops ++ rest) v =
          openField.after (op :: rest) false) := by
  cases h with
  | openEffect e => cases e <;> simp [Effect.ops]
  | closeEffect e => cases e <;> simp [Effect.ops]
  | processEffect e => cases e <;> simp [Effect.ops]
  | processed n => rcases processReturned_cases n with h | h | h <;> simp [h]
  | reinit hinit => exact .inr ⟨rfl, hinit, by simp⟩
  | _ => simp

/-- What replaces an operation assigns the state, `is_open` and `is_running`,
and reports errors; a field that these leave alone will be as before. -/
theorem Expands.after_eq {α : Type} (F : Field α)
    (hstate : ∀ s v, F.upd (.state s) v = v)
    (hopen : ∀ b v, F.upd (.isOpen b) v = v)
    (hrunning : ∀ b v, F.upd (.isRunning b) v = v)
    (hreport : ∀ s v, s ≠ .stateStopped → F.upd (.report s) v = v)
    {el : Element} {op : Op} {a : Answer} {ops : List Op}
    (h : Expands el op a ops) (rest : List Op) (v : α) :
    F.after (ops ++ rest) v = F.after (op :: rest) v := by
  cases h with
  | openEffect e => cases e <;> simp [Effect.ops, hstate, hreport]
  | closeEffect e => cases e <;> simp [Effect.ops, hstate, hreport]
  | processEffect e => cases e <;> simp [Effect.ops, hstate, hreport]
  | processed n =>
      rcases processReturned_cases n with h | h | h <;> simp [h, hreport]
  | _ => simp [hopen, hrunning]

theorem Expands.wait_after {el : Element} {op : Op} {a : Answer}
    {ops : List Op} (h : Expands el op a ops) (rest : List Op)
    (v : WaitTime) :
    waitField.after (ops ++ rest) v = waitField.after (op :: rest) v :=
  h.after_eq waitField (fun _ _ => rfl) (fun _ _ => rfl) (fun _ _ => rfl)
    (fun _ _ _ => rfl) rest v

theorem Expands.stopped_after {el : Element} {op : Op} {a : Answer}
    {ops : List Op} (h : Expands el op a ops) (rest : List Op) (v : Bool) :
    stoppedField.after (ops ++ rest) v =
      stoppedField.after (op :: rest) v :=
  h.after_eq stoppedField (fun _ _ => rfl) (fun _ _ => rfl) (fun _ _ => rfl)
    (fun _ _ _ => rfl) rest v

theorem Expands.stopReports_after {el : Element} {op : Op} {a : Answer}
    {ops : List Op} (h : Expands el op a ops) (rest : List Op) (v : Nat) :
    stopReportsField.after (ops ++ rest) v =
      stopReportsField.after (op :: rest) v :=
  h.after_eq stopReportsField (fun _ _ => rfl) (fun _ _ => rfl)
    (fun _ _ => rfl) (fun _ _ hs => if_neg hs) rest v

/-! ## The clients -/

/-- The command that a call sends at this point. -/
def CallPc.sends : CallPc → Option Cmd
  | .resumeSend _ => some .resume
  | .pauseSend => some .pause
  | .stopSend => some .stop
  | .terminateSend => some .destroy
  | _ => none

/-- Everything one action of a client's call can do to the element. -/
inductive ClientMove (cfg : Config) (el : Element) : CallPc → Element → Prop
    where
  | same (pc : CallPc) (hpc : pc ≠ .resetState) : ClientMove cfg el pc el
  | clearPaused : ClientMove cfg el .pauseClear (el.setBit .paused false)
  | clearDestroyed :
      ClientMove cfg el .terminateClear (el.setBit .destroyed false)
  | send (pc : CallPc) (c : Cmd) (hpc : pc.sends = some c)
      (hroom : el.cmds.length < cfg.internalQueueSize) :
      ClientMove cfg el pc
        { el with cmds := el.cmds ++ [⟨c, false⟩], sent := el.sent ++ [c] }
  | reset : ClientMove cfg el .resetState { el with state := .init }

/-- A client's command is queued, or the queue is full. -/
theorem clientSend_cases (cfg : Config) (el : Element) (c : Cmd) :
    (el.cmds.length < cfg.internalQueueSize ∧
      el.clientSend cfg c =
        ({ el with cmds := el.cmds ++ [⟨c, false⟩], sent := el.sent ++ [c] },
          true)) ∨
    (¬el.cmds.length < cfg.internalQueueSize ∧
      el.clientSend cfg c = (el, false)) := by
  by_cases h : el.cmds.length < cfg.internalQueueSize
  · exact .inl ⟨h, by simp [Element.clientSend, Element.cmdSend, h]⟩
  · exact .inr ⟨h, by simp [Element.clientSend, Element.cmdSend, h]⟩

theorem clientSend_move (cfg : Config) (el : Element) {pc : CallPc}
    {c : Cmd} (hpc : pc.sends = some c) :
    ClientMove cfg el pc (el.clientSend cfg c).1 := by
  rcases clientSend_cases cfg el c with ⟨hroom, hsend⟩ | ⟨-, hsend⟩
  · rw [hsend]
    exact .send pc c hpc hroom
  · rw [hsend]
    exact .same pc (fun h => by rw [h] at hpc; cases hpc)

/-- A call that sends goes on with the element that sending leaves. -/
theorem callNext_sends {cfg : Config} {el el' : Element} {timeout : Bool}
    {pc : CallPc} {c : Cmd} {out : CallOut} (hpc : pc.sends = some c)
    (h : callNext cfg el timeout pc = some (el', out)) :
    el' = (el.clientSend cfg c).1 := by
  cases pc with
  | resumeSend t =>
      obtain rfl : Cmd.resume = c := Option.some.inj hpc
      simp only [callNext] at h
      split at h <;> cases h <;> rfl
  | pauseSend =>
      obtain rfl : Cmd.pause = c := Option.some.inj hpc
      simp only [callNext] at h
      split at h <;> rename_i heq <;> cases h <;> rw [heq]
  | stopSend =>
      obtain rfl : Cmd.stop = c := Option.some.inj hpc
      simp only [callNext] at h
      split at h <;> rename_i heq <;> cases h <;> rw [heq]
  | terminateSend =>
      obtain rfl : Cmd.destroy = c := Option.some.inj hpc
      simp only [callNext] at h
      split at h <;> rename_i heq <;> cases h <;> rw [heq]
  | _ => cases hpc

theorem callNext_move {cfg : Config} {el el' : Element} {timeout : Bool}
    {pc : CallPc} {out : CallOut}
    (h : callNext cfg el timeout pc = some (el', out)) :
    ClientMove cfg el pc el' := by
  cases hsend : pc.sends with
  | some c =>
      rw [callNext_sends hsend h]
      exact clientSend_move cfg el hsend
  | none =>
      cases pc with
      | resumeSend t => cases hsend
      | pauseSend => cases hsend
      | stopSend => cases hsend
      | terminateSend => cases hsend
      | resumeWait => cases h; exact .same _ (by simp)
      | pauseClear => cases h; exact .clearPaused
      | terminateClear => cases h; exact .clearDestroyed
      | resetState => cases h; exact .reset
      | pauseWait =>
          simp only [callNext, waitBits] at h
          split at h
          · cases h; exact .same _ (by simp)
          · split at h <;> cases h; exact .same _ (by simp)
      | waitForStop =>
          simp only [callNext, waitBits] at h
          split at h
          · cases h; exact .same _ (by simp)
          · split at h <;> cases h; exact .same _ (by simp)
      | terminateWait =>
          simp only [callNext, waitBits] at h
          split at h
          · cases h; exact .same _ (by simp)
          · split at h <;> cases h; exact .same _ (by simp)
      | _ =>
          simp only [callNext] at h
          split at h <;> cases h <;> exact .same _ (by simp)

/-! ## The system -/

/-- An action of the `i`-th call: it goes on, or it returns. -/
theorem sysStep_client {cfg : Config} {s t : Sys} {i : Nat} {timeout : Bool}
    (h : sysStep cfg s (.clientStep i timeout) = some t) :
    ∃ c pc el out, s.clients[i]? = some (c, pc) ∧
      callNext cfg s.el timeout pc = some (el, out) ∧
      ((∃ pc', out = .next pc' ∧
          t = { s with el := el, clients := s.clients.set i (c, pc') }) ∨
        ∃ err, out = .done err ∧ t = { s with
          el := el, clients := s.clients.eraseIdx i
          returned := s.returned ++ [(c, err)] }) := by
  simp only [sysStep] at h
  split at h
  · contradiction
  · rename_i c pc hi
    simp only [Option.map_eq_some_iff] at h
    obtain ⟨⟨el, out⟩, hnext, hout⟩ := h
    refine ⟨c, pc, el, out, hi, hnext, ?_⟩
    cases out with
    | next pc' => exact .inl ⟨pc', rfl, hout.symm⟩
    | done err => exact .inr ⟨err, rfl, hout.symm⟩

/-- An action of the system is one of the task or of a call. -/
theorem sysStep_move {cfg : Config} {s t : Sys} {a : Act}
    (h : sysStep cfg s a = some t) :
    (∃ ans, a = .task ans ∧ TaskMove cfg s.el ans t.el) ∨
    (∃ c, a = .clientStart c ∧ t.el = s.el) ∨
    (∃ i timeout c pc, a = .clientStep i timeout ∧
      s.clients[i]? = some (c, pc) ∧ ClientMove cfg s.el pc t.el) := by
  cases a with
  | task ans =>
      simp only [sysStep, Option.map_eq_some_iff] at h
      obtain ⟨el, hel, rfl⟩ := h
      exact .inl ⟨ans, rfl, taskStep_move hel⟩
  | clientStart c =>
      cases h
      exact .inr (.inl ⟨c, rfl, rfl⟩)
  | clientStep i timeout =>
      obtain ⟨c, pc, el, out, hi, hnext, hout⟩ := sysStep_client h
      refine .inr (.inr ⟨i, timeout, c, pc, rfl, hi, ?_⟩)
      rcases hout with ⟨pc', -, rfl⟩ | ⟨err, -, rfl⟩
      · exact callNext_move hnext
      · exact callNext_move hnext

/-- This step assigns `INIT` on behalf of `audio_element_reset_state`. -/
def ResetsState (s : Sys) : Act → Prop
  | .task _ => s.el.todo.head? = some (setState .init)
  | .clientStart _ => False
  | .clientStep i _ => (s.clients[i]?).map Prod.snd = some .resetState

instance (s : Sys) (a : Act) : Decidable (ResetsState s a) :=
  match a with
  | .task _ => inferInstanceAs (Decidable (_ = _))
  | .clientStart _ => inferInstanceAs (Decidable False)
  | .clientStep _ _ => inferInstanceAs (Decidable (_ = _))

end EspAdf.Ports.AudioElement
