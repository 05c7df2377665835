import EspAdf.Ports.ElementProcess

/-!
# Do the run flags agree?

That the element runs is recorded in `el->state`, `el->is_running`, the
waiting time for commands and `el->is_open`.  Each handler of
`audio_element_on_cmd` assigns them one by one, so they are compared between
two commands: for the values that the task's remaining operations are going
to leave, `Agree` is an invariant.

`flags_agree` proves it for every run in which no element without `open` is
resumed and `audio_element_reset_state` does not take the state of a running
element away from under its task.  A `RESUME` of an element without `open`
sets `is_running` and makes the loop poll but leaves the state; a reset while
`process` runs leaves the loop polling in `AEL_STATE_INIT`.
-/

namespace EspAdf.Ports.AudioElement

open EspAdf.Verified

/-! ## The property -/

/-- The four variables say the same. -/
structure Agree (s : State) (r : Bool) (t : WaitTime) (o : Bool) : Prop where
  running : r = true ↔ s = .running
  polls : s = .running ↔ t = .zero
  opened : r = true → o = true

/-- The flags of the element now. -/
def FlagsAgree (el : Element) : Prop :=
  Agree el.state el.isRunning el.waitTime el.isOpen

/-- The task is between two commands: it is about to step `process`, to test
`task_run` or to wait for a command. -/
def BetweenCmds (el : Element) : Prop :=
  el.todo = processOps ∨ el.todo.head? = some .loop ∨
    el.todo.head? = some .recv

/-- The `RESUME` handler returns `ESP_OK`. -/
def ReturnsResume (el : Element) : Prop :=
  el.todo.head? = some (.ret true) ∧
    el.handling.map Msg.cmd = some .resume

/-- The flags of the element agree with its state. -/
structure FlagsOk (el : Element) : Prop where
  agree : BetweenCmds el → FlagsAgree el
  resumed : ReturnsResume el → el.state = .running
  /-- A loop that polls passes the guard of `process`. -/
  able : BetweenCmds el → el.waitTime = .zero →
    State.running.value ≤ el.state.value ∧ el.isOpen = true

/-- Somebody executes `audio_element_reset_state`, in a callback or not. -/
def Resets (w : Watched) (a : WatchAct) : Prop :=
  a = .sys (.task (.effect .resetState)) ∨ ClientResets w a

/-- The condition on a step: an element without `open` is not resumed, and an
element that is running when the handler in progress is done is not reset,
unless the handler is still to assign the state, or the task comes to its
end. -/
def KeepsFlags (cfg : Config) (w : Watched) (a : WatchAct) : Prop :=
  (a = .sys (.task .go) → w.sys.el.todo.head? = some .recv →
    w.sys.el.cmds.head?.map Msg.cmd = some .resume →
    cfg.hasOpen = true ∨ w.sys.el.state = .running) ∧
  (Resets w a → GoesOn w.sys.el.todo →
    stateField.final w.sys.el = .running →
    stateField.after w.sys.el.todo .init = .running)

instance (el : Element) : Decidable (BetweenCmds el) :=
  inferInstanceAs (Decidable (_ ∨ _))

instance (ops : List Op) : Decidable (GoesOn ops) :=
  inferInstanceAs (Decidable (∃ op ∈ ops, _ ∨ _))

instance (w : Watched) (a : WatchAct) : Decidable (Resets w a) :=
  inferInstanceAs (Decidable (_ ∨ _))

instance (cfg : Config) (w : Watched) (a : WatchAct) :
    Decidable (KeepsFlags cfg w a) :=
  inferInstanceAs (Decidable (_ ∧ _))

/-! ## Agreement -/

theorem Agree.idle {s : State} {t : WaitTime} {o : Bool}
    (hs : s ≠ .running) (ht : t ≠ .zero) : Agree s false t o where
  running := by simp [hs]
  polls := by simp [hs, ht]
  opened := fun h => by cases h

theorem Agree.not_running {s : State} {r : Bool} {t : WaitTime} {o : Bool}
    (h : Agree s r t o) (hs : s ≠ .running) : r = false ∧ t ≠ .zero :=
  ⟨Bool.eq_false_iff.2 fun hr => hs (h.running.1 hr),
    fun ht => hs (h.polls.2 ht)⟩

/-- What is not running may get any other state. -/
theorem Agree.reset {s s' : State} {r : Bool} {t : WaitTime} {o : Bool}
    (h : Agree s r t o) (hs : s ≠ .running) (hs' : s' ≠ .running) :
    Agree s' r t o := by
  obtain ⟨rfl, ht⟩ := h.not_running hs
  exact .idle hs' ht

/-- The values that the flags are going to have agree. -/
def FinalAgree (el : Element) : Prop :=
  Agree (stateField.final el) (runningField.final el) (waitField.final el)
    (openField.final el)

/-- Between two commands all is assigned. -/
theorem BetweenCmds.final {α : Type} {el : Element} (h : BetweenCmds el)
    (F : Field α) : F.final el = F.get el := by
  rcases h with h | h | h
  · rw [Field.final, h]
    rfl
  · obtain ⟨rest, h⟩ := List.head?_eq_some_iff.1 h
    rw [Field.final, h]
    rfl
  · obtain ⟨rest, h⟩ := List.head?_eq_some_iff.1 h
    rw [Field.final, h]
    rfl

theorem BetweenCmds.goesOn {el : Element} (h : BetweenCmds el) :
    GoesOn el.todo := by
  rcases h with h | h | h
  · exact ⟨.loop, by simp [h, processOps], .inl rfl⟩
  · exact ⟨.loop, List.mem_of_head? h, .inl rfl⟩
  · exact ⟨.recv, List.mem_of_head? h, .inl rfl⟩

theorem BetweenCmds.agree {el : Element} (h : BetweenCmds el) :
    FinalAgree el ↔ FlagsAgree el := by
  rw [FinalAgree, h.final, h.final, h.final, h.final]
  rfl

/-! ## The invariant -/

/-- Operations of the handlers that `process` does not bring in: `open`, making
the element run, and any state other than `INIT`. -/
def Op.starts : Op → Bool
  | .callOpen => true
  | .write (.isRunning true) => true
  | .write (.state s) => s ≠ .init
  | _ => false

structure FlagsInv (el : Element) : Prop where
  agree : GoesOn el.todo → FinalAgree el
  resumed : GoesOn el.todo → el.handling.map Msg.cmd = some .resume →
    stateField.final el = .running
  opening : Op.callOpen ∈ el.todo →
    openField.final el = true ∧ ¬GoesOn el.todo
  processing : ∀ op ∈ el.todo, op.processing = true →
    ∀ op' ∈ el.todo, op'.starts = false

theorem FinalAgree.congr {el el' : Element} (h : FinalAgree el)
    (hs : stateField.final el' = stateField.final el)
    (hr : runningField.final el' = runningField.final el)
    (ht : waitField.final el' = waitField.final el)
    (ho : openField.final el' = openField.final el) : FinalAgree el' := by
  rw [FinalAgree, hs, hr, ht, ho]
  exact h

/-- Programs that only reset leave the element in `INIT`. -/
theorem state_after_noStarts (ops : List Op)
    (h : ∀ op ∈ ops, op.starts = false) :
    stateField.after ops .init = .init := by
  refine stateField.after_fixed ops fun w hw => ?_
  have hop := h _ hw
  cases w with
  | state s => simpa [Op.starts] using hop
  | _ => rfl

theorem running_after_noStarts (ops : List Op)
    (h : ∀ op ∈ ops, op.starts = false) :
    runningField.after ops false = false := by
  refine runningField.after_fixed ops fun w hw => ?_
  have hop := h _ hw
  cases w with
  | isRunning b =>
      cases b with
      | true => cases hop
      | false => rfl
  | _ => rfl

/-- A reset that meets the condition is overwritten, or the element is not
running anyway. -/
theorem reset_final {el : Element}
    (h : stateField.final el = .running →
      stateField.after el.todo .init = .running) :
    stateField.after el.todo .init = stateField.final el ∨
      stateField.final el ≠ .running ∧
        stateField.after el.todo .init = .init := by
  rcases state_after_init el.todo el.state with hover | hinit
  · exact .inl hover
  · refine .inr ⟨fun hrun => ?_, hinit⟩
    have hover := h hrun
    rw [hinit] at hover
    cases hover

/-! ## The steps -/

/-- An expansion neither starts the element nor goes back to the guard of
`process`. -/
theorem Expands.starts {el : Element} {op : Op} {a : Answer} {ops : List Op}
    (he : Expands el op a ops) : ∀ op' ∈ ops,
      (op'.starts = true → op' = op) ∧
      (op'.processing = true → op.processing = true) := by
  cases he with
  | openEffect e =>
      cases e <;> simp [Effect.ops, Op.starts, Op.processing]
  | closeEffect e =>
      cases e <;> simp [Effect.ops, Op.starts, Op.processing]
  | processEffect e =>
      cases e <;> simp [Effect.ops, Op.starts, Op.processing]
  | processed n =>
      rcases processReturned_cases n with h | h | h <;>
        simp [h, Op.starts, Op.processing]
  | _ => simp [Op.starts, Op.processing]

/-- A step that keeps the command being handled. -/
theorem FlagsInv.frame {el el' : Element} (h : FlagsInv el)
    (hsub : ∀ op ∈ el'.todo, op.noted = true → op ∈ el.todo)
    (hproc : ∀ op ∈ el'.todo, op.processing = true →
      ∃ op' ∈ el.todo, op'.processing = true)
    (hstarts : ∀ op ∈ el'.todo, op.starts = true → op ∈ el.todo)
    (hh : el'.handling = el.handling)
    (hst : GoesOn el.todo → stateField.final el' = stateField.final el ∨
      stateField.final el ≠ .running ∧ stateField.final el' = .init)
    (hagree : GoesOn el.todo → FinalAgree el → FinalAgree el')
    (hopen : Op.callOpen ∈ el'.todo → openField.final el = true →
      openField.final el' = true) : FlagsInv el' where
  agree := fun hgo =>
    have hgo := hgo.of_noted hsub
    hagree hgo (h.agree hgo)
  resumed := by
    intro hgo hc
    have hgo := hgo.of_noted hsub
    rw [hh] at hc
    have hrun := h.resumed hgo hc
    rcases hst hgo with heq | ⟨hne, -⟩
    · exact heq.trans hrun
    · exact absurd hrun hne
  opening := fun hmem =>
    have hold := h.opening (hsub _ hmem rfl)
    ⟨hopen hmem hold.1, fun hgo => hold.2 (hgo.of_noted hsub)⟩
  processing := by
    intro op hop hp op' hop'
    obtain ⟨q, hq, hqp⟩ := hproc op hop hp
    rw [Bool.eq_false_iff]
    intro hs
    have := h.processing q hq hqp op' (hstarts op' hop' hs)
    rw [this] at hs
    cases hs

/-- A step to the tail of the program. -/
theorem FlagsInv.tail {el el' : Element} {op : Op} {rest : List Op}
    (h : FlagsInv el) (htodo : el.todo = op :: rest)
    (htodo' : el'.todo = rest) (hh : el'.handling = el.handling)
    (hs : stateField.final el' = stateField.final el)
    (hr : runningField.final el' = runningField.final el)
    (ht : waitField.final el' = waitField.final el)
    (ho : openField.final el' = openField.final el) : FlagsInv el' := by
  have hmem : ∀ op' ∈ el'.todo, op' ∈ el.todo := by
    intro op' hop'
    rw [htodo]
    exact List.mem_cons_of_mem _ (htodo' ▸ hop')
  refine h.frame (fun op' hop' _ => hmem op' hop')
    (fun op' hop' hp => ⟨op', hmem op' hop', hp⟩)
    (fun op' hop' _ => hmem op' hop') hh (fun _ => .inl hs)
    (fun _ ha => ha.congr hs hr ht ho) (fun _ hopen => ho.trans hopen)

/-- The state that an operation's expansion leaves in the end. -/
theorem Expands.final_state_of_reset {el : Element} {op : Op} {rest ops : List Op}
    {a : Answer} (he : Expands el op a ops) (htodo : el.todo = op :: rest)
    (hreset : a = .effect .resetState → stateField.final el = .running →
      stateField.after el.todo .init = .running) :
    stateField.after (ops ++ rest) el.state = stateField.final el ∨
      stateField.final el ≠ .running ∧
        stateField.after (ops ++ rest) el.state = .init := by
  rcases he.state_after rest el.state with heq | ⟨ha, heq⟩
  · left
    rw [heq, ← htodo]
    rfl
  · rw [heq, ← htodo]
    exact reset_final (hreset ha)

/-- The reset of an element that is not running: nothing behind it starts the
element, so it stays idle. -/
theorem FlagsInv.expand_idle {el : Element} {rest ops : List Op} {a : Answer}
    (h : FlagsInv el) (htodo : el.todo = .testInit :: rest)
    (he : Expands el .testInit a ops) (hinit : el.state = .init)
    (hst : stateField.after (ops ++ rest) el.state = stateField.final el ∨
      stateField.final el ≠ .running ∧
        stateField.after (ops ++ rest) el.state = .init)
    (ha : FinalAgree el) : FinalAgree { el with todo := ops ++ rest } := by
  have hno := h.processing .testInit (by simp [htodo]) rfl
  have hfinal : stateField.final el = .init := by
    rw [Field.final, stateField_get, hinit]
    exact state_after_noStarts el.todo hno
  have hne : stateField.final el ≠ .running := by simp [hfinal]
  obtain ⟨hidle, hwait⟩ := ha.not_running hne
  have ht : waitField.after (ops ++ rest) el.waitTime =
      waitField.final el := by
    rw [he.wait_after, ← htodo]
    rfl
  have hr : runningField.after (ops ++ rest) el.isRunning = false := by
    rcases he.running_after rest el.isRunning with heq | ⟨-, -, heq⟩
    · rw [heq, ← htodo]
      exact hidle
    · rw [heq, ← htodo]
      exact running_after_noStarts el.todo hno
  have hs : stateField.after (ops ++ rest) el.state ≠ .running := by
    rcases hst with heq | ⟨-, heq⟩
    · rw [heq]
      exact hne
    · simp [heq]
  show Agree (stateField.after (ops ++ rest) el.state)
    (runningField.after (ops ++ rest) el.isRunning)
    (waitField.after (ops ++ rest) el.waitTime) _
  rw [hr, ht]
  exact .idle hs hwait

/-- Any other operation leaves the flags as they would have been. -/
theorem Expands.final_agree {el : Element} {op : Op} {rest ops : List Op}
    {a : Answer} (he : Expands el op a ops) (htodo : el.todo = op :: rest)
    (hre : ¬(op = .testInit ∧ el.state = .init))
    (hst : stateField.after (ops ++ rest) el.state = stateField.final el ∨
      stateField.final el ≠ .running ∧
        stateField.after (ops ++ rest) el.state = .init)
    (ha : FinalAgree el) : FinalAgree { el with todo := ops ++ rest } := by
  have ht : waitField.after (ops ++ rest) el.waitTime =
      waitField.final el := by
    rw [he.wait_after, ← htodo]
    rfl
  have hr : runningField.after (ops ++ rest) el.isRunning =
      runningField.final el := by
    rcases he.running_after rest el.isRunning with heq | ⟨hop, hi, -⟩
    · rw [heq, ← htodo]
      rfl
    · exact absurd ⟨hop, hi⟩ hre
  have ho : openField.after (ops ++ rest) el.isOpen =
      openField.final el := by
    rcases he.open_after rest el.isOpen with heq | ⟨hop, hi, -⟩
    · rw [heq, ← htodo]
      rfl
    · exact absurd ⟨hop, hi⟩ hre
  show Agree (stateField.after (ops ++ rest) el.state)
    (runningField.after (ops ++ rest) el.isRunning)
    (waitField.after (ops ++ rest) el.waitTime)
    (openField.after (ops ++ rest) el.isOpen)
  rw [hr, ht, ho]
  rcases hst with heq | ⟨hne, heq⟩
  · rw [heq]
    exact ha
  · rw [heq]
    exact ha.reset hne (by simp)

theorem FlagsInv.expand {el : Element} {op : Op} {rest ops : List Op}
    {a : Answer} (h : FlagsInv el) (htodo : el.todo = op :: rest)
    (he : Expands el op a ops)
    (hreset : a = .effect .resetState → GoesOn el.todo →
      stateField.final el = .running →
      stateField.after el.todo .init = .running) :
    FlagsInv { el with todo := ops ++ rest } := by
  have hmem : ∀ op' ∈ rest, op' ∈ el.todo := by
    intro op' hop'
    rw [htodo]
    exact List.mem_cons_of_mem _ hop'
  have hst := fun hgo : GoesOn el.todo =>
    he.final_state_of_reset htodo fun ha => hreset ha hgo
  refine h.frame ?_ ?_ ?_ rfl hst ?_ ?_
  · exact he.noted_mem htodo
  · intro op' hop' hp
    rcases List.mem_append.1 hop' with hops | hrest
    · exact ⟨op, by simp [htodo], (he.starts op' hops).2 hp⟩
    · exact ⟨op', hmem op' hrest, hp⟩
  · intro op' hop' hs
    rcases List.mem_append.1 hop' with hops | hrest
    · rw [(he.starts op' hops).1 hs, htodo]
      exact List.mem_cons_self
    · exact hmem op' hrest
  · intro hgo ha
    by_cases hre : op = .testInit ∧ el.state = .init
    · obtain ⟨rfl, hinit⟩ := hre
      exact h.expand_idle htodo he hinit (hst hgo) ha
    · exact he.final_agree htodo hre (hst hgo) ha
  · intro hopening hopen
    show openField.after (ops ++ rest) el.isOpen = true
    rcases he.open_after rest el.isOpen with heq | ⟨rfl, -, -⟩
    · rw [heq, ← htodo]
      exact hopen
    · have hno := h.processing .testInit (by simp [htodo]) rfl .callOpen
      rcases List.mem_append.1 hopening with hops | hrest
      · cases he.noted _ hops rfl
      · cases hno (hmem _ hrest)

/-- What a handler that returns `ESP_OK` without calling `open` leaves. -/
theorem onCmd_agree {cfg : Config} {el : Element} {c : Cmd}
    (h : FlagsAgree el) (hgo : GoesOn (onCmd cfg el c))
    (hopen : c = .resume → cfg.hasOpen = true ∨ el.state = .running) :
    Agree (stateField.after (onCmd cfg el c) el.state)
      (runningField.after (onCmd cfg el c) el.isRunning)
      (waitField.after (onCmd cfg el c) el.waitTime)
      (openField.after (onCmd cfg el c) el.isOpen) := by
  obtain ⟨hdestroy, hresume⟩ := goesOn_onCmd hgo
  rw [onCmd_state, onCmd_running, onCmd_wait, onCmd_open]
  cases c with
  | destroy => exact absurd rfl hdestroy
  | resume =>
      have hrun := (hopen rfl).elim (hresume rfl) id
      have hr := h.running.2 hrun
      simp only [hrun, true_or, if_true]
      exact ⟨by simp, by simpa using h.polls.1 hrun, fun _ => h.opened hr⟩
  | stop =>
      by_cases hs : el.state ≠ .finished ∧ el.state ≠ .stopped
      · simp only [if_pos hs]
        exact .idle (by simp) (by simp)
      · have hne : el.state ≠ .running := by
          intro hrun
          simp [hrun] at hs
        obtain ⟨hidle, hwait⟩ := Agree.not_running h hne
        simp only [if_neg hs, hidle]
        exact .idle (by simp) hwait
  | _ => exact .idle (by simp) (by simp)

theorem FlagsInv.recv {cfg : Config} {el el' : Element} {m : Msg}
    {rest : List Op} (h : FlagsInv el) (htodo : el.todo = .recv :: rest)
    (hopen : m.cmd = .resume → cfg.hasOpen = true ∨ el.state = .running)
    (htodo' : el'.todo = onCmd cfg el m.cmd) (hm : el'.handling = some m)
    (hs : el'.state = el.state) (hr : el'.isRunning = el.isRunning)
    (ht : el'.waitTime = el.waitTime) (ho : el'.isOpen = el.isOpen) :
    FlagsInv el' := by
  have hb : FlagsAgree el ∧ GoesOn el.todo := by
    have hgo : GoesOn el.todo := ⟨.recv, by simp [htodo], .inl rfl⟩
    have hagree := h.agree hgo
    simp only [FinalAgree, Field.final, htodo] at hagree
    exact ⟨hagree, hgo⟩
  constructor
  · intro hgo
    rw [htodo'] at hgo
    have hagree := onCmd_agree hb.1 hgo hopen
    rw [FinalAgree, Field.final, Field.final, Field.final, Field.final,
      htodo', stateField_get, runningField_get, waitField_get, openField_get,
      hs, hr, ht, ho]
    exact hagree
  · intro hgo hc
    rw [htodo'] at hgo
    have hc : m.cmd = .resume := by simpa [hm] using hc
    rw [Field.final, htodo', stateField_get, hs, onCmd_state, hc]
    exact (hopen hc).elim ((goesOn_onCmd hgo).2 hc) id
  · intro hmem
    rw [htodo'] at hmem
    have hc : m.cmd = .resume := (handled_onCmd cfg el m.cmd _ hmem).1
    have hne : el.state ≠ .running := by
      intro hrun
      rw [hc] at hmem
      simp [onCmd, hrun] at hmem
    refine ⟨?_, fun hgo => ?_⟩
    · rw [Field.final, htodo', onCmd_open, hc]
      exact if_neg hne
    · rw [htodo'] at hgo
      exact hne ((goesOn_onCmd hgo).2 hc (handled_onCmd cfg el _ _ hmem).2)
  · intro op hop hp
    rw [htodo'] at hop
    rw [processing_onCmd cfg el m.cmd op hop] at hp
    cases hp

/-- The task goes round its loop. -/
theorem FlagsInv.turn {el : Element}
    (htodo : el.todo = processOps ∨ el.todo = [.recv])
    (hagree : FlagsAgree el)
    (hc : el.handling.map Msg.cmd = some .resume → el.state = .running) :
    FlagsInv el := by
  have hb : BetweenCmds el := by
    rcases htodo with h | h
    · exact .inl h
    · exact .inr (.inr (by rw [h]; rfl))
  constructor
  · exact fun _ => hb.agree.2 hagree
  · exact fun _ h => (hb.final stateField).trans (hc h)
  · rcases htodo with h | h <;> simp [h, processOps]
  · rcases htodo with h | h <;> simp [h, processOps, Op.starts]

/-- The task comes to its end. -/
theorem FlagsInv.exit {cfg : Config} {el el' : Element}
    (h : el'.todo = exitOps cfg el) : FlagsInv el' := by
  have hgo : ¬GoesOn el'.todo := h ▸ not_goesOn_exitOps cfg el
  constructor
  · exact fun hg => absurd hg hgo
  · exact fun hg => absurd hg hgo
  · intro hmem
    cases noted_exitOps cfg el _ (h ▸ hmem) rfl
  · rw [h, exitOps, closeOps]
    split <;> simp [Op.processing]

theorem FlagsInv.opened {el : Element} {rest : List Op} (h : FlagsInv el)
    (htodo : el.todo = .callOpen :: rest) (b : Bool) :
    FlagsInv { el with todo := openReturned b } := by
  have hopen : el.isOpen = true := by
    have := (h.opening (by simp [htodo])).1
    simpa [Field.final, htodo] using this
  cases b with
  | false =>
      constructor <;>
        simp [openReturned, GoesOn, Op.between, Op.processing]
  | true =>
      constructor
      · intro _
        simp only [FinalAgree, Field.final, openReturned, resumedOps]
        exact ⟨by simp, by simp, fun _ => hopen⟩
      · exact fun _ _ => rfl
      · simp [openReturned, resumedOps]
      · simp [openReturned, resumedOps, Op.processing]

/-- Before `ret`, `loop` and `recv` the finals are the present values. -/
theorem FlagsInv.now {el : Element} {op : Op} {rest : List Op}
    (h : FlagsInv el) (htodo : el.todo = op :: rest)
    (hop : op = .ret true ∨ op = .loop ∨ op = .recv) :
    FlagsAgree el ∧
      (el.handling.map Msg.cmd = some .resume → el.state = .running) := by
  have hgo : GoesOn el.todo := by
    refine ⟨op, by simp [htodo], ?_⟩
    rcases hop with rfl | rfl | rfl
    · exact .inr rfl
    · exact .inl rfl
    · exact .inl rfl
  have hfinal : ∀ {α : Type} (F : Field α), F.final el = F.get el := by
    intro α F
    rw [Field.final, htodo]
    rcases hop with rfl | rfl | rfl <;> rfl
  refine ⟨?_, fun hc => (hfinal stateField).symm.trans (h.resumed hgo hc)⟩
  have hagree := h.agree hgo
  rw [FinalAgree, hfinal, hfinal, hfinal, hfinal] at hagree
  exact hagree

/-- One operation of the task. -/
theorem FlagsInv.task {cfg : Config} {el el' : Element} {a : Answer}
    (h : FlagsInv el) (hm : TaskMove cfg el a el')
    (hrecv : a = .go → el.todo.head? = some .recv →
      el.cmds.head?.map Msg.cmd = some .resume →
      cfg.hasOpen = true ∨ el.state = .running)
    (hreset : a = .effect .resetState → GoesOn el.todo →
      stateField.final el = .running →
      stateField.after el.todo .init = .running) :
    FlagsInv el' := by
  cases hm with
  | write w rest htodo =>
      refine h.tail htodo rfl ?_ (stateField.final_write htodo)
        (runningField.final_write htodo) (waitField.final_write htodo)
        (openField.final_write htodo)
      cases w with
      | bit b v => cases b <;> rfl
      | _ => rfl
  | send c rest htodo =>
      refine h.tail htodo rfl ?_ (stateField.final_send htodo _)
        (runningField.final_send htodo _) (waitField.final_send htodo _)
        (openField.final_send htodo _)
      rw [Element.cmdSend]
      split <;> rfl
  | mallocFail rest htodo =>
      refine h.tail htodo rfl rfl ?_ ?_ ?_ ?_ <;> simp [Field.final, htodo]
  | expand op rest a ops htodo he => exact h.expand htodo he hreset
  | opened b rest htodo => exact h.opened htodo b
  | ret ok rest htodo =>
      cases ok with
      | true =>
          refine .turn (.inl rfl) (h.now htodo (.inl rfl)).1 ?_
          intro hc
          cases hc
      | false => exact .exit rfl
  | loop rest htodo =>
      obtain ⟨hagree, hc⟩ := h.now htodo (.inr (.inl rfl))
      split
      · exact .turn (.inr rfl) hagree hc
      · exact .exit rfl
  | recv m more rest htodo hc =>
      refine h.recv htodo ?_ rfl rfl rfl rfl rfl rfl
      intro hm
      exact hrecv rfl (by simp [htodo]) (by simp [hc, hm])
  | poll rest htodo hc hw =>
      obtain ⟨hagree, hc⟩ := h.now htodo (.inr (.inr rfl))
      exact .turn (.inl rfl) hagree hc

/-- An action of somebody else. -/
theorem FlagsInv.other {el el' : Element} {r : Prop} (h : FlagsInv el)
    (hl : Leaves el el' r)
    (hreset : r → GoesOn el.todo → stateField.final el = .running →
      stateField.after el.todo .init = .running) : FlagsInv el' := by
  have hr : runningField.final el' = runningField.final el := by
    rw [Field.final, Field.final, hl.todo, runningField_get, hl.isRunning,
      runningField_get]
  have ht : waitField.final el' = waitField.final el := by
    rw [Field.final, Field.final, hl.todo, waitField_get, hl.waitTime,
      waitField_get]
  have ho : openField.final el' = openField.final el := by
    rw [Field.final, Field.final, hl.todo, openField_get, hl.isOpen,
      openField_get]
  have hst : GoesOn el.todo → stateField.final el' = stateField.final el ∨
      stateField.final el ≠ .running ∧ stateField.final el' = .init := by
    intro hgo
    rcases hl.state with ⟨hr, hs⟩ | ⟨-, hs⟩
    · rw [Field.final.eq_def stateField el', hl.todo, stateField_get, hs]
      exact reset_final (hreset hr hgo)
    · left
      rw [Field.final, Field.final, hl.todo, stateField_get, hs,
        stateField_get]
  have hmem : ∀ op ∈ el'.todo, op ∈ el.todo := fun op hop => hl.todo ▸ hop
  refine h.frame (fun op hop _ => hmem op hop)
    (fun op hop hp => ⟨op, hmem op hop, hp⟩) (fun op hop _ => hmem op hop)
    hl.handling hst ?_ (fun _ hopen => ho.trans hopen)
  intro hgo ha
  rcases hst hgo with hs | ⟨hne, hs⟩
  · exact ha.congr hs hr ht ho
  · rw [FinalAgree, hs, hr, ht, ho]
    exact ha.reset hne (by simp)

theorem flagsInv_start : FlagsInv Element.start := by
  constructor
  · exact fun _ => .idle (by simp [Field.final, Element.start, taskOps])
      (by simp [Field.final, Element.start, taskOps])
  · intro _ hc
    cases hc
  · simp [Element.start, taskOps]
  · simp [Element.start, taskOps, Op.processing]

theorem flagsInv_reaches {cfg : Config} {w : Watched}
    (hw : (watchMachine cfg).Reaches (KeepsFlags cfg) Watched.start w) :
    FlagsInv w.sys.el := by
  refine hw.invariant (I := fun w => FlagsInv w.sys.el) flagsInv_start ?_
  intro u a v h hok hstep
  cases watchStep_move hstep with
  | task ans el hm =>
      exact h.task hm (fun ha => hok.1 (by rw [ha]))
        fun ha => hok.2 (.inl (by rw [ha]))
  | other a sys ha hl => exact h.other hl fun hr => hok.2 (.inr hr)

/-! ## What follows when the condition is not met -/

/-- The loop is going to poll, and the element is not going to be running. -/
structure Off (el : Element) : Prop where
  opening : Op.callOpen ∉ el.todo
  polls : GoesOn el.todo →
    stateField.final el ≠ .running ∧ waitField.final el = .zero

theorem Off.disagree {el : Element} (h : Off el) (hb : BetweenCmds el) :
    ¬FlagsAgree el := by
  have hoff := h.polls hb.goesOn
  rw [hb.final, hb.final] at hoff
  exact fun hagree => hoff.1 (hagree.polls.2 hoff.2)

/-- A step that brings in no noted operation. -/
theorem Off.frame {el el' : Element} (h : Off el)
    (hsub : ∀ op ∈ el'.todo, op.noted = true → op ∈ el.todo)
    (hs : stateField.final el' = stateField.final el ∨
      stateField.final el' = .init)
    (ht : waitField.final el' = waitField.final el) : Off el' where
  opening := fun hmem => h.opening (hsub _ hmem rfl)
  polls := by
    intro hgo
    obtain ⟨hne, hzero⟩ := h.polls (hgo.of_noted hsub)
    refine ⟨?_, ht.trans hzero⟩
    rcases hs with hs | hs
    · rw [hs]
      exact hne
    · simp [hs]

/-- Until the task is between two commands again, nothing helps. -/
theorem Off.task {cfg : Config} {el el' : Element} {a : Answer}
    (h : Off el) (hb : ¬BetweenCmds el) (hm : TaskMove cfg el a el') :
    Off el' := by
  have hrest : ∀ {op : Op} {rest : List Op}, el.todo = op :: rest →
      ∀ op' ∈ rest, op'.noted = true → op' ∈ el.todo :=
    fun htodo op' hop' _ => by
      rw [htodo]
      exact List.mem_cons_of_mem _ hop'
  cases hm with
  | write w rest htodo =>
      exact h.frame (hrest htodo) (.inl (stateField.final_write htodo))
        (waitField.final_write htodo)
  | send c rest htodo =>
      exact h.frame (hrest htodo) (.inl (stateField.final_send htodo _))
        (waitField.final_send htodo _)
  | mallocFail rest htodo =>
      refine h.frame (hrest htodo) (.inl ?_) ?_ <;>
        simp [Field.final, htodo]
  | expand op rest a ops htodo he =>
      refine h.frame (he.noted_mem htodo) (he.final_state htodo) ?_
      · show waitField.after (ops ++ rest) el.waitTime = waitField.final el
        rw [he.wait_after, ← htodo]
        rfl
  | opened b rest htodo => exact absurd (by simp [htodo]) h.opening
  | ret ok rest htodo =>
      cases ok with
      | true =>
          have hoff := h.polls ⟨.ret true, by simp [htodo], .inr rfl⟩
          rw [Field.final, Field.final, htodo] at hoff
          exact ⟨by simp [retStep, processOps], fun _ => hoff⟩
      | false =>
          constructor
          · intro hmem
            cases noted_exitOps cfg el _ hmem rfl
          · exact fun hgo => absurd hgo (not_goesOn_exitOps cfg el)
  | loop rest htodo => exact absurd (.inr (.inl (by simp [htodo]))) hb
  | recv m more rest htodo hc =>
      exact absurd (.inr (.inr (by simp [htodo]))) hb
  | poll rest htodo hc hw =>
      exact absurd (.inr (.inr (by simp [htodo]))) hb

theorem Off.other {el el' : Element} {r : Prop} (h : Off el)
    (hl : Leaves el el' r) : Off el' := by
  refine h.frame (fun op hop _ => hl.todo ▸ hop) ?_ ?_
  · rw [Field.final, Field.final, hl.todo]
    rcases hl.state with ⟨-, hs⟩ | ⟨-, hs⟩
    · rw [stateField_get, hs]
      exact state_after_init _ _
    · exact .inl (by rw [stateField_get, hs, stateField_get])
  · rw [Field.final, Field.final, hl.todo, waitField_get, hl.waitTime,
      waitField_get]

/-- A reset that does not meet the condition. -/
theorem FlagsInv.off_of_reset {el el' : Element} (h : FlagsInv el)
    (hgo : GoesOn el.todo) (hrun : stateField.final el = .running)
    (hno : stateField.after el.todo .init ≠ .running)
    (hsub : ∀ op ∈ el'.todo, op.noted = true → op ∈ el.todo)
    (hs : stateField.final el' = stateField.after el.todo .init)
    (ht : waitField.final el' = waitField.final el) : Off el' where
  opening := fun hmem => (h.opening (hsub _ hmem rfl)).2 hgo
  polls := fun _ => ⟨hs ▸ hno, ht.trans ((h.agree hgo).polls.1 hrun)⟩

/-- A `RESUME` of an element without `open`. -/
theorem off_of_resume {cfg : Config} {el el' : Element}
    (hopen : cfg.hasOpen = false) (hrun : el.state ≠ .running)
    (htodo' : el'.todo = onCmd cfg el .resume) (hs : el'.state = el.state) :
    Off el' := by
  constructor
  · intro hmem
    rw [htodo'] at hmem
    have := (handled_onCmd cfg el _ _ hmem).2
    rw [hopen] at this
    cases this
  · intro _
    rw [Field.final, Field.final, htodo', stateField_get, hs, onCmd_state,
      onCmd_wait]
    exact ⟨hrun, if_neg (by simp [hrun, hopen])⟩

theorem FlagsInv.off {cfg : Config} {w w' : Watched} {a : WatchAct}
    (h : FlagsInv w.sys.el) (hno : ¬KeepsFlags cfg w a)
    (hstep : (watchMachine cfg).step w a = some w') : Off w'.sys.el := by
  rw [KeepsFlags, Classical.not_and_iff_not_or_not] at hno
  simp only [Classical.not_imp, not_or, Bool.not_eq_true] at hno
  rcases hno with ⟨rfl, hhead, hc, hopen, hrun⟩ |
    ⟨hresets, hgo, hrun, hinit⟩
  · obtain ⟨m, hm, hc⟩ := Option.map_eq_some_iff.1 hc
    have hel := recv_step hhead hm hstep
    rw [hc] at hel
    exact off_of_resume hopen hrun hel.1 hel.2.1
  · cases watchStep_move hstep with
    | task ans el hm =>
        have ha : ans = .effect .resetState := by
          rcases hresets with ha | ha
          · simpa using ha
          · exact ha.elim
        subst ha
        cases hm with
        | expand op rest a ops htodo he =>
            have hs : stateField.after (ops ++ rest) w.sys.el.state =
                stateField.after w.sys.el.todo .init := by
              rw [htodo]
              cases he <;> simp [Effect.ops]
            refine h.off_of_reset hgo hrun hinit (he.noted_mem htodo) hs ?_
            · show waitField.after (ops ++ rest) w.sys.el.waitTime = _
              rw [he.wait_after, ← htodo]
              rfl
    | other a sys ha hl =>
        have hr : ClientResets w a := by
          rcases hresets with rfl | hr
          · exact (ha _ rfl).elim
          · exact hr
        have hs : sys.el.state = .init := by
          rcases hl.state with ⟨-, hs⟩ | ⟨hn, -⟩
          · exact hs
          · exact absurd hr hn
        refine h.off_of_reset hgo hrun hinit
          (fun op hop _ => hl.todo ▸ hop) ?_ ?_
        · rw [Field.final, hl.todo, stateField_get, hs]
        · rw [Field.final, Field.final, hl.todo, waitField_get, hl.waitTime,
            waitField_get]

theorem Off.reaches {cfg : Config} {w v : Watched} (h : Off w.sys.el)
    (hv : (watchMachine cfg).Reaches (fun u _ => ¬BetweenCmds u.sys.el) w v) :
    Off v.sys.el := by
  refine hv.invariant (I := fun w => Off w.sys.el) h ?_
  intro u a t hoff hb hstep
  cases watchStep_move hstep with
  | task ans el hm => exact hoff.task hb hm
  | other a sys ha hl => exact hoff.other hl

/-! ## The result -/

/-- **The run flags agree** between two commands, when no element without
`open` is resumed and no running element is reset; and after a step that does
not meet the condition they disagree as soon as the task is between two
commands. -/
theorem flags_agree {cfg : Config} {w : Watched}
    (hw : (watchMachine cfg).Reaches (KeepsFlags cfg) Watched.start w) :
    FlagsOk w.sys.el ∧ ∀ a w' v, ¬KeepsFlags cfg w a →
      (watchMachine cfg).step w a = some w' →
      (watchMachine cfg).Reaches (fun u _ => ¬BetweenCmds u.sys.el) w' v →
      BetweenCmds v.sys.el → ¬FlagsAgree v.sys.el := by
  have h := flagsInv_reaches hw
  have hagree : BetweenCmds w.sys.el → FlagsAgree w.sys.el :=
    fun hb => hb.agree.1 (h.agree hb.goesOn)
  refine ⟨⟨hagree, ?_, ?_⟩, ?_⟩
  · rintro ⟨hhead, hc⟩
    obtain ⟨rest, htodo⟩ := List.head?_eq_some_iff.1 hhead
    exact (h.now htodo (.inl rfl)).2 hc
  · intro hb hzero
    have hflags := hagree hb
    have hrun := hflags.polls.2 hzero
    rw [hrun]
    exact ⟨Nat.le_refl _, hflags.opened (hflags.running.2 hrun)⟩
  · intro a w' v hno hstep hreach hb
    exact ((h.off hno hstep).reaches hreach).disagree hb

/-! ## Two runs -/

/-- The element is running again after a pause. -/
theorem flags_agree_resumed : ∃ w,
    (watchMachine defaultConfig).runIf (KeepsFlags defaultConfig)
      Watched.start pauseAndResume = some w ∧
    BetweenCmds w.sys.el ∧ FlagsAgree w.sys.el ∧
    w.sys.el.state = .running :=
  have h := flags_agree (Machine.reaches_of_runIf
    (show (watchMachine defaultConfig).runIf (KeepsFlags defaultConfig)
      Watched.start pauseAndResume = some _ by rfl))
  ⟨_, rfl, by decide, h.1.agree (by decide), rfl⟩

/-- An element without `open`. -/
def noOpen : Config := { defaultConfig with hasOpen := false }

/-- The element without `open` is resumed: it is said to run, and its task
spins, in `AEL_STATE_INIT`. -/
theorem flags_disagree_noOpen : ∃ w,
    (watchMachine noOpen).Reachable Watched.start w ∧
    BetweenCmds w.sys.el ∧ w.sys.el.isRunning = true ∧
    w.sys.el.waitTime = .zero ∧ w.sys.el.state = .init ∧
    ¬FlagsOk w.sys.el :=
  ⟨_, Machine.reachable_iff_run.2
    ⟨startUp.map .sys ++ [.deliver .resume] ++ watchGo 7, rfl⟩,
    by decide, rfl, rfl, rfl,
    fun h => nomatch (h.agree (by decide)).polls.2 rfl⟩

end EspAdf.Ports.AudioElement
