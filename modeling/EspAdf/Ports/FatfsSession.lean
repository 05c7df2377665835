import EspAdf.Ports.FatfsStream

/-!
# Are playback sessions contiguous?

A session of the reader goes from the first `open` to the next `STOP` or
`FINISH`.  Over a pause the position survives in `info.byte_pos`, which
`_fatfs_close` clears when it runs in another state than `AEL_STATE_PAUSED`.
But a paused element is closed already, so a `STOP` or `FINISH` that finds it
paused does not close it again, and the next session starts where the last
one was paused (`session_resumes_stopped`).

`sessions_contiguous` proves that in every run in which this does not happen
what a session delivers is the beginning of the file.
-/

namespace EspAdf.Ports.FatfsStream

open EspAdf.Verified
open EspAdf.Ports.AudioElement

/-! ## The property and the condition -/

/-- The bytes of the file that the stream plays. -/
def Setup.contents (d : Setup) : List UInt8 := (d.path.bind d.files).getD []

/-- The condition on a step: a command that ends the session finds the file
open or the position clear, and an `open` does not seek to an offset that
`long` wraps to another one. -/
def Rewinds (p : Player) (a : PlayAct) : Prop :=
  (a = .go → p.el.todo.head? = some .recv → ∀ m ∈ p.el.cmds.head?,
    m.cmd.ends = true → p.el.isOpen = true ∨ p.stream.info.bytePos = 0) ∧
  (a = .go → p.el.todo.head? = some .callOpen →
    0 ≤ toLong p.stream.info.bytePos →
    toLong p.stream.info.bytePos = p.stream.info.bytePos)

instance (p : Player) (a : PlayAct) : Decidable (Rewinds p a) :=
  inferInstanceAs (Decidable (_ ∧ _))

/-! ## What one step can do -/

/-- `fresh` after the task's next operation, when it is not `open`. -/
def freshAfter (p : Player) : Bool :=
  if p.el.todo.head? = some .recv then
    p.fresh || p.el.cmds.head?.any (·.cmd.ends)
  else p.fresh

/-- The operations that are callbacks of the stream. -/
def isCallback : Op → Bool
  | .callOpen => true
  | .callClose => true
  | .callProcess => true
  | _ => false

/-- Everything one step can do. -/
inductive PlayMove (d : Setup) (cfg : Config) (p : Player) :
    PlayAct → Player → Prop where
  | deliver (c : PlayCmd) (w : Watched) (h : Leaves p.el w.sys.el False) :
      PlayMove d cfg p (.deliver c) { p with watched := w }
  | task (a : PlayAct) (ans : Answer) (w : Watched)
      (hm : TaskMove cfg p.el ans w.sys.el) (ha : ∀ e, ans ≠ .effect e)
      (hgo : p.el.todo.head? = some .recv → a = .go)
      (hhead : ∀ op ∈ p.el.todo.head?, isCallback op = false) :
      PlayMove d cfg p a { p with watched := w, fresh := freshAfter p }
  | opened (w : Watched) (rest : List Op)
      (htodo : p.el.todo = .callOpen :: rest)
      (hel : w.sys.el =
        { p.el with todo := openReturned (fatfsOpen d p.stream).2 }) :
      PlayMove d cfg p .go { p with
        watched := w
        stream := (fatfsOpen d p.stream).1
        fresh := false
        delivered := if p.fresh then [] else p.delivered }
  | closed (w : Watched) (rest : List Op)
      (htodo : p.el.todo = .callClose :: rest)
      (hel : w.sys.el = { p.el with todo := rest }) :
      PlayMove d cfg p .go { p with
        watched := w, stream := fatfsClose p.el.state p.stream }
  | read (a : PlayAct) (ans : Answer) (w : Watched) (rest ops : List Op)
      (stream : Stream) (bytes : List UInt8) (result : Option Int)
      (htodo : p.el.todo = .callProcess :: rest)
      (hread : fatfsRead d p.stream d.bufSize = some (stream, bytes))
      (he : Expands p.el .callProcess ans ops)
      (ha : ans ≠ .effect .resetState)
      (hel : w.sys.el = { p.el with todo := ops ++ rest }) :
      PlayMove d cfg p a { p with
        watched := w, stream := stream
        delivered := p.delivered ++ bytes, result := result }
  | returned (a : PlayAct) (w : Watched) (rest : List Op) (n : Int)
      (htodo : p.el.todo = .callProcess :: rest)
      (hel : w.sys.el = { p.el with todo := processReturned n ++ rest }) :
      PlayMove d cfg p a { p with watched := w, result := none }

/-- A step of the player is a step of the watched element. -/
theorem playStep_watch {d : Setup} {cfg : Config} {p p' : Player}
    {a : PlayAct} (h : playStep d cfg p a = some p') :
    ∃ b, watchStep cfg p.watched b = some p'.watched := by
  cases a with
  | deliver c =>
      simp only [playStep, Option.map_eq_some_iff] at h
      obtain ⟨w, hw, rfl⟩ := h
      exact ⟨_, hw⟩
  | _ =>
      simp only [playStep, Option.bind_eq_some_iff,
        Option.map_eq_some_iff] at h
      obtain ⟨⟨q, ans⟩, -, w, hw, rfl⟩ := h
      exact ⟨_, hw⟩

theorem watchStep_task {cfg : Config} {w w' : Watched} {ans : Answer}
    (h : watchStep cfg w (.sys (.task ans)) = some w') :
    taskStep cfg w.sys.el ans = some w'.sys.el := by
  simp only [watchStep, sysStep, Option.map_map,
    Option.map_eq_some_iff] at h
  obtain ⟨el, hel, rfl⟩ := h
  exact hel

/-- `_fatfs_process` reads, and answers for the output, or it returns. -/
theorem process_move {d : Setup} {cfg : Config} {p q : Player}
    {rest : List Op} {len : Int} {ans : Answer} {w : Watched}
    (htodo : p.el.todo = .callProcess :: rest)
    (hq : fatfsProcess d p len = some (q, ans))
    (hw : watchStep cfg p.watched (.sys (.task ans)) = some w) :
    PlayMove d cfg p (.process len) { q with watched := w } := by
  have hel := watchStep_task hw
  have htodo' : p.watched.sys.el.todo = .callProcess :: rest := htodo
  unfold fatfsProcess at hq
  split at hq
  · rename_i n hres
    cases hq
    simp only [taskStep, htodo', opStep, Option.some.injEq] at hel
    exact .returned _ w rest n htodo hel.symm
  · split at hq
    · cases hq
    · rename_i stream bytes hread
      dsimp only at hq
      split at hq
      · split at hq
        · rename_i e he
          cases hq
          simp only [taskStep, htodo', opStep, Option.some.injEq] at hel
          refine .read _ _ w rest _ stream bytes _ htodo hread
            (.processEffect e) ?_ hel.symm
          intro heq
          simp only [Answer.effect.injEq] at heq
          subst heq
          unfold outputEffect at he
          split at he
          · cases he
          · split at he
            · cases he
            · split at he <;> cases he
        · cases hq
          simp only [taskStep, htodo', opStep, Option.some.injEq] at hel
          exact .read _ _ w rest _ stream bytes _ htodo hread
            (.processed len) (by simp) hel.symm
      · cases hq
        simp only [taskStep, htodo', opStep, Option.some.injEq] at hel
        exact .read _ _ w rest _ stream bytes _ htodo hread
          (.processed AEL_IO_OK) (by simp) hel.symm

theorem playStep_move {d : Setup} {cfg : Config} {p p' : Player}
    {a : PlayAct} (h : playStep d cfg p a = some p') :
    PlayMove d cfg p a p' := by
  cases a with
  | deliver c =>
      cases h
      exact .deliver c _ (leaves_cmdSend cfg _ _)
  | malloc ok =>
      simp only [playStep, callbacks, Option.bind_eq_some_iff,
        Option.map_eq_some_iff] at h
      obtain ⟨⟨q, ans⟩, hq, w, hw, rfl⟩ := h
      split at hq
      · rename_i hhead
        cases hq
        have hfresh : freshAfter p = p.fresh := by simp [freshAfter, hhead]
        rw [← hfresh]
        exact .task _ _ w (taskStep_move (watchStep_task hw)) (by simp)
          (by simp [hhead]) (by simp [hhead, isCallback])
      · cases hq
  | process len =>
      simp only [playStep, callbacks, Option.bind_eq_some_iff,
        Option.map_eq_some_iff] at h
      obtain ⟨⟨q, ans⟩, hq, w, hw, rfl⟩ := h
      split at hq
      · rename_i hhead
        obtain ⟨rest, htodo⟩ := List.head?_eq_some_iff.1 hhead
        exact process_move htodo hq hw
      · cases hq
  | go =>
      simp only [playStep, callbacks, Option.bind_eq_some_iff,
        Option.map_eq_some_iff] at h
      obtain ⟨⟨q, ans⟩, hq, w, hw, rfl⟩ := h
      have hel := watchStep_task hw
      split at hq
      · rename_i hhead
        obtain ⟨rest, htodo⟩ := List.head?_eq_some_iff.1 hhead
        have htodo' : p.watched.sys.el.todo = .callOpen :: rest := htodo
        cases hq
        simp only [taskStep, htodo', opStep, Option.some.injEq] at hel
        exact .opened w rest htodo hel.symm
      · rename_i hhead
        obtain ⟨rest, htodo⟩ := List.head?_eq_some_iff.1 hhead
        have htodo' : p.watched.sys.el.todo = .callClose :: rest := htodo
        cases hq
        simp only [taskStep, htodo', opStep, Option.some.injEq] at hel
        exact .closed w rest htodo hel.symm
      · cases hq
      · rename_i hhead
        cases hq
        have hfresh : freshAfter p =
            (p.fresh || p.el.cmds.head?.any (·.cmd.ends)) := by
          simp [freshAfter, hhead]
        rw [← hfresh]
        exact .task _ _ w (taskStep_move hel) (by simp) (fun _ => rfl)
          (by simp [hhead, isCallback])
      · rename_i hopen hclose hproc hrecv
        cases hq
        have hfresh : freshAfter p = p.fresh := by
          rw [freshAfter, if_neg hrecv]
        rw [← hfresh]
        refine .task _ _ w (taskStep_move hel) (by simp) (fun _ => rfl) ?_
        intro op hop
        cases op with
        | callOpen => exact absurd hop hopen
        | callClose => exact absurd hop hclose
        | callProcess => exact absurd hop hproc
        | _ => rfl

/-! ## The invariant -/

/-- The state in which the handler in progress is going to call `close`. -/
@[simp] def stateAtClose : List Op → State → Option State
  | [], _ => none
  | .callClose :: _, s => some s
  | .write (.state s) :: ops, _ => stateAtClose ops s
  | .callOpen :: _, _ => none
  | .ret _ :: _, _ => none
  | .loop :: _, _ => none
  | .recv :: _, _ => none
  | _ :: ops, s => stateAtClose ops s

/-- The program comes back to the loop, or opens the element first. -/
def Live (ops : List Op) : Prop := GoesOn ops ∨ Op.callOpen ∈ ops

/-- The file is open at the position that `info` says, in a session. -/
def FileReady (d : Setup) (p : Player) : Prop :=
  p.fresh = false ∧ ∃ path, d.path = some path ∧
    p.stream.fatfs = ⟨true, some ⟨path, p.stream.info.bytePos⟩⟩

/-- Operations of which the task has at most one to execute. -/
def isSingle (op : Op) : Bool := op.processing || op = .callClose

structure PlayInv (d : Setup) (p : Player) : Prop where
  delivered : p.delivered <+: d.contents
  kept : Live p.el.todo → p.fresh = false →
    p.stream.info.bytePos = p.delivered.length
  rewound : Live p.el.todo → p.fresh = true →
    p.stream.info.bytePos = 0 ∨
      (stateAtClose p.el.todo p.el.state).isSome = true
  closing : ∀ s, stateAtClose p.el.todo p.el.state = some s →
    Live p.el.todo → (s = .paused ↔ p.fresh = false)
  opened : GoesOn p.el.todo → openField.final p.el = true → FileReady d p
  reading : Op.callProcess ∈ p.el.todo →
    Op.loop ∈ p.el.todo ∧ openField.final p.el = true
  once : p.el.todo.countP isSingle ≤ 1

theorem stateAtClose_mem {ops : List Op} {s s' : State}
    (h : stateAtClose ops s = some s') : Op.callClose ∈ ops := by
  induction ops generalizing s with
  | nil => cases h
  | cons op ops ih =>
      cases op with
      | callClose => exact List.mem_cons_self
      | write w =>
          cases w with
          | _ => exact List.mem_cons_of_mem _ (ih h)
      | callOpen => cases h
      | ret ok => cases h
      | loop => cases h
      | recv => cases h
      | _ => exact List.mem_cons_of_mem _ (ih h)

theorem Live.of_noted {ops ops' : List Op} (h : Live ops')
    (hsub : ∀ op ∈ ops', op.noted = true → op ∈ ops) : Live ops := by
  rcases h with h | h
  · exact .inl (h.of_noted hsub)
  · exact .inr (hsub _ h rfl)

theorem expands_stateAtClose {el : Element} {op : Op} {a : Answer}
    {ops : List Op} (he : Expands el op a ops) (hop : op ≠ .callClose)
    (ha : a ≠ .effect .resetState) (rest : List Op) (s : State) :
    stateAtClose (ops ++ rest) s = stateAtClose (op :: rest) s := by
  cases he with
  | closed b => exact absurd rfl hop
  | closeEffect e => exact absurd rfl hop
  | openEffect e => cases e <;> simp_all [Effect.ops]
  | processEffect e => cases e <;> simp_all [Effect.ops]
  | processed n =>
      rcases processReturned_cases n with h | h | h <;> simp [h]
  | _ => simp

theorem expands_single {el : Element} {op : Op} {a : Answer}
    {ops : List Op} (he : Expands el op a ops) :
    ops.countP isSingle ≤ [op].countP isSingle := by
  cases he with
  | openEffect e =>
      cases e <;> simp [Effect.ops, isSingle, Op.processing]
  | closeEffect e =>
      cases e <;> simp [Effect.ops, isSingle, Op.processing]
  | processEffect e =>
      cases e <;> simp [Effect.ops, isSingle, Op.processing]
  | processed n =>
      rcases processReturned_cases n with h | h | h <;>
        simp [h, isSingle, Op.processing]
  | _ => simp [isSingle, Op.processing]

/-! ## The handlers -/

theorem stateAtClose_closeOps (cfg : Config) (el : Element) (ops : List Op)
    (s : State) :
    stateAtClose (closeOps cfg el ++ ops) s =
      if el.isOpen && cfg.hasClose then some s else stateAtClose ops s := by
  unfold closeOps
  split <;> simp

/-- `PAUSE` closes in `AEL_STATE_PAUSED`, the commands that end a session in
the state they find. -/
theorem stateAtClose_onCmd {cfg : Config} {el : Element} {c : Cmd}
    {s s' : State} (h : stateAtClose (onCmd cfg el c) s = some s') :
    el.isOpen = true ∧ (c = .pause ∧ s' = .paused ∨
      c.ends = true ∧ s' = s) := by
  cases c with
  | pause =>
      simp only [onCmd, List.cons_append, List.nil_append, setState,
        stateAtClose, stateAtClose_closeOps] at h
      split at h
      · rename_i hboth
        simp only [Bool.and_eq_true] at hboth
        exact ⟨hboth.1, .inl ⟨rfl, (Option.some.inj h).symm⟩⟩
      · simp at h
  | stop =>
      simp only [onCmd] at h
      split at h
      · rw [stateAtClose_closeOps] at h
        split at h
        · rename_i hboth
          simp only [Bool.and_eq_true] at hboth
          exact ⟨hboth.1, .inr ⟨rfl, (Option.some.inj h).symm⟩⟩
        · simp at h
      · simp at h
  | resume =>
      simp only [onCmd, resumedOps] at h
      split at h
      · simp at h
      · split at h <;> split at h <;> simp at h
  | destroy => simp [onCmd] at h
  | _ =>
      simp only [onCmd, stateAtClose_closeOps] at h
      split at h
      · rename_i hboth
        simp only [Bool.and_eq_true] at hboth
        exact ⟨hboth.1, .inr ⟨rfl, (Option.some.inj h).symm⟩⟩
      · simp at h

/-- An open element is closed by the commands that end a session. -/
theorem onCmd_closing {cfg : Config} {el : Element} {c : Cmd} (s : State)
    (hc : c.ends = true) (hopen : el.isOpen = true)
    (hclose : cfg.hasClose = true)
    (hlow : el.state.value ≤ State.running.value) :
    (stateAtClose (onCmd cfg el c) s).isSome = true := by
  cases c with
  | stop =>
      have hne : el.state ≠ .finished ∧ el.state ≠ .stopped := by
        constructor <;>
        · intro heq
          rw [heq] at hlow
          exact absurd hlow (by decide)
      simp [onCmd, hne, stateAtClose_closeOps, hopen, hclose]
  | error => simp [onCmd, stateAtClose_closeOps, hopen, hclose]
  | finish => simp [onCmd, stateAtClose_closeOps, hopen, hclose]
  | _ => cases hc

theorem single_closeOps (cfg : Config) (el : Element) (ops : List Op)
    (h : ops.countP isSingle = 0) :
    (closeOps cfg el ++ ops).countP isSingle ≤ 1 := by
  rw [List.countP_append, h, closeOps]
  split <;> simp [isSingle, Op.processing]

theorem single_onCmd (cfg : Config) (el : Element) (c : Cmd) :
    (onCmd cfg el c).countP isSingle ≤ 1 := by
  have hcount := single_closeOps cfg el
  cases c with
  | pause =>
      rw [onCmd, List.append_assoc, List.countP_append]
      have := hcount [setWait .maxDelay, report .statePaused,
        setRunning false, setBits .paused, .ret true]
        (by simp [isSingle, Op.processing])
      simpa [isSingle, Op.processing] using this
  | stop =>
      simp only [onCmd]
      split
      · exact hcount _ (by simp [isSingle, Op.processing])
      · simp [isSingle, Op.processing]
  | resume =>
      simp only [onCmd, resumedOps]
      split
      · simp [isSingle, Op.processing]
      · split <;> split <;> simp [isSingle, Op.processing]
  | destroy => simp [onCmd, isSingle, Op.processing]
  | _ => exact hcount _ (by simp [isSingle, Op.processing])

/-! ## The steps -/

/-- A step that leaves the stream alone. -/
theorem PlayInv.frame {d : Setup} {p p' : Player} (h : PlayInv d p)
    (hsub : ∀ op ∈ p'.el.todo, op.noted = true → op ∈ p.el.todo)
    (hclose : stateAtClose p'.el.todo p'.el.state =
      stateAtClose p.el.todo p.el.state)
    (hopen : openField.final p'.el = true → openField.final p.el = true)
    (hreading : Op.callProcess ∈ p'.el.todo →
      Op.loop ∈ p'.el.todo ∧ openField.final p'.el = true)
    (honce : p'.el.todo.countP isSingle ≤ p.el.todo.countP isSingle)
    (hs : p'.stream = p.stream) (hf : p'.fresh = p.fresh)
    (hd : p'.delivered = p.delivered) : PlayInv d p' where
  delivered := hd ▸ h.delivered
  kept := by
    intro hlive hfresh
    rw [hs, hd]
    exact h.kept (hlive.of_noted hsub) (hf ▸ hfresh)
  rewound := by
    intro hlive hfresh
    rw [hs, hclose]
    exact h.rewound (hlive.of_noted hsub) (hf ▸ hfresh)
  closing := by
    intro s hs' hlive
    rw [hf]
    rw [hclose] at hs'
    exact h.closing s hs' (hlive.of_noted hsub)
  opened := by
    intro hgo ho
    have hready := h.opened (hgo.of_noted hsub) (hopen ho)
    rw [FileReady, hs, hf]
    exact hready
  reading := hreading
  once := Nat.le_trans honce h.once

/-- A step to the tail of the program. -/
theorem PlayInv.tail {d : Setup} {p p' : Player} {op : Op} {rest : List Op}
    (h : PlayInv d p) (htodo : p.el.todo = op :: rest)
    (htodo' : p'.el.todo = rest) (hloop : op ≠ .loop)
    (hclose : stateAtClose p'.el.todo p'.el.state =
      stateAtClose p.el.todo p.el.state)
    (ho : openField.final p'.el = openField.final p.el)
    (hs : p'.stream = p.stream) (hf : p'.fresh = p.fresh)
    (hd : p'.delivered = p.delivered) : PlayInv d p' := by
  refine h.frame ?_ hclose (fun hopen => ho ▸ hopen) ?_ ?_ hs hf hd
  · intro op' hop' _
    rw [htodo]
    exact List.mem_cons_of_mem _ (htodo' ▸ hop')
  · intro hmem
    rw [htodo'] at hmem ⊢
    obtain ⟨hl, hopen⟩ := h.reading (by
      rw [htodo]
      exact List.mem_cons_of_mem _ hmem)
    rw [htodo] at hl
    refine ⟨(List.mem_cons.1 hl).resolve_left (Ne.symm hloop), ?_⟩
    exact ho.trans hopen
  · rw [htodo, htodo', List.countP_cons]
    omega

/-- The task has at most one `process` or `close` to execute. -/
theorem PlayInv.no_other {d : Setup} {p : Player} {op op' : Op}
    {rest : List Op} (h : PlayInv d p) (htodo : p.el.todo = op :: rest)
    (hop : isSingle op = true) (hop' : isSingle op' = true) : op' ∉ rest := by
  intro hmem
  have honce := h.once
  have hpos : 0 < rest.countP isSingle := List.countP_pos_iff.2 ⟨_, hmem, hop'⟩
  rw [htodo, List.countP_cons_of_pos hop] at honce
  omega

/-- An operation other than `open` and `close` is replaced by others. -/
theorem PlayInv.expand {d : Setup} {cfg : Config} {p p' : Player} {op : Op}
    {rest ops : List Op} {a : Answer} (h : PlayInv d p)
    (hw : ProcessInv cfg p.watched) (htodo : p.el.todo = op :: rest)
    (he : Expands p.el op a ops) (hop : op ≠ .callOpen ∧ op ≠ .callClose)
    (ha : a ≠ .effect .resetState)
    (hel : p'.el = { p.el with todo := ops ++ rest })
    (hs : p'.stream = p.stream) (hf : p'.fresh = p.fresh)
    (hd : p'.delivered = p.delivered) : PlayInv d p' := by
  have hfinal : openField.final p'.el = openField.final p.el ∨
      op = .testInit ∧
        openField.final p'.el = openField.after p.el.todo false := by
    rw [hel, htodo]
    rcases he.open_after rest p.el.isOpen with heq | ⟨hop, -, heq⟩
    · left
      rw [Field.final, Field.final, htodo]
      exact heq
    · exact .inr ⟨hop, heq⟩
  have hmem : ∀ op' ∈ rest, op' ∈ p.el.todo := by
    intro op' hop'
    rw [htodo]
    exact List.mem_cons_of_mem _ hop'
  refine h.frame ?_ ?_ ?_ ?_ ?_ hs hf hd
  · intro op' hop'
    rw [hel] at hop'
    exact he.noted_mem htodo op' hop'
  · rw [hel, htodo]
    exact expands_stateAtClose he hop.2 ha rest p.el.state
  · rw [hel]
    exact he.open_before htodo
  · intro hread
    rw [hel] at hread ⊢
    rcases List.mem_append.1 hread with hops | hrest
    · cases he with
      | process hs ho =>
          have hall := hw.polling (by
            show Op.testProcess ∈ p.el.todo
            rw [htodo]
            exact List.mem_cons_self)
          have hall : p.el.todo = processOps := hall
          rw [htodo, processOps, List.cons.injEq] at hall
          rw [hall.2]
          exact ⟨by simp, ho⟩
      | processEffect e =>
          obtain ⟨hloop, hopen⟩ := h.reading (by simp [htodo])
          rw [htodo] at hloop
          refine ⟨List.mem_append_right _ (by simpa using hloop), ?_⟩
          rw [← hel]
          exact (hfinal.resolve_right (by simp)).trans hopen
      | processed n =>
          rcases processReturned_cases n with hn | hn | hn <;>
            simp [hn] at hops
      | openEffect e => exact absurd rfl hop.1
      | closeEffect e => exact absurd rfl hop.2
      | _ => simp at hops
    · obtain ⟨hloop, hopen⟩ := h.reading (hmem _ hrest)
      rw [htodo] at hloop
      constructor
      · refine List.mem_append_right _ ?_
        refine (List.mem_cons.1 hloop).resolve_left ?_
        rintro rfl
        cases he
      · rw [← hel]
        rcases hfinal with heq | ⟨rfl, -⟩
        · rw [heq]
          exact hopen
        · exact absurd hrest (h.no_other htodo rfl rfl)
  · rw [hel, htodo]
    show (ops ++ rest).countP isSingle ≤ ([op] ++ rest).countP isSingle
    rw [List.countP_append, List.countP_append]
    exact Nat.add_le_add_right (expands_single he) _

/-- The task goes round its loop. -/
theorem PlayInv.turn {d : Setup} {p p' : Player} {op : Op}
    {rest ops : List Op} (h : PlayInv d p) (htodo : p.el.todo = op :: rest)
    (hop : op = .ret true ∨ op = .loop ∨ op = .recv)
    (hops : ops = [.recv] ∨ ops = processOps)
    (htodo' : p'.el.todo = ops) (ho : p'.el.isOpen = p.el.isOpen)
    (hs : p'.stream = p.stream) (hf : p'.fresh = p.fresh)
    (hd : p'.delivered = p.delivered) : PlayInv d p' := by
  have hgo : GoesOn p.el.todo := by
    refine ⟨op, by simp [htodo], ?_⟩
    rcases hop with rfl | rfl | rfl
    · exact .inr rfl
    · exact .inl rfl
    · exact .inl rfl
  have hclose : ∀ s, stateAtClose ops s = none := by
    rcases hops with rfl | rfl <;> simp [processOps]
  have hnone : stateAtClose p.el.todo p.el.state = none := by
    rw [htodo]
    rcases hop with rfl | rfl | rfl <;> rfl
  constructor
  · exact hd ▸ h.delivered
  · intro _ hfresh
    rw [hs, hd]
    exact h.kept (.inl hgo) (hf ▸ hfresh)
  · intro _ hfresh
    rw [hs]
    have := h.rewound (.inl hgo) (hf ▸ hfresh)
    rw [hnone] at this
    exact .inl (this.resolve_right (by simp))
  · intro s hs'
    rw [htodo', hclose] at hs'
    cases hs'
  · intro _ hopen
    have hnow : openField.final p'.el = openField.final p.el := by
      rw [Field.final, Field.final, htodo', htodo, openField_get, ho,
        openField_get]
      rcases hops with rfl | rfl <;> rcases hop with rfl | rfl | rfl <;> rfl
    rw [hnow] at hopen
    have hready := h.opened hgo hopen
    rw [FileReady, hs, hf]
    exact hready
  · rw [htodo']
    rcases hops with rfl | rfl <;> simp [processOps]
  · rw [htodo']
    rcases hops with rfl | rfl <;>
      simp [processOps, isSingle, Op.processing]

/-- When the task comes neither to `open` nor to another command, little is
left to keep. -/
theorem PlayInv.of_not_live {d : Setup} {p : Player}
    (hdel : p.delivered <+: d.contents) (hlive : ¬Live p.el.todo)
    (hread : Op.callProcess ∉ p.el.todo)
    (honce : p.el.todo.countP isSingle ≤ 1) : PlayInv d p where
  delivered := hdel
  kept := fun hl => absurd hl hlive
  rewound := fun hl => absurd hl hlive
  closing := fun _ _ hl => absurd hl hlive
  opened := fun hgo => absurd (.inl hgo) hlive
  reading := fun hmem => absurd hmem hread
  once := honce

/-- The task comes to its end. -/
theorem PlayInv.exit {d : Setup} {cfg : Config} {el : Element}
    {p' : Player} (hdel : p'.delivered <+: d.contents)
    (htodo' : p'.el.todo = exitOps cfg el) : PlayInv d p' := by
  refine .of_not_live hdel ?_ ?_ ?_
  · rintro (hgo | hopen)
    · rw [htodo'] at hgo
      exact not_goesOn_exitOps cfg el hgo
    · rw [htodo'] at hopen
      cases noted_exitOps cfg el _ hopen rfl
  · rw [htodo', exitOps, closeOps]
    split <;> simp
  · rw [htodo', exitOps]
    exact single_closeOps cfg el _ (by simp [isSingle, Op.processing])

/-- A stream has `open` and `close`. -/
theorem settles_fatfs (q : Nat) (el : Element) (c : Cmd) :
    Settles (fatfsConfig q) el c :=
  ⟨fun _ _ => rfl, fun _ hno => by cases hno⟩

/-- The task dequeues `m`. -/
theorem PlayInv.recv {d : Setup} {q : Nat} {p p' : Player} {m : Msg}
    {rest : List Op} (h : PlayInv d p)
    (hw : ProcessInv (fatfsConfig q) p.watched)
    (htodo : p.el.todo = .recv :: rest)
    (hrewinds : m.cmd.ends = true →
      p.el.isOpen = true ∨ p.stream.info.bytePos = 0)
    (htodo' : p'.el.todo = onCmd (fatfsConfig q) p.el m.cmd)
    (hstate : p'.el.state = p.el.state) (ho : p'.el.isOpen = p.el.isOpen)
    (hs : p'.stream = p.stream) (hf : p'.fresh = (p.fresh || m.cmd.ends))
    (hd : p'.delivered = p.delivered) : PlayInv d p' := by
  have hgo : GoesOn p.el.todo := ⟨.recv, by simp [htodo], .inl rfl⟩
  have hnow : openField.final p.el = p.el.isOpen := by
    rw [Field.final, htodo]
    rfl
  have hlow : p.el.isOpen = true →
      p.el.state.value ≤ State.running.value := by
    intro hopen
    have hlow := (hw.ready hgo (hnow.trans hopen)).low
    have : stateField.final p.el = p.el.state := by
      rw [Field.final, htodo]
      rfl
    exact this ▸ hlow
  have hnone : stateAtClose p.el.todo p.el.state = none := by
    rw [htodo]
    rfl
  constructor
  · exact hd ▸ h.delivered
  · intro _ hfresh
    rw [hf, Bool.or_eq_false_iff] at hfresh
    rw [hs, hd]
    exact h.kept (.inl hgo) hfresh.1
  · intro _ hfresh
    rw [hs, htodo']
    cases hends : m.cmd.ends with
    | true =>
        rcases hrewinds hends with hopen | hzero
        · exact .inr (onCmd_closing _ hends hopen rfl (hlow hopen))
        · exact .inl hzero
    | false =>
        rw [hf, hends, Bool.or_false] at hfresh
        have := h.rewound (.inl hgo) hfresh
        rw [hnone] at this
        exact .inl (this.resolve_right (by simp))
  · intro s hsome _
    rw [htodo', hstate] at hsome
    obtain ⟨hopen, ⟨hc, rfl⟩ | ⟨hends, rfl⟩⟩ := stateAtClose_onCmd hsome
    · have hfresh := (h.opened hgo (hnow.trans hopen)).1
      simp [hf, hfresh, hc, Cmd.ends]
    · have hne : p.el.state ≠ .paused := by
        intro heq
        have hlow := hlow hopen
        rw [heq] at hlow
        exact absurd hlow (by decide)
      simp [hf, hends, hne]
  · intro hgo' hopen
    rw [htodo'] at hgo'
    rw [Field.final, htodo', openField_get, ho] at hopen
    have hc : m.cmd = .resume :=
      resume_of_open (settles_fatfs q p.el m.cmd) hlow hgo' hopen
    rw [onCmd_open, hc] at hopen
    simp only [if_pos ((goesOn_onCmd hgo').2 hc rfl)] at hopen
    have hready := h.opened hgo (hnow.trans hopen)
    have hfresh : p'.fresh = p.fresh := by
      rw [hf, hc]
      exact Bool.or_false _
    rw [FileReady, hs, hfresh]
    exact hready
  · intro hmem
    rw [htodo'] at hmem
    cases processing_onCmd _ _ _ _ hmem
  · rw [htodo']
    exact single_onCmd _ _ _

/-- `_fatfs_open` is called. -/
theorem PlayInv.openCall {d : Setup} {p p' : Player} {rest : List Op}
    (h : PlayInv d p) (htodo : p.el.todo = .callOpen :: rest)
    (hlong : 0 ≤ toLong p.stream.info.bytePos →
      toLong p.stream.info.bytePos = p.stream.info.bytePos)
    (hel : p'.el =
      { p.el with todo := openReturned (fatfsOpen d p.stream).2 })
    (hs : p'.stream = (fatfsOpen d p.stream).1) (hf : p'.fresh = false)
    (hd : p'.delivered = if p.fresh then [] else p.delivered) :
    PlayInv d p' := by
  have hlive : Live p.el.todo := .inr (by simp [htodo])
  have hprefix : p'.delivered <+: d.contents := by
    rw [hd]
    split
    · exact List.nil_prefix
    · exact h.delivered
  have htodo' : p'.el.todo = openReturned (fatfsOpen d p.stream).2 := by
    rw [hel]
  cases hok : (fatfsOpen d p.stream).2 with
  | false =>
      rw [hok] at htodo'
      refine .of_not_live hprefix ?_ ?_ ?_
      · rw [htodo']
        simp [Live, GoesOn, openReturned, Op.between]
      · simp [htodo', openReturned]
      · simp [htodo', openReturned, isSingle, Op.processing]
  | true =>
      obtain ⟨path, hpath, hfatfs, hpos⟩ := fatfsOpen_ok hlong hok
      rw [hok] at htodo'
      constructor
      · exact hprefix
      · intro _ _
        rw [hs, hpos, hd]
        split
        · rename_i hfresh
          have := h.rewound hlive hfresh
          rw [htodo] at this
          exact this.resolve_right (by simp)
        · rename_i hfresh
          exact h.kept hlive (by simpa using hfresh)
      · intro _ hfresh
        rw [hf] at hfresh
        cases hfresh
      · intro s hsome
        rw [htodo'] at hsome
        simp [openReturned, resumedOps] at hsome
      · intro _ _
        refine ⟨hf, path, hpath, ?_⟩
        rw [hs, hfatfs, hpos]
      · simp [htodo', openReturned, resumedOps]
      · simp [htodo', openReturned, resumedOps, isSingle, Op.processing]

/-- `_fatfs_close` is called. -/
theorem PlayInv.closeCall {d : Setup} {cfg : Config} {p p' : Player}
    {rest : List Op} (h : PlayInv d p) (hw : ProcessInv cfg p.watched)
    (htodo : p.el.todo = .callClose :: rest)
    (hel : p'.el = { p.el with todo := rest })
    (hs : p'.stream = fatfsClose p.el.state p.stream)
    (hf : p'.fresh = p.fresh) (hd : p'.delivered = p.delivered) :
    PlayInv d p' := by
  have hmem : ∀ op ∈ p'.el.todo, op ∈ p.el.todo := by
    intro op hop
    rw [hel] at hop
    rw [htodo]
    exact List.mem_cons_of_mem _ hop
  have hlive : Live p'.el.todo → Live p.el.todo :=
    fun hl => hl.of_noted fun op hop _ => hmem op hop
  have hstate : Live p'.el.todo →
      (p.el.state = .paused ↔ p.fresh = false) := fun hl =>
    h.closing p.el.state (by rw [htodo]; rfl) (hlive hl)
  constructor
  · exact hd ▸ h.delivered
  · intro hl hfresh
    rw [hf] at hfresh
    have hpaused := (hstate hl).2 hfresh
    rw [hs, hd, ← h.kept (hlive hl) hfresh]
    simp [fatfsClose, hpaused]
  · intro hl hfresh
    rw [hf] at hfresh
    have hne : p.el.state ≠ .paused := by
      intro heq
      rw [(hstate hl).1 heq] at hfresh
      cases hfresh
    left
    simp [hs, fatfsClose, hne]
  · intro s hsome _
    rw [hel] at hsome
    exact absurd (stateAtClose_mem hsome) (h.no_other htodo rfl rfl)
  · intro hgo hopen
    have hgo := hgo.of_noted fun op hop _ => hmem op hop
    have hopen : openField.final p.el = true := by
      rw [hel] at hopen
      rw [Field.final, htodo]
      exact hopen
    exact absurd (by rw [show p.watched.sys.el.todo = _ from htodo]; simp)
      (hw.ready hgo hopen).closing
  · intro hread
    rw [hel] at hread
    exact absurd hread (h.no_other htodo rfl rfl)
  · have honce := h.once
    rw [htodo, List.countP_cons] at honce
    rw [hel]
    exact Nat.le_trans (Nat.le_add_right _ _) honce

/-- Reading on where a prefix ends gives a longer one. -/
theorem prefix_read {α : Type} {xs ys : List α} (h : xs <+: ys) (n : Nat) :
    xs ++ (ys.drop xs.length).take n <+: ys := by
  obtain ⟨zs, rfl⟩ := h
  rw [List.drop_left]
  exact ⟨zs.drop n, by rw [List.append_assoc, List.take_append_drop]⟩

/-- `_fatfs_read` delivers the bytes that follow. -/
theorem PlayInv.advance {d : Setup} {p p' : Player} {bytes : List UInt8}
    {stream : Stream} (h : PlayInv d p) (hlive : Live p.el.todo)
    (hready : FileReady d p)
    (hread : fatfsRead d p.stream d.bufSize = some (stream, bytes))
    (hel : p'.el = p.el) (hs : p'.stream = stream)
    (hf : p'.fresh = p.fresh) (hd : p'.delivered = p.delivered ++ bytes) :
    PlayInv d p' := by
  obtain ⟨hfresh, path, hpath, hfatfs⟩ := hready
  obtain ⟨f, hfile, hbytes, hfatfs', hpos⟩ := fatfsRead_some hread
  have hlen := h.kept hlive hfresh
  have hfeq : f = ⟨path, p.stream.info.bytePos⟩ := by
    rw [hfatfs] at hfile
    exact (Option.some.inj (Fatfs.mk.inj hfile).2).symm
  have hcontents : (d.files f.path).getD [] = d.contents := by
    rw [hfeq, Setup.contents, hpath]
    rfl
  rw [hcontents, hfeq, hlen] at hbytes
  rw [hfeq] at hfatfs'
  constructor
  · rw [hd, hbytes]
    exact prefix_read h.delivered d.bufSize
  · intro _ _
    rw [hs, hpos, hd, List.length_append, hlen]
  · intro _ hf'
    rw [hf, hfresh] at hf'
    cases hf'
  · intro s
    rw [hel, hf]
    exact h.closing s
  · intro _ _
    refine ⟨hf.trans hfresh, path, hpath, ?_⟩
    rw [hs, hfatfs', hpos]
  · rw [hel]
    exact h.reading
  · rw [hel]
    exact h.once

/-- One operation of the task that is no callback. -/
theorem PlayInv.task {d : Setup} {q : Nat} {p : Player} {a : PlayAct}
    {ans : Answer} {w : Watched} (h : PlayInv d p)
    (hw : ProcessInv (fatfsConfig q) p.watched)
    (hm : TaskMove (fatfsConfig q) p.el ans w.sys.el)
    (ha : ∀ e, ans ≠ .effect e)
    (hgo : p.el.todo.head? = some .recv → a = .go)
    (hhead : ∀ op ∈ p.el.todo.head?, isCallback op = false)
    (hok : Rewinds p a) :
    PlayInv d { p with watched := w, fresh := freshAfter p } := by
  have hfresh : ∀ {op : Op} {rest : List Op}, p.el.todo = op :: rest →
      op ≠ .recv → freshAfter p = p.fresh := by
    intro op rest htodo hop
    rw [freshAfter, if_neg (by simp [htodo, hop])]
  have hplain : ∀ {op : Op} {rest : List Op}, p.el.todo = op :: rest →
      op ≠ .callOpen ∧ op ≠ .callClose := by
    intro op rest htodo
    have := hhead op (by simp [htodo])
    constructor <;>
    · rintro rfl
      cases this
  generalize hel : w.sys.el = el at hm
  have hel : Player.el { p with watched := w, fresh := freshAfter p } = el :=
    hel
  cases hm with
  | write op rest htodo =>
      refine h.tail htodo (by rw [hel]) (by simp) ?_ ?_ rfl
        (hfresh htodo (by simp)) rfl
      · rw [hel, htodo]
        cases op with
        | bit b v => cases b <;> rfl
        | _ => rfl
      · rw [hel]
        exact openField.final_write htodo
  | send c rest htodo =>
      refine h.tail htodo (by rw [hel]) (by simp) ?_ ?_ rfl
        (hfresh htodo (by simp)) rfl
      · rw [hel, htodo, Element.cmdSend]
        split <;> rfl
      · rw [hel]
        exact openField.final_send htodo _
  | mallocFail rest htodo =>
      refine h.tail htodo (by rw [hel]) (by simp) ?_ ?_ rfl
        (hfresh htodo (by simp)) rfl
      · rw [hel, htodo]
        rfl
      · rw [hel, Field.final, Field.final, htodo]
        rfl
  | expand op rest a ops htodo he =>
      refine h.expand hw htodo he (hplain htodo) (ha _) hel rfl
        (hfresh htodo ?_) rfl
      rintro rfl
      cases he
  | opened b rest htodo => exact absurd rfl (hplain htodo).1
  | ret ok rest htodo =>
      cases ok with
      | true =>
          exact h.turn htodo (.inl rfl) (.inr rfl) (by rw [hel]; rfl)
            (by rw [hel]; rfl) rfl (hfresh htodo (by simp)) rfl
      | false => exact .exit h.delivered (by rw [hel]; rfl)
  | loop rest htodo =>
      cases hrun : p.el.taskRun with
      | true =>
          exact h.turn htodo (.inr (.inl rfl)) (.inl rfl)
            (by rw [hel, hrun]; rfl) (by rw [hel]) rfl
            (hfresh htodo (by simp)) rfl
      | false => exact .exit h.delivered (by rw [hel, hrun]; rfl)
  | recv m more rest htodo hc =>
      refine h.recv hw htodo ?_ (by rw [hel]) (by rw [hel]) (by rw [hel])
        rfl ?_ rfl
      · intro hends
        exact hok.1 (hgo (by simp [htodo])) (by simp [htodo]) m
          (by simp [hc]) hends
      · simp [freshAfter, htodo, hc]
  | poll rest htodo hc hwait =>
      refine h.turn htodo (.inr (.inr rfl)) (.inr rfl) (by rw [hel])
        (by rw [hel]) rfl ?_ rfl
      simp [freshAfter, hc]

theorem playInv_start (d : Setup) : PlayInv d Player.start := by
  constructor
  · exact List.nil_prefix
  · exact fun _ _ => rfl
  · exact fun _ _ => .inl rfl
  · intro s hsome
    cases hsome
  · intro _ hopen
    cases hopen
  · simp [Player.start, Player.el, Watched.start, Sys.start, Element.start,
      taskOps]
  · simp [Player.start, Player.el, Watched.start, Sys.start, Element.start,
      taskOps, isSingle, Op.processing]

theorem PlayInv.step {d : Setup} {q : Nat} {p p' : Player} {a : PlayAct}
    (h : PlayInv d p) (hw : ProcessInv (fatfsConfig q) p.watched)
    (hok : Rewinds p a) (hm : PlayMove d (fatfsConfig q) p a p') :
    PlayInv d p' := by
  cases hm with
  | deliver c w hl =>
      have hel : Player.el { p with watched := w } = w.sys.el := rfl
      have hstate : w.sys.el.state = p.el.state := by
        rcases hl.state with ⟨hno, -⟩ | ⟨-, hs⟩
        · exact hno.elim
        · exact hs
      have hopen : openField.final w.sys.el = openField.final p.el := by
        rw [Field.final, Field.final, hl.todo, openField_get, hl.isOpen,
          openField_get]
      refine h.frame (fun op hop _ => hl.todo ▸ hop) ?_ ?_ ?_ ?_ rfl rfl rfl
      · rw [hel, hl.todo, hstate]
      · rw [hel, hopen]
        exact id
      · rw [hel, hl.todo, hopen]
        exact h.reading
      · exact Nat.le_of_eq (by rw [hel, hl.todo])
  | task a ans w hm ha hgo hhead => exact h.task hw hm ha hgo hhead hok
  | opened w rest htodo hel =>
      exact h.openCall htodo (hok.2 rfl (by simp [htodo])) hel rfl rfl rfl
  | closed w rest htodo hel =>
      exact h.closeCall hw htodo hel rfl rfl rfl
  | read a ans w rest ops stream bytes result htodo hread he ha hel =>
      obtain ⟨hloop, hopen⟩ := h.reading (by simp [htodo])
      have hgo : GoesOn p.el.todo := ⟨_, hloop, .inl rfl⟩
      -- `fread` first, then the task goes on
      have hadvance : PlayInv d { p with
          stream := stream, delivered := p.delivered ++ bytes } :=
        h.advance (.inl hgo) (h.opened hgo hopen) hread rfl rfl rfl rfl
      exact hadvance.expand hw htodo he ⟨by simp, by simp⟩ ha hel rfl rfl rfl
  | returned a w rest n htodo hel =>
      exact h.expand hw htodo (.processed n) ⟨by simp, by simp⟩ (by simp)
        hel rfl rfl rfl

/-! ## The result -/

/-- The element of a player is a watched element whose every step meets the
condition of `process_while_running`. -/
theorem processInv_player {d : Setup} {q : Nat} {p : Player}
    {ok : Player → PlayAct → Prop}
    (hp : (playMachine d q).Reaches ok Player.start p) :
    ProcessInv (fatfsConfig q) p.watched := by
  refine processInv_reaches (hp.map Player.watched ?_)
  intro u a v _ hstep
  obtain ⟨b, hb⟩ := playStep_watch hstep
  exact ⟨b, fun _ _ m _ => settles_fatfs q _ m.cmd, hb⟩

theorem playInv_reaches {d : Setup} {q : Nat} {p : Player}
    (hp : (playMachine d q).Reaches Rewinds Player.start p) :
    PlayInv d p := by
  induction hp with
  | refl => exact playInv_start d
  | tail hreach hst ih =>
      obtain ⟨a, hok, hstep⟩ := hst
      exact ih.step (processInv_player hreach) hok (playStep_move hstep)

/-- **A session is contiguous**: what it has delivered is the beginning of the
file, and the next byte to deliver is the one that follows, when every session
ends with the position clear. -/
theorem sessions_contiguous {d : Setup} {q : Nat} {p : Player}
    (hp : (playMachine d q).Reaches Rewinds Player.start p) :
    p.delivered <+: d.contents ∧
      (p.el.todo.head? = some .callProcess → ∃ path,
        d.path = some path ∧
        p.stream.fatfs = ⟨true, some ⟨path, p.delivered.length⟩⟩) := by
  have h := playInv_reaches hp
  refine ⟨h.delivered, ?_⟩
  intro hhead
  obtain ⟨hloop, hopen⟩ := h.reading (List.mem_of_head? hhead)
  have hgo : GoesOn p.el.todo := ⟨_, hloop, .inl rfl⟩
  obtain ⟨hfresh, path, hpath, hfatfs⟩ := h.opened hgo hopen
  exact ⟨path, hpath, h.kept (.inl hgo) hfresh ▸ hfatfs⟩

/-! ## Two runs -/

/-- A file of four bytes, read two at a time. -/
def fourBytes : Setup where
  uri := some "/sdcard/four"
  files := fun path => if path = "/sdcard/four" then some [0, 1, 2, 3] else none
  bufSize := 2

def playGo (n : Nat) : List PlayAct := List.replicate n .go

/-- The task comes up and is resumed: it opens the file and calls
`_fatfs_process`. -/
def playUp : List PlayAct :=
  playGo 4 ++ [.malloc true] ++ playGo 2 ++ [.deliver .resume] ++ playGo 11

/-- `_fatfs_process` reads, and the task takes the next command. -/
def playThen (c : PlayCmd) : List PlayAct :=
  [.deliver c, .process 2] ++ playGo 2

/-- The reader is paused and resumed, and reads on. -/
def pausedOnce : List PlayAct :=
  playUp ++ playThen .pause ++ playGo 10 ++ [.deliver .resume] ++
    playGo 11 ++ [.process 2]

/-- The paused reader is stopped and then resumed. -/
def stoppedWhilePaused : List PlayAct :=
  playUp ++ playThen .pause ++ playGo 10 ++ [.deliver .stop] ++
    playGo 11 ++ [.deliver .resume] ++ playGo 12 ++ [.process 2]

theorem sessions_contiguous_paused : ∃ p,
    (playMachine fourBytes 5).runIf Rewinds Player.start pausedOnce =
      some p ∧
    p.delivered = [0, 1, 2, 3] ∧ p.delivered <+: fourBytes.contents :=
  have h := sessions_contiguous (Machine.reaches_of_runIf
    (show (playMachine fourBytes 5).runIf Rewinds Player.start pausedOnce =
      some _ by rfl))
  ⟨_, rfl, rfl, h.1⟩

/-- The session that follows the `STOP` starts where the last one was
paused. -/
theorem session_resumes_stopped : ∃ p,
    (playMachine fourBytes 5).Reachable Player.start p ∧
    p.el.state = .running ∧ p.delivered = [2, 3] ∧
    ¬p.delivered <+: fourBytes.contents :=
  ⟨_, Machine.reachable_iff_run.2 ⟨stoppedWhilePaused, rfl⟩, rfl, rfl,
    by decide +kernel⟩

end EspAdf.Ports.FatfsStream
