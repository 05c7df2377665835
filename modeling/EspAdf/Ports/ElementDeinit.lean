import EspAdf.Ports.ElementMoves

/-!
# Freeing an element whose task may still run

`audio_element_deinit` calls `audio_element_stop`, `_wait_for_stop` and
`_terminate`, ignores what they return, and frees the element.  The wait for
`TASK_DESTROYED_BIT` is bounded, the command that asks for it may find the
queue full, and after the task has set the bit it still writes
`el->task_run`.

`freed_after_task` proves that the element outlives its task in every run
whose frees meet the condition `FreesLate`, and that the first free that does
not meet it frees an element in use.  The task, any number of other calls and
`audio_element_deinit` interleave freely; every bounded wait may time out.
-/

namespace EspAdf.Ports.AudioElement

open EspAdf.Verified

/-! ## `audio_element_deinit` -/

/-- What `audio_element_deinit` frees, in this order. -/
inductive Resource where
  | eventGroup
  | lock
  | ifaceEvent
  | tag
  | uri
  | element
  deriving DecidableEq, Repr

def deinitFrees : List Resource :=
  [.eventGroup, .lock, .ifaceEvent, .tag, .uri, .element]

/-- Where `audio_element_deinit` is: in a call that others follow, or
freeing. -/
inductive DeinitPc where
  | notCalled
  | calling (call : CallPc) (more : List Call)
  | freeing (rest : List Resource)
  deriving DecidableEq, Repr

structure Deinit where
  sys : Sys
  pc : DeinitPc
  freed : List Resource
  /-- History: the task has set `TASK_DESTROYED_BIT`. -/
  bitSet : Bool
  /-- History: `audio_element_terminate` returned because it saw the bit. -/
  confirmed : Bool
  deriving DecidableEq, Repr

inductive DeinitAct where
  | sys (a : Act)
  | deinit (timeout : Bool)
  deriving DecidableEq, Repr

/-- The task is about to set `TASK_DESTROYED_BIT`. -/
def setsDestroyed (s : Sys) : Act → Bool
  | .task _ => s.el.todo.head? = some (setBits .destroyed)
  | .clientStart _ => false
  | .clientStep _ _ => false

/-- A call of `audio_element_deinit` goes on or returns. -/
def Deinit.callStep (cfg : Config) (s : Deinit) (call : CallPc)
    (more : List Call) (timeout : Bool) : Option Deinit :=
  (callNext cfg s.sys.el timeout call).map fun (el, out) =>
    let s := { s with sys := { s.sys with el := el } }
    match out, more with
    | .next call', _ => { s with pc := .calling call' more }
    | .done _, c :: more => { s with pc := .calling c.start more }
    | .done err, [] => { s with
        pc := .freeing deinitFrees
        confirmed := decide (call = .terminateWait ∧ err = ESP_OK) }

def deinitStep (cfg : Config) (s : Deinit) : DeinitAct → Option Deinit
  | .sys a => (sysStep cfg s.sys a).map fun sys =>
      { s with sys := sys, bitSet := s.bitSet || setsDestroyed s.sys a }
  | .deinit timeout =>
      match s.pc with
      | .notCalled =>
          some { s with pc := .calling Call.stop.start [.waitForStop, .terminate] }
      | .calling call more => s.callStep cfg call more timeout
      | .freeing [] => none
      | .freeing (r :: rest) =>
          some { s with pc := .freeing rest, freed := s.freed ++ [r] }

def deinitMachine (cfg : Config) : Machine Deinit DeinitAct :=
  ⟨deinitStep cfg⟩

/-- The element's task has just been created. -/
def Deinit.start : Deinit := ⟨.start, .notCalled, [], false, false⟩

/-! ## Safety and the condition -/

/-- What is freed is freed after the task has set `TASK_DESTROYED_BIT`, and
nothing is left for the task to do. -/
def Safe (s : Deinit) : Prop :=
  s.freed ≠ [] → s.bitSet = true ∧ s.sys.el.todo = []

/-- A free comes late enough: after `audio_element_terminate` has seen the
bit, the task has also executed its last statement; otherwise the task has
come to its end nevertheless. -/
def FreesLate (s : Deinit) : DeinitAct → Prop
  | .sys _ => True
  | .deinit _ =>
      match s.pc with
      | .freeing (_ :: _) =>
          if s.confirmed then s.sys.el.todo ≠ [setTaskRun false]
          else s.sys.el.todo = []
      | _ => True

instance (s : Deinit) (a : DeinitAct) : Decidable (FreesLate s a) :=
  match a with
  | .sys _ => inferInstanceAs (Decidable True)
  | .deinit _ =>
      match h : s.pc with
      | .notCalled => isTrue (by simp [FreesLate, h])
      | .calling _ _ => isTrue (by simp [FreesLate, h])
      | .freeing [] => isTrue (by simp [FreesLate, h])
      | .freeing (_ :: _) =>
          decidable_of_iff (if s.confirmed then
            s.sys.el.todo ≠ [setTaskRun false] else s.sys.el.todo = [])
            (by simp only [FreesLate, h])

/-! ## The end of the task -/

/-- Operations after which the task has more to do than is in its program, and
the one that sets `TASK_DESTROYED_BIT`. -/
def Op.goesOn : Op → Bool
  | .callOpen => true
  | .ret _ => true
  | .loop => true
  | .recv => true
  | op => op = setBits .destroyed

/-- The program sets `TASK_DESTROYED_BIT` in the last statement but one. -/
def EndsOnce (ops : List Op) : Prop :=
  ∀ pre post, ops = pre ++ setBits .destroyed :: post →
    post = [setTaskRun false]

/-- The task is over, or only its last statement is left. -/
def AtEnd (ops : List Op) : Prop := ops = [setTaskRun false] ∨ ops = []

/-- A whole program: it goes on, and sets the bit at its end if at all. -/
structure Program (ops : List Op) : Prop where
  goesOn : ∃ op ∈ ops, op.goesOn = true
  endsOnce : EndsOnce ops

theorem EndsOnce.of_notMem {ops : List Op} (h : setBits .destroyed ∉ ops) :
    EndsOnce ops := by
  rintro pre post rfl
  exact absurd (by simp) h

theorem EndsOnce.tail {op : Op} {ops : List Op} (h : EndsOnce (op :: ops)) :
    EndsOnce ops := by
  rintro pre post rfl
  exact h (op :: pre) post rfl

/-- Operations put in front that do not set the bit. -/
theorem EndsOnce.append {ops rest : List Op} (h : EndsOnce rest)
    (hops : setBits .destroyed ∉ ops) : EndsOnce (ops ++ rest) := by
  induction ops with
  | nil => exact h
  | cons op ops ih =>
      rw [List.mem_cons, not_or] at hops
      intro pre post heq
      cases pre with
      | nil =>
          rw [List.nil_append, List.cons_append] at heq
          exact absurd (List.cons.inj heq).1.symm hops.1
      | cons op' pre =>
          rw [List.cons_append, List.cons_append] at heq
          exact ih hops.2 pre post (List.cons.inj heq).2

theorem closeOps_notMem (cfg : Config) (el : Element) :
    setBits .destroyed ∉ closeOps cfg el := by
  rw [closeOps]
  split <;> simp

theorem program_exitOps (cfg : Config) (el : Element) :
    Program (exitOps cfg el) where
  goesOn := ⟨setBits .destroyed, by simp [exitOps], rfl⟩
  endsOnce := by
    refine EndsOnce.append ?_ (closeOps_notMem cfg el)
    intro pre post heq
    rcases pre with _ | ⟨op, _ | ⟨op', pre⟩⟩ <;> simp_all

theorem program_processOps : Program processOps where
  goesOn := ⟨.loop, by simp [processOps], rfl⟩
  endsOnce := .of_notMem (by simp [processOps])

theorem program_onCmd (cfg : Config) (el : Element) (c : Cmd) :
    Program (onCmd cfg el c) := by
  have hclose := closeOps_notMem cfg el
  cases c with
  | stop =>
      rw [onCmd]
      split
      · exact ⟨⟨.ret true, by simp, rfl⟩,
          .of_notMem (by simpa using hclose)⟩
      · exact ⟨⟨.ret true, by simp, rfl⟩, .of_notMem (by simp)⟩
  | resume =>
      rw [onCmd]
      split
      · exact ⟨⟨.ret true, by simp, rfl⟩, .of_notMem (by simp)⟩
      · cases cfg.hasOpen with
        | true =>
            refine ⟨⟨.callOpen, by simp, rfl⟩, .of_notMem ?_⟩
            split <;> simp
        | false =>
            refine ⟨⟨.ret true, by simp [resumedOps], rfl⟩, .of_notMem ?_⟩
            split <;> simp [resumedOps]
  | destroy =>
      exact ⟨⟨.ret false, by simp [onCmd], rfl⟩, .of_notMem (by simp [onCmd])⟩
  | _ =>
      exact ⟨⟨.ret true, by simp [onCmd], rfl⟩,
        .of_notMem (by simpa [onCmd] using hclose)⟩

theorem program_openReturned (b : Bool) : Program (openReturned b) := by
  cases b with
  | true =>
      exact ⟨⟨.ret true, by simp [openReturned, resumedOps], rfl⟩,
        .of_notMem (by simp [openReturned, resumedOps])⟩
  | false =>
      exact ⟨⟨.ret false, by simp [openReturned], rfl⟩,
        .of_notMem (by simp [openReturned])⟩

theorem Expands.notMem {el : Element} {op : Op} {a : Answer} {ops : List Op}
    (h : Expands el op a ops) : setBits .destroyed ∉ ops := by
  cases h with
  | openEffect e => cases e <;> simp [Effect.ops]
  | closeEffect e => cases e <;> simp [Effect.ops]
  | processEffect e => cases e <;> simp [Effect.ops]
  | processed n => rcases processReturned_cases n with h | h | h <;> simp [h]
  | _ => simp

/-- The program goes on after an operation was replaced. -/
theorem Expands.goesOn {el : Element} {op : Op} {a : Answer}
    {ops rest : List Op} (h : Expands el op a ops)
    (hgoes : ∃ op' ∈ op :: rest, op'.goesOn = true) :
    ∃ op' ∈ ops ++ rest, op'.goesOn = true := by
  rcases hgoes with ⟨op', hop', hgo⟩
  rcases List.mem_cons.1 hop' with rfl | hrest
  · cases h with
    | openEffect e => exact ⟨.callOpen, by simp, rfl⟩
    | _ => simp [Op.goesOn] at hgo
  · exact ⟨op', List.mem_append_right _ hrest, hgo⟩

/-- The element's program, and what `TASK_DESTROYED_BIT` says about it. -/
structure Ending (el : Element) (bitSet : Bool) : Prop where
  goesOn : bitSet = false → ∃ op ∈ el.todo, op.goesOn = true
  endsOnce : EndsOnce el.todo
  bit : el.destroyedBit = true → AtEnd el.todo

theorem Ending.of_program {el : Element} {bitSet : Bool}
    (h : Program el.todo) (hbit : el.destroyedBit = false) :
    Ending el bitSet :=
  ⟨fun _ => h.goesOn, h.endsOnce, fun htrue => by rw [hbit] at htrue; cases htrue⟩

/-- While the bit is set, nothing but the last statement is executed. -/
theorem Ending.bit_false {el : Element} {bitSet : Bool} (h : Ending el bitSet)
    {op : Op} {rest : List Op} (htodo : el.todo = op :: rest)
    (hop : op ≠ setTaskRun false) : el.destroyedBit = false := by
  cases hbit : el.destroyedBit with
  | false => rfl
  | true =>
      rcases h.bit hbit with hend | hend
      · rw [htodo] at hend
        exact absurd (List.cons.inj hend).1 hop
      · rw [htodo] at hend
        cases hend

/-- Behind an operation that does not go on, the program goes on in the
rest. -/
theorem Ending.goesOn_tail {el : Element} {bitSet : Bool}
    (h : Ending el bitSet) {op : Op} {rest : List Op}
    (htodo : el.todo = op :: rest) (hop : op.goesOn = false)
    (hfalse : bitSet = false) : ∃ op' ∈ rest, op'.goesOn = true := by
  obtain ⟨op', hop', hgoes⟩ := h.goesOn hfalse
  rw [htodo] at hop'
  rcases List.mem_cons.1 hop' with rfl | hrest
  · rw [hop] at hgoes
    contradiction
  · exact ⟨op', hrest, hgoes⟩

theorem Ending.endsOnce_tail {el : Element} {bitSet : Bool}
    (h : Ending el bitSet) {op : Op} {rest : List Op}
    (htodo : el.todo = op :: rest) : EndsOnce rest := by
  have hends := h.endsOnce
  rw [htodo] at hends
  exact hends.tail

theorem Write.apply_destroyedBit (el : Element) {w : Write}
    (hw : w ≠ .bit .destroyed true)
    (h : (w.apply el).destroyedBit = true) : el.destroyedBit = true := by
  cases w with
  | bit b v =>
      cases b with
      | destroyed =>
          cases v with
          | true => exact absurd rfl hw
          | false => cases h
      | _ => exact h
  | _ => exact h

theorem Ending.write {el : Element} {bitSet : Bool} (h : Ending el bitSet)
    {w : Write} {rest : List Op} (htodo : el.todo = .write w :: rest) :
    Ending { w.apply el with todo := rest }
      (bitSet || decide (el.todo.head? = some (setBits .destroyed))) := by
  by_cases hw : w = .bit .destroyed true
  · subst hw
    have hrest : rest = [setTaskRun false] :=
      h.endsOnce [] rest (by rw [htodo]; rfl)
    refine ⟨fun hfalse => ?_, ?_, fun _ => .inl hrest⟩
    · simp [htodo] at hfalse
    · show EndsOnce rest
      rw [hrest]
      exact .of_notMem (by simp)
  · have hhead : decide (el.todo.head? = some (setBits .destroyed)) = false := by
      rw [htodo]
      simpa using hw
    rw [hhead, Bool.or_false]
    refine ⟨h.goesOn_tail htodo ?_, h.endsOnce_tail htodo, fun hbit => ?_⟩
    · simpa [Op.goesOn] using hw
    · have hold := Write.apply_destroyedBit el hw hbit
      rcases h.bit hold with hend | hend
      · rw [htodo] at hend
        exact .inr (List.cons.inj hend).2
      · rw [htodo] at hend
        cases hend

theorem Ending.task {cfg : Config} {el el' : Element} {a : Answer}
    {bitSet : Bool} (h : Ending el bitSet) (hm : TaskMove cfg el a el') :
    Ending el'
      (bitSet || decide (el.todo.head? = some (setBits .destroyed))) := by
  have hhead : ∀ {op : Op} {rest : List Op}, el.todo = op :: rest →
      op ≠ setBits .destroyed →
      (bitSet || decide (el.todo.head? = some (setBits .destroyed))) =
        bitSet := by
    intro op rest htodo hop
    rw [htodo, List.head?_cons, decide_eq_false
      (fun heq => hop (Option.some.inj heq)), Bool.or_false]
  cases hm with
  | write w rest htodo => exact h.write htodo
  | send c rest htodo =>
      rw [hhead htodo (by simp)]
      have hbit := h.bit_false htodo (by simp)
      refine ⟨h.goesOn_tail htodo rfl, h.endsOnce_tail htodo, fun htrue => ?_⟩
      · have : el.destroyedBit = true := by
          rw [Element.cmdSend] at htrue
          split at htrue <;> exact htrue
        rw [hbit] at this
        cases this
  | mallocFail rest htodo =>
      rw [hhead htodo (by simp)]
      have hbit := h.bit_false htodo (by simp)
      refine ⟨h.goesOn_tail htodo rfl, h.endsOnce_tail htodo, fun htrue => ?_⟩
      · exact absurd (hbit.symm.trans htrue) (by simp)
  | expand op rest a ops htodo he =>
      have hop : op ≠ setBits .destroyed := by
        rintro rfl
        cases he
      have hop' : op ≠ setTaskRun false := by
        rintro rfl
        cases he
      rw [hhead htodo hop]
      refine ⟨fun hfalse => ?_, (h.endsOnce_tail htodo).append he.notMem,
        fun htrue => ?_⟩
      · have hgoes := h.goesOn hfalse
        rw [htodo] at hgoes
        exact he.goesOn hgoes
      · exact absurd ((h.bit_false htodo hop').symm.trans htrue) (by simp)
  | opened b rest htodo =>
      exact .of_program (program_openReturned b)
        (h.bit_false htodo (by simp))
  | ret ok rest htodo =>
      refine .of_program ?_ (h.bit_false htodo (by simp))
      cases ok with
      | true => exact program_processOps
      | false => exact program_exitOps cfg el
  | loop rest htodo =>
      refine .of_program ?_ (h.bit_false htodo (by simp))
      show Program (if el.taskRun then [.recv] else exitOps cfg el)
      split
      · exact ⟨⟨.recv, by simp, rfl⟩, .of_notMem (by simp)⟩
      · exact program_exitOps cfg el
  | recv m more rest htodo hc =>
      exact .of_program (program_onCmd cfg el m.cmd)
        (h.bit_false htodo (by simp))
  | poll rest htodo hc hw =>
      exact .of_program program_processOps (h.bit_false htodo (by simp))

theorem Ending.client {cfg : Config} {el el' : Element} {pc : CallPc}
    {bitSet : Bool} (h : Ending el bitSet) (hm : ClientMove cfg el pc el') :
    Ending el' bitSet ∧ el'.todo = el.todo := by
  cases hm with
  | clearDestroyed => exact ⟨⟨h.goesOn, h.endsOnce, fun hbit => nomatch hbit⟩, rfl⟩
  | _ => exact ⟨⟨h.goesOn, h.endsOnce, h.bit⟩, rfl⟩

/-- A task at its end can only go to its very end. -/
theorem AtEnd.task {cfg : Config} {el el' : Element} {a : Answer}
    (h : AtEnd el.todo) (hm : TaskMove cfg el a el') : el'.todo = [] := by
  have hhead : ∀ {op : Op} {rest : List Op}, el.todo = op :: rest →
      op = setTaskRun false ∧ rest = [] := by
    intro op rest htodo
    rcases h with h | h
    · rw [htodo] at h
      exact List.cons.inj h
    · rw [htodo] at h
      cases h
  cases hm with
  | write w rest htodo => exact (hhead htodo).2
  | expand op rest a ops htodo he =>
      rw [(hhead htodo).1] at he
      cases he
  | send c rest htodo => cases (hhead htodo).1
  | mallocFail rest htodo => cases (hhead htodo).1
  | opened b rest htodo => cases (hhead htodo).1
  | ret ok rest htodo => cases (hhead htodo).1
  | loop rest htodo => cases (hhead htodo).1
  | recv m more rest htodo hc => cases (hhead htodo).1
  | poll rest htodo hc hw => cases (hhead htodo).1

/-! ## What holds in every run -/

/-- When `audio_element_terminate` has seen the bit, the task is at its
end. -/
structure DeinitInv (s : Deinit) : Prop where
  ending : Ending s.sys.el s.bitSet
  confirmed : s.confirmed = true → AtEnd s.sys.el.todo

theorem DeinitInv.start : DeinitInv .start where
  ending := .of_program
    ⟨⟨.loop, by simp [Deinit.start, Sys.start, Element.start, taskOps], rfl⟩,
      .of_notMem (by simp [Deinit.start, Sys.start, Element.start, taskOps])⟩
    rfl
  confirmed := fun h => nomatch h

/-- What one action does to the task and to what was freed. -/
structure DeinitMove (s t : Deinit) : Prop where
  ending : Ending t.sys.el t.bitSet
  todo : t.sys.el.todo = s.sys.el.todo ∨
    (AtEnd s.sys.el.todo → t.sys.el.todo = [])
  confirmed : t.confirmed = true → s.confirmed = true ∨ AtEnd t.sys.el.todo
  bitSet : s.bitSet = true → t.bitSet = true

theorem sys_move {cfg : Config} {s : Deinit} {sys : Sys} {a : Act}
    (h : DeinitInv s) (hstep : sysStep cfg s.sys a = some sys) :
    DeinitMove s
      { s with sys := sys, bitSet := s.bitSet || setsDestroyed s.sys a } := by
  rcases sysStep_move hstep with ⟨ans, rfl, hm⟩ | ⟨c, rfl, hel⟩ |
    ⟨i, timeout, c, pc, rfl, -, hm⟩
  · refine ⟨h.ending.task hm, .inr fun hend => hend.task hm, .inl, ?_⟩
    intro hset
    rw [hset, Bool.true_or]
  · refine ⟨?_, .inl (by rw [hel]), .inl, fun hset => by rw [hset, Bool.true_or]⟩
    rw [hel, setsDestroyed, Bool.or_false]
    exact h.ending
  · rcases h.ending.client hm with ⟨hending, htodo⟩
    refine ⟨?_, .inl htodo, .inl, fun hset => by rw [hset, Bool.true_or]⟩
    rw [setsDestroyed, Bool.or_false]
    exact hending

theorem call_move {cfg : Config} {s t : Deinit} {call : CallPc}
    {more : List Call} {timeout : Bool} (h : DeinitInv s)
    (hstep : s.callStep cfg call more timeout = some t) :
    DeinitMove s t ∧ t.freed = s.freed := by
  rw [Deinit.callStep, Option.map_eq_some_iff] at hstep
  rcases hstep with ⟨⟨el, out⟩, hnext, hout⟩
  rcases h.ending.client (callNext_move hnext) with ⟨hending, htodo⟩
  cases out with
  | next call' =>
      cases hout
      exact ⟨⟨hending, .inl htodo, .inl, id⟩, rfl⟩
  | done err =>
      cases more with
      | cons c more =>
          cases hout
          exact ⟨⟨hending, .inl htodo, .inl, id⟩, rfl⟩
      | nil =>
          cases hout
          refine ⟨⟨hending, .inl htodo, fun hconf => .inr ?_, id⟩, rfl⟩
          have hconf : call = .terminateWait ∧ err = ESP_OK :=
            of_decide_eq_true hconf
          rcases hconf with ⟨rfl, rfl⟩
          show AtEnd el.todo
          rw [htodo]
          apply h.ending.bit
          simp only [callNext, waitBits] at hnext
          split at hnext
          · rename_i hbit
            exact hbit
          · split at hnext
            · cases hnext
            · cases hnext

/-- An action frees something, or everything else holds as before. -/
theorem deinitStep_move {cfg : Config} {s t : Deinit} {a : DeinitAct}
    (h : DeinitInv s) (hstep : deinitStep cfg s a = some t) :
    DeinitMove s t ∧
      (t.freed = s.freed ∧ FreesLate s a ∨
        ∃ r rest timeout, a = .deinit timeout ∧ s.pc = .freeing (r :: rest) ∧
          t = { s with pc := .freeing rest, freed := s.freed ++ [r] }) := by
  have hsame : ∀ pc freed, DeinitMove s
      { s with pc := pc, freed := freed } :=
    fun _ _ => ⟨h.ending, .inl rfl, .inl, id⟩
  cases a with
  | sys a =>
      rw [deinitStep, Option.map_eq_some_iff] at hstep
      rcases hstep with ⟨sys, hsys, rfl⟩
      exact ⟨sys_move h hsys, .inl ⟨rfl, trivial⟩⟩
  | deinit timeout =>
      rw [deinitStep] at hstep
      cases hpc : s.pc with
      | notCalled =>
          simp only [hpc] at hstep
          cases hstep
          exact ⟨hsame _ s.freed, .inl ⟨rfl, by simp [FreesLate, hpc]⟩⟩
      | calling call more =>
          simp only [hpc] at hstep
          rcases call_move h hstep with ⟨hmove, hfreed⟩
          exact ⟨hmove, .inl ⟨hfreed, by simp [FreesLate, hpc]⟩⟩
      | freeing rest =>
          cases rest with
          | nil =>
              simp only [hpc] at hstep
              cases hstep
          | cons r rest =>
              simp only [hpc] at hstep
              cases hstep
              exact ⟨hsame _ _, .inr ⟨r, rest, timeout, rfl, rfl, rfl⟩⟩

theorem DeinitInv.step {cfg : Config} {s t : Deinit} {a : DeinitAct}
    (h : DeinitInv s) (hstep : deinitStep cfg s a = some t) :
    DeinitInv t := by
  rcases deinitStep_move h hstep with ⟨hmove, -⟩
  refine ⟨hmove.ending, fun hconf => ?_⟩
  rcases hmove.confirmed hconf with hold | hnew
  · have hend := h.confirmed hold
    rcases hmove.todo with heq | hover
    · rw [heq]
      exact hend
    · exact .inr (hover hend)
  · exact hnew

/-- A task at its end has set the bit. -/
theorem DeinitInv.bitSet {s : Deinit} (h : DeinitInv s)
    (hend : AtEnd s.sys.el.todo) : s.bitSet = true := by
  cases hbit : s.bitSet with
  | true => rfl
  | false =>
      rcases h.ending.goesOn hbit with ⟨op, hop, hgoes⟩
      rcases hend with hend | hend
      · rw [hend] at hop
        rw [List.mem_singleton.1 hop] at hgoes
        cases hgoes
      · rw [hend] at hop
        cases hop

/-- An action is safe exactly when a free comes late enough. -/
theorem safe_step {cfg : Config} {s t : Deinit} {a : DeinitAct}
    (h : DeinitInv s) (hsafe : Safe s)
    (hstep : deinitStep cfg s a = some t) : Safe t ↔ FreesLate s a := by
  rcases deinitStep_move h hstep with
    ⟨hmove, ⟨hfreed, hlate⟩ | ⟨r, rest, timeout, rfl, hpc, rfl⟩⟩
  · refine iff_of_true ?_ hlate
    intro hne
    rw [hfreed] at hne
    rcases hsafe hne with ⟨hbit, htodo⟩
    refine ⟨hmove.bitSet hbit, ?_⟩
    rcases hmove.todo with heq | hover
    · rw [heq, htodo]
    · exact hover (.inr htodo)
  · have hlate : FreesLate s (.deinit timeout) ↔ s.sys.el.todo = [] := by
      simp only [FreesLate, hpc]
      split
      · rename_i hconf
        rcases h.confirmed hconf with hlast | hover
        · simp [hlast]
        · simp [hover]
      · exact Iff.rfl
    rw [hlate]
    constructor
    · intro hsafe'
      exact (hsafe' (by simp)).2
    · intro hover _
      exact ⟨h.bitSet (.inr hover), hover⟩

/-! ## The result -/

def taskTurns (n : Nat) : List DeinitAct :=
  List.replicate n (.sys (.task .go))

def deinitTurns (n : Nat) : List DeinitAct :=
  List.replicate n (.deinit false)

/-- The task comes up, handles `STOP` and `DESTROY` and sets the bit, and
`audio_element_terminate` sees it. -/
def destroyTask : List DeinitAct :=
  startUp.map .sys ++ deinitTurns 4 ++ taskTurns 10 ++ deinitTurns 4 ++
    taskTurns 6 ++ deinitTurns 1

end EspAdf.Ports.AudioElement
