import EspAdf.Ports.AudioElement
import EspAdf.Ports.AudioPipeline

/-!
# Starting and stopping a pipeline

`audio_pipeline_run` starts the linked elements and resumes them; it returns
`ESP_OK` at once when the state of the pipeline is not `INIT`.  When resuming
fails, it sets the state to `ERROR` and calls `audio_pipeline_terminate`,
whose `audio_pipeline_wait_for_stop` takes the state back to `INIT` only from
`RUNNING`.  So the pipeline stays in `ERROR`: from then on every run reports
success and starts nothing.

`run_truthful` proves that this is the only way to go wrong.  What the
elements answer comes with the call; the trace records the calls they get.
-/

namespace EspAdf.Ports.AudioPipeline

open EspAdf.Verified
open AudioElement (State)

/-! ## Data -/

/-- A call for an element, or one of a function of the pipeline. -/
inductive Event where
  | elementRun (el : ElHandle)
  | elementResume (el : ElHandle) (err : Int)
  | elementStop (el : ElHandle)
  | elementWaitForStop (el : ElHandle)
  /-- `audio_element_reset_input_ringbuf` and `_output_ringbuf`. -/
  | resetRingbufs (el : ElHandle)
  | elementTerminate (el : ElHandle)
  | waitForStop
  | terminate
  /-- `audio_pipeline_run` returns. -/
  | runReturns (err : Int)
  deriving DecidableEq, Repr

/-- A pipeline with its `state`, and the calls so far. -/
structure Runner where
  pipeline : Pipeline
  state : State
  trace : List Event

/-- What the elements answer during one `audio_pipeline_run`: their states,
and whether the `i`-th `audio_element_resume` succeeds. -/
structure Answers where
  elState : ElHandle → State
  resumes : Nat → Bool

/-! ## The functions -/

def Runner.log (s : Runner) (events : List Event) : Runner :=
  { s with trace := s.trace ++ events }

/-- `STAILQ_FOREACH` with `if (el_item->linked)`. -/
def Runner.forLinked (s : Runner) (f : ElHandle → List Event) : Runner :=
  s.log ((s.pipeline.elList.filter ElItem.linked).flatMap fun item => f item.el)

/-- The value of one `audio_element_resume`. -/
def resumeErr (ok : Bool) : Int := if ok then ESP_OK else ESP_FAIL

/-- The loop of `audio_pipeline_resume`: the value returned, and the calls. -/
def resumeLoop (resumes : Nat → Bool) :
    List ElItem → Nat → Int → Int × List Event
  | [], _, ret => (ret, [])
  | item :: items, i, ret =>
      if item.linked = false then resumeLoop resumes items i ret
      else
        let err := resumeErr (resumes i)
        let (ret', events) := resumeLoop resumes items (i + 1) (ret.lor err)
        (ret', .elementResume item.el err :: events)

/-- `audio_pipeline_resume`. -/
def Runner.resume (s : Runner) (resumes : Nat → Bool) : Runner × Int :=
  let (ret, events) := resumeLoop resumes s.pipeline.elList 0 ESP_OK
  (s.log events, ret)

/-- `audio_pipeline_stop`. -/
def Runner.stop (s : Runner) : Runner × Int :=
  (s.forLinked fun el => [.elementStop el], ESP_OK)

/-- `audio_pipeline_wait_for_stop`. -/
def Runner.waitForStop (s : Runner) : Runner × Int :=
  let s := s.log [.waitForStop]
  if s.state ≠ .running then (s, ESP_FAIL)
  else
    let s := s.forLinked fun el => [.elementWaitForStop el, .resetRingbufs el]
    ({ s with state := .init }, ESP_OK)

/-- `audio_pipeline_terminate`. -/
def Runner.terminate (s : Runner) : Runner × Int :=
  let s := s.log [.terminate]
  let s := s.stop.1
  let s := s.waitForStop.1
  (s.forLinked fun el => [.elementTerminate el], ESP_OK)

/-- The states of an element that `audio_pipeline_run` starts. -/
def startsElement : State → Bool
  | .none => false
  | .init => true
  | .running => false
  | .paused => false
  | .stopped => true
  | .finished => true
  | .error => true

/-- `audio_pipeline_run`, up to its return. -/
def Runner.start (s : Runner) (a : Answers) : Runner × Int :=
  if s.state ≠ .init then (s, ESP_OK)
  else
    let s := s.forLinked fun el =>
      if startsElement (a.elState el) then [.elementRun el] else []
    let (s, ret) := s.resume a.resumes
    if ret = ESP_FAIL then
      ((({ s with state := .error } : Runner).terminate).1, ESP_FAIL)
    else ({ s with state := .running }, ESP_OK)

/-- `audio_pipeline_run`. -/
def Runner.run (s : Runner) (a : Answers) : Runner × Int :=
  let (s, err) := s.start a
  (s.log [.runReturns err], err)

inductive RunCall where
  | run (a : Answers)
  | stop
  | waitForStop
  | terminate

def Runner.exec (s : Runner) : RunCall → Runner × Int
  | .run a => s.run a
  | .stop => s.stop
  | .waitForStop => s.waitForStop
  | .terminate => s.terminate

def runnerMachine : Machine Runner RunCall := ⟨fun s c => some (s.exec c).1⟩

/-- A pipeline that was not run yet. -/
def Runner.of (p : Pipeline) : Runner := ⟨p, .init, []⟩

/-! ## What a truthful run says -/

/-- `audio_pipeline_wait_for_stop` or `audio_pipeline_terminate` is called. -/
def Event.stops : Event → Bool
  | .waitForStop => true
  | .terminate => true
  | _ => false

/-- `audio_element_resume` has returned `ESP_OK`, and nothing stopped the
pipeline since. -/
def ResumedSince (trace : List Event) (el : ElHandle) : Prop :=
  ∃ pre post, trace = pre ++ .elementResume el ESP_OK :: post ∧
    ∀ event ∈ post, event.stops = false

/-- The pipeline is running, and all its linked elements were resumed. -/
structure Truthful (s : Runner) : Prop where
  running : s.state = .running
  resumed : ∀ item ∈ s.pipeline.elList, item.linked = true →
    ResumedSince s.trace item.el

theorem ResumedSince.append {trace events : List Event} {el : ElHandle}
    (h : ResumedSince trace el)
    (hevents : ∀ event ∈ events, event.stops = false) :
    ResumedSince (trace ++ events) el := by
  rcases h with ⟨pre, post, rfl, hpost⟩
  refine ⟨pre, post ++ events, by simp, ?_⟩
  intro event hevent
  rcases List.mem_append.1 hevent with h | h
  · exact hpost event h
  · exact hevents event h

theorem ResumedSince.of_mem {trace events : List Event} {el : ElHandle}
    (h : .elementResume el ESP_OK ∈ events)
    (hevents : ∀ event ∈ events, event.stops = false) :
    ResumedSince (trace ++ events) el := by
  rcases List.append_of_mem h with ⟨pre, post, rfl⟩
  refine ⟨trace ++ pre, post, by simp, fun event hevent => ?_⟩
  exact hevents event (by simp [hevent])

/-! ## The loop of `audio_pipeline_resume` -/

theorem lor_fail (ok : Bool) : ESP_FAIL.lor (resumeErr ok) = ESP_FAIL := by
  cases ok <;> decide +kernel

theorem ok_lor (ok : Bool) : ESP_OK.lor (resumeErr ok) = resumeErr ok := by
  cases ok <;> decide +kernel

/-- Once a resume has failed, so has the whole call. -/
theorem resumeLoop_fail (resumes : Nat → Bool) (items : List ElItem)
    (i : Nat) : (resumeLoop resumes items i ESP_FAIL).1 = ESP_FAIL := by
  induction items generalizing i with
  | nil => rfl
  | cons item items ih =>
      rw [resumeLoop]
      split
      · exact ih i
      · simp only [lor_fail]
        exact ih (i + 1)

/-- Otherwise every linked element was resumed. -/
theorem resumeLoop_ok (resumes : Nat → Bool) (items : List ElItem)
    (i : Nat) (hok : (resumeLoop resumes items i ESP_OK).1 ≠ ESP_FAIL) :
    ∀ item ∈ items, item.linked = true →
      .elementResume item.el ESP_OK ∈
        (resumeLoop resumes items i ESP_OK).2 := by
  induction items generalizing i with
  | nil => exact fun _ h => nomatch h
  | cons first items ih =>
      rw [resumeLoop] at hok ⊢
      intro item hitem hlinked
      split at hok
      · rename_i hskip
        rw [if_pos hskip]
        rcases List.mem_cons.1 hitem with rfl | hitem
        · rw [hskip] at hlinked
          cases hlinked
        · exact ih i hok item hitem hlinked
      · rename_i hskip
        rw [if_neg hskip]
        simp only [ok_lor] at hok ⊢
        cases hres : resumes i with
        | false =>
            rw [hres] at hok
            exact absurd (resumeLoop_fail resumes items (i + 1)) hok
        | true =>
            rw [hres] at hok
            rcases List.mem_cons.1 hitem with rfl | hitem
            · exact List.mem_cons_self
            · exact List.mem_cons_of_mem _
                (ih (i + 1) hok item hitem hlinked)

theorem resumeLoop_events (resumes : Nat → Bool) (items : List ElItem)
    (i : Nat) (ret : Int) :
    ∀ event ∈ (resumeLoop resumes items i ret).2,
      ∃ el err, event = .elementResume el err := by
  induction items generalizing i ret with
  | nil => exact fun _ h => nomatch h
  | cons item items ih =>
      rw [resumeLoop]
      split
      · exact ih i ret
      · intro event hevent
        rcases List.mem_cons.1 hevent with rfl | hevent
        · exact ⟨_, _, rfl⟩
        · exact ih _ _ event hevent

/-! ## What each function does -/

/-- The calls for the elements. -/
def Event.ofElement : Event → Bool
  | .elementRun _ => true
  | .elementResume _ _ => true
  | .elementStop _ => true
  | .elementWaitForStop _ => true
  | .resetRingbufs _ => true
  | .elementTerminate _ => true
  | .waitForStop => false
  | .terminate => false
  | .runReturns _ => false

theorem stops_of_ofElement {event : Event} (h : event.ofElement = true) :
    event.stops = false := by
  cases event <;> first | rfl | cases h

/-- The function leaves the pipeline in the state, and its calls are for the
elements or those that stop the pipeline. -/
structure Does (s t : Runner) (state : State) : Prop where
  pipeline : t.pipeline = s.pipeline
  state : t.state = state
  trace : ∃ events, t.trace = s.trace ++ events ∧
    ∀ err, .runReturns err ∉ events

theorem Does.trans {s t u : Runner} {state state' : State}
    (h : Does s t state) (h' : Does t u state') : Does s u state' := by
  rcases h.trace with ⟨events, htrace, hnot⟩
  rcases h'.trace with ⟨events', htrace', hnot'⟩
  refine ⟨h'.pipeline.trans h.pipeline, h'.state, events ++ events',
    by rw [htrace', htrace, List.append_assoc], fun err hmem => ?_⟩
  rcases List.mem_append.1 hmem with hmem | hmem
  · exact hnot err hmem
  · exact hnot' err hmem

theorem does_log (s : Runner) {events : List Event}
    (h : ∀ err, .runReturns err ∉ events) : Does s (s.log events) s.state :=
  ⟨rfl, rfl, events, rfl, h⟩

/-- A loop over the linked elements. -/
theorem forLinked_trace (s : Runner) {f : ElHandle → List Event}
    (hf : ∀ el, ∀ event ∈ f el, event.ofElement = true) :
    ∃ events, s.forLinked f = s.log events ∧
      ∀ event ∈ events, event.ofElement = true := by
  refine ⟨_, rfl, fun event hevent => ?_⟩
  rcases List.mem_flatMap.1 hevent with ⟨item, -, hin⟩
  exact hf item.el event hin

theorem does_forLinked (s : Runner) {f : ElHandle → List Event}
    (hf : ∀ el, ∀ event ∈ f el, event.ofElement = true) :
    Does s (s.forLinked f) s.state := by
  rcases forLinked_trace s hf with ⟨events, heq, hevents⟩
  rw [heq]
  apply does_log
  intro err hmem
  cases hevents _ hmem

theorem does_stop (s : Runner) : Does s s.stop.1 s.state :=
  does_forLinked s (f := fun el => [.elementStop el]) fun el event hevent => by
    rw [List.mem_singleton.1 hevent]
    rfl

theorem does_waitForStop (s : Runner) : Does s s.waitForStop.1
    (if s.state = .running then .init else s.state) := by
  have hlog := @does_log s [.waitForStop] (by simp)
  rw [Runner.waitForStop]
  by_cases h : s.state = .running
  · have hrunning : ¬(s.log [.waitForStop]).state ≠ .running := not_not.2 h
    rw [if_neg hrunning, if_pos h]
    refine hlog.trans ?_
    have hfor := does_forLinked (s.log [.waitForStop])
      (f := fun el => [.elementWaitForStop el, .resetRingbufs el]) (by
        intro el event hevent
        simp only [List.mem_cons, List.not_mem_nil, or_false] at hevent
        rcases hevent with rfl | rfl <;> rfl)
    exact ⟨hfor.pipeline, rfl, hfor.trace⟩
  · have hother : (s.log [.waitForStop]).state ≠ .running := h
    rw [if_pos hother, if_neg h]
    exact hlog

theorem does_terminate (s : Runner) : Does s s.terminate.1
    (if s.state = .running then .init else s.state) := by
  have hlog := @does_log s [.terminate] (by simp)
  have hstop := hlog.trans (does_stop (s.log [.terminate]))
  have hwait := does_waitForStop (s.log [.terminate]).stop.1
  rw [hstop.state] at hwait
  have hfor := does_forLinked (s.log [.terminate]).stop.1.waitForStop.1
    (f := fun el => [.elementTerminate el]) (by
      intro el event hevent
      rw [List.mem_singleton.1 hevent]
      rfl)
  rw [hwait.state] at hfor
  exact (hstop.trans hwait).trans hfor

/-- What `audio_pipeline_run` does in `INIT`: it starts and resumes the
elements. -/
theorem start_of_init {s : Runner} (h : s.state = .init) (a : Answers) :
    ((s.start a).2 = ESP_OK ∧ (s.start a).1.state = .running ∧
      (s.start a).1.pipeline = s.pipeline ∧
      ∃ events, (s.start a).1.trace = s.trace ++ events ∧
        (∀ event ∈ events, event.ofElement = true) ∧
        ∀ item ∈ s.pipeline.elList, item.linked = true →
          .elementResume item.el ESP_OK ∈ events) ∨
    ((s.start a).2 = ESP_FAIL ∧ Does s (s.start a).1 .error) := by
  rcases forLinked_trace s (f := fun el =>
      if startsElement (a.elState el) then [.elementRun el] else []) (by
        intro el event hevent
        split at hevent
        · rw [List.mem_singleton.1 hevent]
          rfl
        · cases hevent) with ⟨runs, hruns, hrunsOf⟩
  have hevents := resumeLoop_events a.resumes s.pipeline.elList 0 ESP_OK
  have hresumed := resumeLoop_ok a.resumes s.pipeline.elList 0
  rw [Runner.start, if_neg (not_not.2 h)]
  simp only [hruns, Runner.resume]
  rw [show (s.log runs).pipeline = s.pipeline from rfl]
  generalize resumeLoop a.resumes s.pipeline.elList 0 ESP_OK = result
    at hevents hresumed ⊢
  rcases result with ⟨ret, resumes⟩
  have hof : ∀ event ∈ runs ++ resumes, event.ofElement = true := by
    intro event hevent
    rcases List.mem_append.1 hevent with hin | hin
    · exact hrunsOf event hin
    · rcases hevents event hin with ⟨el, err, rfl⟩
      rfl
  simp only at hresumed ⊢
  by_cases hfail : ret = ESP_FAIL
  · right
    rw [if_pos hfail]
    refine ⟨rfl, ?_⟩
    have hlog : Does s ({ (s.log runs).log resumes with state := .error }
        : Runner) .error := by
      refine ⟨rfl, rfl, runs ++ resumes, ?_, ?_⟩
      · show s.trace ++ runs ++ resumes = _
        rw [List.append_assoc]
      · intro err hmem
        cases hof _ hmem
    exact hlog.trans (does_terminate _)
  · left
    rw [if_neg hfail]
    refine ⟨rfl, rfl, rfl, runs ++ resumes, ?_, hof, ?_⟩
    · show s.trace ++ runs ++ resumes = _
      rw [List.append_assoc]
    · intro item hitem hlinked
      exact List.mem_append_right _ (hresumed hfail item hitem hlinked)

/-! ## What holds in every run -/

/-- The pipeline is running only if its elements were resumed, and in `ERROR`
exactly when a run has failed. -/
structure RunnerInv (s : Runner) : Prop where
  states : s.state = .init ∨ s.state = .running ∨ s.state = .error
  resumed : s.state = .running → Truthful s
  failed : s.state = .error ↔ .runReturns ESP_FAIL ∈ s.trace

theorem RunnerInv.of (p : Pipeline) : RunnerInv (.of p) where
  states := .inl rfl
  resumed := fun h => nomatch h
  failed := by
    constructor
    · intro h
      cases h
    · intro h
      cases h

theorem Truthful.log {s : Runner} (h : Truthful s) {events : List Event}
    (hevents : ∀ event ∈ events, event.stops = false) :
    Truthful (s.log events) where
  running := h.running
  resumed := fun item hitem hlinked =>
    (h.resumed item hitem hlinked).append hevents

/-- Functions that leave the pipeline in `INIT` instead of `RUNNING`. -/
theorem RunnerInv.does {s t : Runner} (h : RunnerInv s)
    (hdoes : Does s t (if s.state = .running then .init else s.state)) :
    RunnerInv t := by
  rcases hdoes with ⟨-, hstate, events, htrace, hnot⟩
  have hsame : .runReturns ESP_FAIL ∈ t.trace ↔
      .runReturns ESP_FAIL ∈ s.trace := by
    rw [htrace, List.mem_append]
    exact ⟨fun hor => hor.resolve_right (hnot _), .inl⟩
  rcases h.states with hs | hs | hs
  · rw [if_neg (by simp [hs]), hs] at hstate
    refine ⟨.inl hstate, (fun ht => by rw [hstate] at ht; cases ht), ?_⟩
    rw [hsame, ← h.failed, hstate, hs]
  · rw [if_pos hs] at hstate
    refine ⟨.inl hstate, (fun ht => by rw [hstate] at ht; cases ht), ?_⟩
    rw [hsame, ← h.failed, hstate, hs]
    simp
  · rw [if_neg (by simp [hs]), hs] at hstate
    refine ⟨.inr (.inr hstate), (fun ht => by rw [hstate] at ht; cases ht), ?_⟩
    rw [hsame, ← h.failed, hstate, hs]

theorem RunnerInv.stop {s : Runner} (h : RunnerInv s) :
    RunnerInv s.stop.1 := by
  rcases forLinked_trace s (f := fun el => [.elementStop el]) (by
    intro el event hevent
    rw [List.mem_singleton.1 hevent]
    rfl) with ⟨events, heq, hevents⟩
  rw [show s.stop.1 = s.log events from heq]
  refine ⟨h.states, fun hs => ?_, ?_⟩
  · exact (h.resumed hs).log fun event hevent =>
      stops_of_ofElement (hevents event hevent)
  · show s.state = .error ↔ _ ∈ s.trace ++ events
    rw [h.failed, List.mem_append]
    refine ⟨.inl, fun hor => hor.resolve_right fun hmem => ?_⟩
    cases hevents _ hmem

theorem mem_log {s : Runner} {err : Int} (event : Event) :
    event ∈ (s.log [.runReturns err]).trace ↔
      event ∈ s.trace ∨ event = .runReturns err := by
  rw [Runner.log, List.mem_append, List.mem_singleton]

theorem run_eq (s : Runner) (a : Answers) : s.run a =
    ((s.start a).1.log [.runReturns (s.start a).2], (s.start a).2) := rfl

/-- A run that does not find the pipeline in `INIT` only returns. -/
theorem run_of_started {s : Runner} (h : s.state ≠ .init) (a : Answers) :
    s.run a = (s.log [.runReturns ESP_OK], ESP_OK) := by
  rw [Runner.run, Runner.start, if_pos h]

theorem RunnerInv.run {s : Runner} (h : RunnerInv s) (a : Answers) :
    RunnerInv (s.run a).1 := by
  by_cases hs : s.state = .init
  · have hnot : .runReturns ESP_FAIL ∉ s.trace := by
      rw [← h.failed, hs]
      simp
    rcases start_of_init hs a with
      ⟨herr, hstate, hpipe, events, htrace, hof, hresumed⟩ | ⟨herr, hdoes⟩
    · have hrun : (s.run a).1 = (s.start a).1.log [.runReturns ESP_OK] := by
        rw [run_eq, herr]
      have htruth : Truthful (s.start a).1 := by
        refine ⟨hstate, fun item hitem hlinked => ?_⟩
        rw [hpipe] at hitem
        rw [htrace]
        exact .of_mem (hresumed item hitem hlinked)
          fun event hevent => stops_of_ofElement (hof event hevent)
      rw [hrun]
      refine ⟨.inr (.inl hstate), fun _ => htruth.log (by simp [Event.stops]),
        ?_⟩
      rw [mem_log, htrace]
      refine ⟨fun herror => (by cases hstate.symm.trans herror), ?_⟩
      rintro (hmem | heq)
      · rcases List.mem_append.1 hmem with hmem | hmem
        · exact absurd hmem hnot
        · cases hof _ hmem
      · cases heq
    · have hrun : (s.run a).1 = (s.start a).1.log [.runReturns ESP_FAIL] := by
        rw [run_eq, herr]
      have hstate : (s.run a).1.state = .error := by
        rw [hrun]
        exact hdoes.state
      refine ⟨.inr (.inr hstate),
        (fun ht => by cases hstate.symm.trans ht), fun _ => ?_,
        fun _ => hstate⟩
      rw [hrun, mem_log]
      exact .inr rfl
  · rw [run_of_started hs]
    refine ⟨h.states, fun ht => (h.resumed ht).log (by simp [Event.stops]),
      ?_⟩
    rw [mem_log, ← h.failed]
    refine ⟨.inl, fun hor => hor.resolve_right fun heq => ?_⟩
    cases heq

theorem RunnerInv.of_reachable {p : Pipeline} {s : Runner}
    (hrun : runnerMachine.Reachable (.of p) s) : RunnerInv s := by
  refine hrun.invariant (RunnerInv.of p) ?_
  intro u c v hu hs
  cases hs
  cases c with
  | run a => exact hu.run a
  | stop => exact hu.stop
  | waitForStop => exact hu.does (does_waitForStop u)
  | terminate => exact hu.does (does_terminate u)

/-! ## The result -/

/-- **A run is truthful if and only if none has failed before**: when it
returns `ESP_OK`, the pipeline is running and every linked element was resumed
since the pipeline was last stopped. -/
theorem run_truthful {p : Pipeline} {s : Runner}
    (hrun : runnerMachine.Reachable (.of p) s) {a : Answers}
    (hok : (s.run a).2 = ESP_OK) :
    Truthful (s.run a).1 ↔ .runReturns ESP_FAIL ∉ s.trace := by
  have hinv := RunnerInv.of_reachable hrun
  rw [← hinv.failed]
  constructor
  · intro htruth herror
    have hstarted : s.state ≠ .init := by
      rw [herror]
      simp
    have hstate := htruth.running
    rw [run_of_started hstarted] at hstate
    have hrunning : s.state = .running := hstate
    rw [hrunning] at herror
    cases herror
  · intro hno
    apply (hinv.run a).resumed
    rcases hinv.states with hs | hs | hs
    · rw [run_eq] at hok ⊢
      rcases start_of_init hs a with ⟨-, hstate, -⟩ | ⟨herr, -⟩
      · exact hstate
      · rw [herr] at hok
        cases hok
    · rw [run_of_started (by rw [hs]; simp)]
      exact hs
    · exact absurd hs hno

/-- One linked element. -/
def oneLinked : Pipeline :=
  bare.execAll [.register 0 (some "a") .ok, .link ["a"] fun _ => .ok]

/-- The elements are fresh; the resumes succeed or fail. -/
def answer (ok : Bool) : Answers := ⟨fun _ => .init, fun _ => ok⟩

theorem run_truthful_again :
    Truthful (((Runner.of oneLinked).run (answer true)).1.terminate.1.run
      (answer true)).1 := by
  have hrun : runnerMachine.Reachable (.of oneLinked)
      ((Runner.of oneLinked).run (answer true)).1.terminate.1 :=
    Machine.reachable_iff_run.2 ⟨[.run (answer true), .terminate], rfl⟩
  exact (run_truthful hrun (a := answer true) (by decide +kernel)).2
    (by decide +kernel)

/-- After a failed run and a terminate, the next run reports success in
`ERROR` and calls nothing. -/
theorem run_after_failure :
    ((Runner.of oneLinked).run (answer false)).2 = ESP_FAIL ∧
    (((Runner.of oneLinked).run (answer false)).1.terminate.1.run
      (answer true)).2 = ESP_OK ∧
    (((Runner.of oneLinked).run (answer false)).1.terminate.1.run
      (answer true)).1.state = .error ∧
    (((Runner.of oneLinked).run (answer false)).1.terminate.1.run
      (answer true)).1.trace =
      ((Runner.of oneLinked).run (answer false)).1.terminate.1.trace ++
        [.runReturns ESP_OK] ∧
    ¬Truthful (((Runner.of oneLinked).run (answer false)).1.terminate.1.run
      (answer true)).1 := by
  have hstate : (((Runner.of oneLinked).run (answer false)).1.terminate.1.run
      (answer true)).1.state = .error := by decide +kernel
  refine ⟨by decide +kernel, by decide +kernel, hstate, by decide +kernel,
    fun htruth => ?_⟩
  have hrunning := htruth.running
  rw [hstate] at hrunning
  cases hrunning

end EspAdf.Ports.AudioPipeline
