import EspAdf.Ports.WifiService
import EspAdf.Verified.Blocks

/-!
# `wifi_service.c` and `periph_service.c`: destroying the Wi-Fi service

`periph_service_destroy` calls the `service_destroy` of the service before it
frees the name and the handle.  For a Wi-Fi service that is `_wifi_destroy`,
which calls `wifi_service_destroy`; and `wifi_service_destroy`, having freed
the service data, calls `periph_service_destroy`.  So either of them calls the
other without end, and from the second round on works on what the first one
has freed.

A call is a stack of the statements that are to come.  The calls of other
tasks, `wifi_task`, and whatever a fault may bring about interleave with it.
`destroy_never_clean` proves that no destruction returns with everything
released once and nothing used after that.
-/

namespace EspAdf.Ports.WifiDestroy

open EspAdf.Verified
open EspAdf.Ports.WifiService (Serv)

/-! ## Data -/

/-- What is allocated for a service. -/
inductive Block where
  /-- `wifi_service_t`. -/
  | serv
  | wifiServQue
  | syncEvt
  /-- `service_name`. -/
  | serviceName
  /-- `periph_service_impl_t`, the handle. -/
  | impl
  deriving DecidableEq, Repr

def Block.all : List Block := [.serv, .wifiServQue, .syncEvt, .serviceName, .impl]

/-- The statements of the three functions, by what they begin with. -/
inductive Frame where
  /-- `periph_service_destroy`: `impl->service_destroy(handle)`. -/
  | serviceDestroy
  | freeName
  /-- `impl->service_name = NULL` and `impl->task_handle = NULL`. -/
  | clearName
  | freeImpl
  /-- `_wifi_destroy`. -/
  | wifiDestroy
  /-- `wifi_service_destroy`: `periph_service_get_data`. -/
  | getData
  | clearBits
  | sendDestroy
  | waitBits
  | deleteQueue
  | deleteEventGroup
  | freeServ
  /-- `periph_service_destroy(handle)`. -/
  | periphDestroy
  /-- `return ret`. -/
  | returnRet
  deriving DecidableEq, Repr

structure Sys where
  wifi : WifiService.Sys
  /-- What the call has still to do. -/
  stack : List Frame
  /-- `WIFI_TASK_DESTROY_BIT` of `sync_evt`. -/
  destroyBit : Bool
  /-- `wifi_task` has ended. -/
  ended : Bool
  blocks : Blocks Block
  deriving DecidableEq, Repr

/-- The two functions that destroy a service. -/
inductive Call where
  | periphServiceDestroy
  | wifiServiceDestroy
  deriving DecidableEq, Repr

def Call.frame : Call → Frame
  | .periphServiceDestroy => .serviceDestroy
  | .wifiServiceDestroy => .getData

/-- A service, in any state, is destroyed by a call. -/
def start (wifi : WifiService.Sys) (call : Call) : Sys :=
  ⟨wifi, [call.frame], false, false, .empty⟩

/-! ## Steps -/

/-- The statement on top of the stack. -/
def callStep (s : Sys) : Option Sys :=
  match s.stack with
  | [] => none
  | .serviceDestroy :: rest => some { s with
      stack := .wifiDestroy :: .freeName :: rest
      blocks := s.blocks.touchAll [.impl] }
  | .freeName :: rest => some { s with
      stack := .clearName :: rest
      blocks := (s.blocks.touchAll [.impl]).release .serviceName }
  | .clearName :: rest => some { s with
      stack := .freeImpl :: rest
      blocks := s.blocks.touchAll [.impl] }
  | .freeImpl :: rest => some { s with
      stack := rest
      blocks := s.blocks.release .impl }
  | .wifiDestroy :: rest => some { s with stack := .getData :: rest }
  | .getData :: rest => some { s with
      stack := .clearBits :: rest
      blocks := s.blocks.touchAll [.impl] }
  | .clearBits :: rest => some { s with
      stack := .sendDestroy :: rest
      destroyBit := false
      blocks := s.blocks.touchAll [.serv, .syncEvt] }
  | .sendDestroy :: rest => some { s with
      stack := .waitBits :: rest
      wifi := { s.wifi with serv := s.wifi.serv.send .destroy }
      blocks := s.blocks.touchAll [.serv, .wifiServQue] }
  | .waitBits :: rest =>
      if s.destroyBit then some { s with
        stack := .deleteQueue :: rest
        blocks := s.blocks.touchAll [.serv, .syncEvt] }
      else none
  | .deleteQueue :: rest => some { s with
      stack := .deleteEventGroup :: rest
      blocks := (s.blocks.touchAll [.serv]).release .wifiServQue }
  | .deleteEventGroup :: rest => some { s with
      stack := .freeServ :: rest
      blocks := (s.blocks.touchAll [.serv]).release .syncEvt }
  | .freeServ :: rest => some { s with
      stack := .periphDestroy :: rest
      blocks := s.blocks.release .serv }
  | .periphDestroy :: rest => some { s with
      stack := .serviceDestroy :: .returnRet :: rest }
  | .returnRet :: rest => some { s with stack := rest }

/-- What the other functions of the service use. -/
def uses : WifiService.Act → List Block
  | .connect => [.impl, .serv, .wifiServQue]
  | .disconnect => [.impl, .serv, .wifiServQue]
  | .registerSettingHandle => [.impl, .serv]
  | .settingStart _ => [.impl, .serv, .wifiServQue]
  | .settingStop _ => [.impl, .serv, .wifiServQue]
  | .destroy => [.impl, .serv, .wifiServQue]
  | .gotIp => [.impl, .serv, .wifiServQue]
  | .staDisconnected _ => [.impl, .serv, .wifiServQue]
  | .setReason => [.serv]
  | .retryExpires => []
  | .retryConnect => [.impl, .serv, .wifiServQue]
  | .settingExpires => [.impl, .serv, .wifiServQue]
  | .task => [.serv, .wifiServQue]

inductive Act where
  /-- The next statement of the call. -/
  | call
  /-- Another task, a timer, or a message that `wifi_task` handles. -/
  | other (a : WifiService.Act)
  /-- `wifi_task` leaves its loop, and sets the bit. -/
  | taskEnds
  /-- After a fault anything may happen. -/
  | undefined (t : Sys)
  deriving DecidableEq, Repr

def step (s : Sys) : Act → Option Sys
  | .call => callStep s
  | .other a =>
      if a = .task ∧ s.ended then none
      else (WifiService.step s.wifi a).map fun wifi => { s with
        wifi := wifi
        blocks := s.blocks.touchAll (uses a) }
  | .taskEnds =>
      if s.wifi.serv.taskRun = false ∧ s.ended = false then some { s with
        destroyBit := true
        ended := true
        blocks := s.blocks.touchAll [.serv, .syncEvt] }
      else none
  | .undefined t =>
      if s.blocks.faulted then some { t with
        blocks := { t.blocks with faulted := true } }
      else none

def destroyMachine : Machine Sys Act := ⟨step⟩

/-- The call has returned, everything was released once, and nothing was used
after that. -/
def Clean (s : Sys) : Prop := s.stack = [] ∧ s.blocks.Clean Block.all

/-! ## No clean return -/

/-- The statements up to `free(serv)`. -/
def Frame.before : Frame → Bool
  | .serviceDestroy => true
  | .wifiDestroy => true
  | .getData => true
  | .clearBits => true
  | .sendDestroy => true
  | .waitBits => true
  | .deleteQueue => true
  | .deleteEventGroup => true
  | .freeServ => true
  | _ => false

/-- The statements from there to the next use of `serv`. -/
def Frame.behind : Frame → Bool
  | .periphDestroy => true
  | .serviceDestroy => true
  | .wifiDestroy => true
  | .getData => true
  | .clearBits => true
  | _ => false

/-- Without a fault, the call is at a statement before `free(serv)`, or behind
it and before the next use of `serv`. -/
def Rounds (s : Sys) : Prop :=
  s.blocks.faulted = false → ∃ f rest, s.stack = f :: rest ∧
    (if .serv ∈ s.blocks.released then f.behind else f.before) = true

theorem Rounds.start (wifi : WifiService.Sys) (call : Call) :
    Rounds (start wifi call) := by
  intro _
  refine ⟨call.frame, [], rfl, ?_⟩
  cases call
  · rfl
  · rfl

/-- A statement that was reached with `serv` in place keeps it so, `free(serv)`
apart. -/
theorem callStep_before {s t : Sys} {f : Frame} {rest : List Frame}
    (hstack : s.stack = f :: rest) (hf : f.before = true)
    (hserv : .serv ∉ s.blocks.released) (hs : callStep s = some t) :
    ∃ g rest', t.stack = g :: rest' ∧
      (if .serv ∈ t.blocks.released then g.behind else g.before) = true := by
  cases f with
  | freeName => contradiction
  | clearName => contradiction
  | freeImpl => contradiction
  | periphDestroy => contradiction
  | returnRet => contradiction
  | waitBits =>
      simp only [callStep, hstack, Option.ite_none_right_eq_some] at hs
      obtain ⟨-, hs⟩ := hs
      cases hs
      exact ⟨.deleteQueue, rest, rfl, by simp [hserv, Frame.before]⟩
  | freeServ =>
      simp only [callStep, hstack] at hs
      cases hs
      exact ⟨.periphDestroy, rest, rfl, by simp [Frame.behind]⟩
  | _ =>
      simp only [callStep, hstack] at hs
      cases hs
      exact ⟨_, _, rfl, by simp [hserv, Frame.before]⟩

/-- A statement that was reached without `serv` leads to the next use of it,
which faults. -/
theorem callStep_behind {s t : Sys} {f : Frame} {rest : List Frame}
    (hstack : s.stack = f :: rest) (hf : f.behind = true)
    (hserv : .serv ∈ s.blocks.released) (hs : callStep s = some t)
    (hfault : t.blocks.faulted = false) :
    ∃ g rest', t.stack = g :: rest' ∧
      (if .serv ∈ t.blocks.released then g.behind else g.before) = true := by
  cases f with
  | clearBits =>
      simp only [callStep, hstack] at hs
      cases hs
      have hout := (Blocks.faulted_touchAll.1 hfault).2 .serv (by simp)
      exact absurd hserv hout
  | periphDestroy =>
      simp only [callStep, hstack] at hs
      cases hs
      exact ⟨_, _, rfl, by simp [hserv, Frame.behind]⟩
  | serviceDestroy =>
      simp only [callStep, hstack] at hs
      cases hs
      exact ⟨_, _, rfl, by simp [hserv, Frame.behind]⟩
  | wifiDestroy =>
      simp only [callStep, hstack] at hs
      cases hs
      exact ⟨_, _, rfl, by simp [hserv, Frame.behind]⟩
  | getData =>
      simp only [callStep, hstack] at hs
      cases hs
      exact ⟨_, _, rfl, by simp [hserv, Frame.behind]⟩
  | _ => contradiction

/-- A fault is not undone. -/
theorem step_faulted {s t : Sys} {a : Act} (hs : step s a = some t)
    (h : t.blocks.faulted = false) : s.blocks.faulted = false := by
  cases a with
  | call =>
      simp only [step, callStep] at hs
      split at hs
      case h_1 => contradiction
      case h_10 =>
          obtain ⟨-, hs⟩ := Option.ite_none_right_eq_some.1 hs
          cases hs
          exact (Blocks.faulted_touchAll.1 h).1
      all_goals
        cases hs
        first
          | exact h
          | exact (Blocks.faulted_touchAll.1 h).1
          | exact (Blocks.faulted_release.1 h).1
          | exact (Blocks.faulted_touchAll.1 (Blocks.faulted_release.1 h).1).1
  | other a =>
      simp only [step, Option.ite_none_left_eq_some,
        Option.map_eq_some_iff] at hs
      obtain ⟨-, wifi, -, rfl⟩ := hs
      exact (Blocks.faulted_touchAll.1 h).1
  | taskEnds =>
      obtain ⟨-, hs⟩ := Option.ite_none_right_eq_some.1 hs
      cases hs
      exact (Blocks.faulted_touchAll.1 h).1
  | undefined t =>
      obtain ⟨-, hs⟩ := Option.ite_none_right_eq_some.1 hs
      cases hs
      contradiction

theorem Rounds.step {s t : Sys} {a : Act} (h : Rounds s)
    (hs : destroyMachine.step s a = some t) : Rounds t := by
  intro hfault
  obtain ⟨f, rest, hstack, hf⟩ := h (step_faulted hs hfault)
  cases a with
  | call =>
      by_cases hserv : .serv ∈ s.blocks.released
      · rw [if_pos hserv] at hf
        exact callStep_behind hstack hf hserv hs hfault
      · rw [if_neg hserv] at hf
        exact callStep_before hstack hf hserv hs
  | other a =>
      simp only [destroyMachine, WifiDestroy.step,
        Option.ite_none_left_eq_some, Option.map_eq_some_iff] at hs
      obtain ⟨-, wifi, -, rfl⟩ := hs
      exact ⟨f, rest, hstack, hf⟩
  | taskEnds =>
      obtain ⟨-, hs⟩ := Option.ite_none_right_eq_some.1 hs
      cases hs
      exact ⟨f, rest, hstack, hf⟩
  | undefined t =>
      obtain ⟨-, hs⟩ := Option.ite_none_right_eq_some.1 hs
      cases hs
      contradiction

/-- **No destruction of a Wi-Fi service returns cleanly**, whichever of the two
functions is called, in whatever state the service is, and whatever
interleaves. -/
theorem destroy_never_clean (wifi : WifiService.Sys) (call : Call) {s : Sys}
    (h : destroyMachine.Reachable (start wifi call) s) : ¬Clean s := by
  have hrounds : Rounds s :=
    Machine.Reachable.invariant h (Rounds.start wifi call)
      fun _ _ _ hu hs => Rounds.step hu hs
  rintro ⟨hstack, -, hfault⟩
  obtain ⟨f, rest, hcons, -⟩ := hrounds hfault
  rw [hstack] at hcons
  contradiction

/-- The first round of `wifi_service_destroy` on an idle service, up to the
second one. -/
def firstRound : List Act :=
  List.replicate 3 .call ++ [.other .task, .taskEnds] ++ List.replicate 8 .call

/-- It is not the end. -/
theorem destroy_idle_not_clean : ∃ s,
    destroyMachine.run (start WifiService.start .wifiServiceDestroy)
      firstRound = some s ∧ ¬Clean s := by
  have h : (destroyMachine.run (start WifiService.start .wifiServiceDestroy)
      firstRound).isSome := by
    decide +kernel
  obtain ⟨s, hs⟩ := Option.isSome_iff_exists.1 h
  exact ⟨s, hs, destroy_never_clean _ _ (Machine.reachable_of_run hs)⟩

/-- `periph_service_destroy` on an idle service: the second round uses the
service data that the first one has freed, with the name and the handle still
to be released. -/
theorem destroy_idle_faults : ∃ s,
    destroyMachine.run (start WifiService.start .periphServiceDestroy)
      (List.replicate 2 .call ++ firstRound ++ [.call]) = some s ∧
    s.blocks = ⟨[.serv, .syncEvt, .wifiServQue], true⟩ ∧
    s.stack = [.sendDestroy, .freeName, .returnRet, .freeName] ∧
    ¬Clean s := by
  have h : (destroyMachine.run (start WifiService.start .periphServiceDestroy)
      (List.replicate 2 .call ++ firstRound ++ [.call])).map
      (fun s => (s.blocks, s.stack)) =
      some (⟨[.serv, .syncEvt, .wifiServQue], true⟩,
        [.sendDestroy, .freeName, .returnRet, .freeName]) := by
    decide +kernel
  simp only [Option.map_eq_some_iff, Prod.mk.injEq] at h
  obtain ⟨s, hs, hblocks, hstack⟩ := h
  refine ⟨s, hs, hblocks, hstack, ?_⟩
  rintro ⟨hnil, -⟩
  rw [hstack] at hnil
  contradiction

end EspAdf.Ports.WifiDestroy
