import EspAdf.Verified.Machine

/-!
# `wifi_service.c`: connecting again after a disconnect of the user

`wifi_task` handles the commands of clients and the state messages that
`wifi_event_cb` sends, from one queue of three.  When the connection breaks
for a reason other than the user's will it starts `retry_timer`, whose
callback sends `WIFI_SERV_CMD_CONNECT` like a client.

`WIFI_SERV_CMD_DISCONNECT` records the reason `WIFI_SERV_STA_BY_USER`, but it
neither stops the timer nor takes back a command that was sent, and
`wifi_event_cb` may overwrite the reason behind it, since it writes it after
sending its message.

Clients, the event task, the timers and `wifi_task` interleave below.
`no_reconnect` proves that after a disconnect of the user nothing connects
before a client asks for it, as long as `wifi_task` finds no retry under way
when it handles the command, and starts none after that.
-/

namespace EspAdf.Ports.WifiService

open EspAdf.Verified

/-! ## Data -/

/-- `wifi_service_disconnect_reason_t`. -/
inductive Reason where
  | unknown
  | authError
  | apNotFound
  | byUser
  deriving DecidableEq, Repr

/-- The reasons of the Wi-Fi stack that `wifi_event_cb` tells apart. -/
inductive StackReason where
  | authExpire
  | fourWayHandshakeTimeout
  | beaconTimeout
  | authFail
  | assocFail
  | handshakeTimeout
  | noApFound
  | other
  deriving DecidableEq, Repr

/-- What `wifi_event_cb` makes of a reason, if anything. -/
def StackReason.reason : StackReason → Option Reason
  | .authExpire => some .authError
  | .fourWayHandshakeTimeout => some .authError
  | .beaconTimeout => some .authError
  | .authFail => some .authError
  | .assocFail => some .authError
  | .handshakeTimeout => some .authError
  | .noApFound => some .apNotFound
  | .other => none

/-- `wifi_task_msg_t`: the commands, and the states that are sent. -/
inductive Msg where
  | connect
  /-- History: how often a client had asked to connect when this was sent. -/
  | disconnect (asked : Nat)
  | settingStart (idx : Int)
  | settingStop (idx : Int)
  | destroy
  | connected
  | disconnected
  | settingTimeout
  deriving DecidableEq, Repr

/-- `wifi_setting_item_t`. -/
structure SettingItem where
  index : Int
  running : Bool
  deriving DecidableEq, Repr

/-- `wifi_service_t`; the timers are running or not. -/
structure Serv where
  que : List Msg
  settingList : List SettingItem
  settingIndex : Int
  reason : Reason
  isSetting : Bool
  retryTimer : Bool
  settingTimer : Bool
  retryTimes : Nat
  retrying : Bool
  taskRun : Bool
  deriving DecidableEq, Repr

structure Sys where
  serv : Serv
  /-- The reason that `wifi_event_cb` has not recorded yet. -/
  event : Option StackReason
  /-- `retry_timer_callback` has been called. -/
  callback : Bool
  /-- History: how often a client has called `wifi_service_connect` or
  `wifi_service_set_sta_info`. -/
  asked : Nat
  /-- History: what the `WIFI_SERV_CMD_DISCONNECT` handled last carried. -/
  left : Option Nat
  deriving DecidableEq, Repr

/-! ## The queue -/

def QUEUE_LEN : Nat := 3

/-- `xQueueSend` without waiting. -/
def Serv.send (serv : Serv) (msg : Msg) : Serv :=
  if serv.que.length < QUEUE_LEN then { serv with que := serv.que ++ [msg] }
  else serv

/-- `wifi_service_register_setting_handle`. -/
def Serv.registerSettingHandle (serv : Serv) : Serv :=
  { serv with
    settingIndex := serv.settingIndex + 1
    settingList := serv.settingList ++ [⟨serv.settingIndex + 1, false⟩] }

/-! ## `wifi_task` -/

/-- The loop of `WIFI_SERV_CMD_SETTING_START`. -/
def startSettings (idx : Int) : List SettingItem → List SettingItem
  | [] => []
  | item :: items =>
      if idx = 0 then { item with running := true } :: startSettings idx items
      else if item.index = idx then { item with running := true } :: items
      else item :: startSettings idx items

/-- `WIFI_SERV_EVENT_CONNECTED`. -/
def Serv.connected (serv : Serv) : Serv :=
  let serv := { serv with
    reason := .unknown
    retryTimes := 0
    retrying := false }
  if serv.isSetting then { serv with
    settingTimer := false
    settingList := serv.settingList.map fun item =>
      { item with running := false } }
  else serv

/-- `WIFI_SERV_EVENT_DISCONNECTED`. -/
def Serv.disconnected (serv : Serv) : Serv :=
  if serv.reason ≠ .byUser ∧ serv.reason ≠ .unknown then
    if serv.retryTimes < 10 then { serv with
      retryTimes := serv.retryTimes + 1
      retrying := true
      retryTimer := true }
    else { serv with retrying := false }
  else serv

/-- `WIFI_SERV_CMD_SETTING_START`. -/
def Serv.settingStart (serv : Serv) (idx : Int) : Serv :=
  { serv with
    reason := .byUser
    retryTimer := if serv.retrying then false else serv.retryTimer
    settingList := startSettings idx serv.settingList
    isSetting := true
    settingTimer := true }

/-- What `wifi_task` does with a message. -/
def Serv.handle (serv : Serv) : Msg → Serv
  | .connect => serv
  | .disconnect _ => { serv with reason := .byUser }
  | .settingStart idx => serv.settingStart idx
  | .settingStop _ => { serv with settingTimer := false, isSetting := false }
  | .destroy => { serv with
      taskRun := false
      settingTimer := false
      retryTimer := false }
  | .connected => serv.connected
  | .disconnected => serv.disconnected
  | .settingTimeout => serv

/-! ## The system -/

inductive Act where
  /-- A client calls `wifi_service_connect` or `wifi_service_set_sta_info`, or
  a wifi setting delivers station info. -/
  | connect
  | disconnect
  | registerSettingHandle
  | settingStart (idx : Int)
  | settingStop (idx : Int)
  | destroy
  /-- `wifi_event_cb` gets `SYSTEM_EVENT_STA_GOT_IP`. -/
  | gotIp
  /-- `wifi_event_cb` gets `SYSTEM_EVENT_STA_DISCONNECTED` and sends. -/
  | staDisconnected (reason : StackReason)
  /-- It records the reason. -/
  | setReason
  /-- The retry timer expires, and its callback is called. -/
  | retryExpires
  /-- The callback sends. -/
  | retryConnect
  | settingExpires
  | task
  deriving DecidableEq, Repr

/-- The reason that the rest of `wifi_event_cb` records. -/
def Serv.record (serv : Serv) (reason : StackReason) : Serv :=
  match reason.reason with
  | some r => { serv with reason := r }
  | none => serv

/-- The last user's disconnect that was handled. -/
def Msg.leaves (left : Option Nat) : Msg → Option Nat
  | .disconnect asked => some asked
  | _ => left

def step (s : Sys) : Act → Option Sys
  | .connect => some { s with
      serv := s.serv.send .connect
      asked := s.asked + 1 }
  | .disconnect => some { s with serv := s.serv.send (.disconnect s.asked) }
  | .registerSettingHandle => some { s with
      serv := s.serv.registerSettingHandle }
  | .settingStart idx => some { s with
      serv := s.serv.send (.settingStart idx) }
  | .settingStop idx => some { s with serv := s.serv.send (.settingStop idx) }
  | .destroy => some { s with serv := s.serv.send .destroy }
  | .gotIp =>
      if s.event.isSome then none
      else some { s with serv := s.serv.send .connected }
  | .staDisconnected reason =>
      if s.event.isSome then none
      else some { s with
        serv := s.serv.send .disconnected
        event := some reason }
  | .setReason =>
      match s.event with
      | none => none
      | some reason => some { s with
          serv := s.serv.record reason
          event := none }
  | .retryExpires =>
      if s.serv.retryTimer = true ∧ s.callback = false then some { s with
        serv := { s.serv with retryTimer := false }
        callback := true }
      else none
  | .retryConnect =>
      if s.callback then some { s with
        serv := s.serv.send .connect
        callback := false }
      else none
  | .settingExpires =>
      if s.serv.settingTimer then some { s with
        serv := { s.serv with settingTimer := false }.send .settingTimeout }
      else none
  | .task =>
      if s.serv.taskRun then
        match s.serv.que with
        | [] => none
        | msg :: rest => some { s with
            serv := { s.serv with que := rest }.handle msg
            left := msg.leaves s.left }
      else none

def wifiMachine : Machine Sys Act := ⟨step⟩

/-- `wifi_task` has begun. -/
def start : Sys :=
  ⟨⟨[], [], 0, .unknown, false, false, false, 0, false, true⟩, none, false, 0,
    none⟩

/-! ## The property and the condition -/

/-- Nobody has asked to connect since the user's disconnect that was handled
last. -/
def Sys.Quiet (s : Sys) : Prop := s.left = some s.asked

instance (s : Sys) : Decidable s.Quiet :=
  inferInstanceAs (Decidable (s.left = some s.asked))

/-- The condition on a step.  A disconnect after which nobody has asked to
connect is handled when no retry is under way; and after that a broken
connection is handled when its reason is still the user's, or unknown. -/
def StepOk (s : Sys) : Act → Prop
  | .task =>
      (s.serv.que.head? = some (.disconnect s.asked) →
        s.serv.retryTimer = false ∧ s.callback = false ∧
          .connect ∉ s.serv.que) ∧
      (s.serv.que.head? = some .disconnected → s.Quiet →
        s.serv.retryTimes < 10 →
          s.serv.reason = .byUser ∨ s.serv.reason = .unknown)
  | _ => True

instance (s : Sys) (a : Act) : Decidable (StepOk s a) :=
  match a with
  | .task => inferInstanceAs (Decidable (_ ∧ _))
  | .connect => inferInstanceAs (Decidable True)
  | .disconnect => inferInstanceAs (Decidable True)
  | .registerSettingHandle => inferInstanceAs (Decidable True)
  | .settingStart _ => inferInstanceAs (Decidable True)
  | .settingStop _ => inferInstanceAs (Decidable True)
  | .destroy => inferInstanceAs (Decidable True)
  | .gotIp => inferInstanceAs (Decidable True)
  | .staDisconnected _ => inferInstanceAs (Decidable True)
  | .setReason => inferInstanceAs (Decidable True)
  | .retryExpires => inferInstanceAs (Decidable True)
  | .retryConnect => inferInstanceAs (Decidable True)
  | .settingExpires => inferInstanceAs (Decidable True)

/-! ## The invariant -/

structure Inv (s : Sys) : Prop where
  left : ∀ k ∈ s.left, k ≤ s.asked
  que : ∀ k, .disconnect k ∈ s.serv.que → k ≤ s.asked
  /-- While nobody has asked, no retry is under way. -/
  quiet : s.Quiet → s.serv.retryTimer = false ∧ s.callback = false ∧
    .connect ∉ s.serv.que

theorem Inv.start : Inv start where
  left := fun _ h => nomatch h
  que := fun _ h => nomatch h
  quiet := fun h => nomatch h

theorem mem_send {serv : Serv} {msg m : Msg} (h : m ∈ (serv.send msg).que) :
    m ∈ serv.que ∨ m = msg := by
  rw [Serv.send] at h
  split at h
  · exact (List.mem_append.1 h).imp_right List.mem_singleton.1
  · exact .inl h

theorem retryTimer_send (serv : Serv) (msg : Msg) :
    (serv.send msg).retryTimer = serv.retryTimer := by
  rw [Serv.send]
  split <;> rfl

/-- A disconnect carries no more than has been asked when it is sent. -/
theorem Inv.que_send {s : Sys} (h : Inv s) {msg : Msg}
    (hasked : ∀ k, msg = .disconnect k → k ≤ s.asked) (k : Nat)
    (hk : .disconnect k ∈ (s.serv.send msg).que) : k ≤ s.asked := by
  rcases mem_send hk with hold | hnew
  · exact h.que k hold
  · exact hasked k hnew.symm

theorem Inv.que_send_connect {s : Sys} (h : Inv s) (k : Nat)
    (hk : .disconnect k ∈ (s.serv.send .connect).que) : k ≤ s.asked := by
  refine h.que_send ?_ k hk
  intro j hj
  cases hj

/-- A retry is under way only if somebody has asked. -/
theorem Inv.not_quiet_of_timer {s : Sys} (h : Inv s)
    (htimer : s.serv.retryTimer = true) : ¬ s.Quiet := by
  intro hq
  have hstopped := (h.quiet hq).1
  rw [htimer] at hstopped
  cases hstopped

theorem Inv.not_quiet_of_callback {s : Sys} (h : Inv s)
    (hcallback : s.callback = true) : ¬ s.Quiet := by
  intro hq
  have hnone := (h.quiet hq).2.1
  rw [hcallback] at hnone
  cases hnone

/-- Sending anything but a command to connect. -/
theorem Inv.send {s : Sys} (h : Inv s) {msg : Msg} (hconnect : msg ≠ .connect)
    (hasked : ∀ k, msg = .disconnect k → k ≤ s.asked) :
    Inv { s with serv := s.serv.send msg } where
  left := h.left
  que := h.que_send hasked
  quiet := by
    intro hq
    rcases h.quiet hq with ⟨htimer, hcallback, hque⟩
    refine ⟨(retryTimer_send _ _).trans htimer, hcallback, fun hin => ?_⟩
    rcases mem_send hin with hold | hnew
    · exact hque hold
    · exact hconnect hnew.symm

/-- A client asks to connect. -/
theorem Inv.connect {s : Sys} (h : Inv s) :
    Inv { s with serv := s.serv.send .connect, asked := s.asked + 1 } where
  left := fun k hk => Nat.le_succ_of_le (h.left k hk)
  que := by
    intro k hk
    exact Nat.le_succ_of_le (h.que_send_connect k hk)
  quiet := by
    intro hq
    have hle := h.left _ hq
    exact absurd hle (Nat.not_succ_le_self s.asked)

/-- Steps that change neither the queue nor the timer. -/
theorem Inv.keep {s : Sys} (h : Inv s) {serv : Serv}
    (hque : serv.que = s.serv.que)
    (htimer : serv.retryTimer = s.serv.retryTimer)
    (event : Option StackReason) :
    Inv { s with serv := serv, event := event } where
  left := h.left
  que := fun k hk => h.que k (hque ▸ hk)
  quiet := by
    intro hq
    rcases h.quiet hq with ⟨hretry, hcallback, hconnect⟩
    refine ⟨htimer.trans hretry, hcallback, ?_⟩
    rw [hque]
    exact hconnect

theorem record_same (serv : Serv) (reason : StackReason) :
    (serv.record reason).que = serv.que ∧
      (serv.record reason).retryTimer = serv.retryTimer := by
  rw [Serv.record]
  split <;> exact ⟨rfl, rfl⟩

/-- No message changes the queue. -/
theorem handle_que (serv : Serv) (msg : Msg) :
    (serv.handle msg).que = serv.que := by
  cases msg with
  | connected =>
      rw [Serv.handle, Serv.connected]
      dsimp only
      split <;> rfl
  | disconnected =>
      rw [Serv.handle, Serv.disconnected]
      split
      · split <;> rfl
      · rfl
  | _ => rfl

/-- Only a broken connection starts the retry timer, and not if its reason is
the user's, or unknown. -/
theorem handle_retryTimer {serv : Serv} {msg : Msg}
    (h : serv.retryTimer = false)
    (hok : msg = .disconnected → serv.retryTimes < 10 →
      serv.reason = .byUser ∨ serv.reason = .unknown) :
    (serv.handle msg).retryTimer = false := by
  cases msg with
  | connected =>
      rw [Serv.handle, Serv.connected]
      dsimp only
      split <;> exact h
  | disconnected =>
      rw [Serv.handle, Serv.disconnected]
      split
      · rename_i hreason
        split
        · rename_i htimes
          rcases hok rfl htimes with huser | hunknown
          · exact absurd huser hreason.1
          · exact absurd hunknown hreason.2
        · exact h
      · exact h
  | settingStart idx =>
      rw [Serv.handle, Serv.settingStart]
      dsimp only
      split
      · rfl
      · exact h
  | destroy => rfl
  | connect => exact h
  | disconnect asked => exact h
  | settingStop idx => exact h
  | settingTimeout => exact h

/-- When a message has been handled and nobody has asked, either it is the
user's disconnect, or that was handled before. -/
theorem Inv.quiet_taken {s : Sys} (h : Inv s) (hok : StepOk s .task) {msg : Msg}
    {rest : List Msg} (hque : s.serv.que = msg :: rest)
    (hq : msg.leaves s.left = some s.asked) :
    s.serv.retryTimer = false ∧ s.callback = false ∧ .connect ∉ rest := by
  have hbefore : s.serv.retryTimer = false ∧ s.callback = false ∧
      .connect ∉ s.serv.que := by
    cases msg with
    | disconnect asked =>
        have heq : asked = s.asked := Option.some.inj hq
        refine hok.1 ?_
        rw [hque, heq]
        rfl
    | _ => exact h.quiet hq
  rcases hbefore with ⟨htimer, hcallback, hconnect⟩
  rw [hque] at hconnect
  exact ⟨htimer, hcallback, fun hin => hconnect (List.mem_cons_of_mem _ hin)⟩

/-- `wifi_task` handles a message. -/
theorem Inv.task {s t : Sys} (h : Inv s) (hok : StepOk s .task)
    (hs : step s .task = some t) : Inv t := by
  simp only [step] at hs
  split at hs
  · cases hque : s.serv.que with
    | nil => simp only [hque, reduceCtorEq] at hs
    | cons msg rest =>
        simp only [hque, Option.some.injEq] at hs
        subst hs
        refine ⟨fun k hk => ?_, fun k hk => ?_, fun hq => ?_⟩
        · cases msg with
          | disconnect asked =>
              cases hk
              exact h.que _ (by rw [hque]; exact List.mem_cons_self)
          | _ => exact h.left k hk
        · rw [handle_que] at hk
          exact h.que k (by rw [hque]; exact List.mem_cons_of_mem msg hk)
        · rcases h.quiet_taken hok hque hq with ⟨htimer, hcallback, hconnect⟩
          refine ⟨handle_retryTimer htimer ?_, hcallback, ?_⟩
          · rintro rfl
            exact hok.2 (by rw [hque]; rfl) hq
          · rw [handle_que]
            exact hconnect
  · cases hs

theorem Inv.step {s t : Sys} {a : Act} (h : Inv s) (hok : StepOk s a)
    (hs : WifiService.step s a = some t) : Inv t := by
  cases a with
  | connect =>
      cases hs
      exact h.connect
  | disconnect =>
      cases hs
      refine h.send (fun h => nomatch h) fun k hk => ?_
      cases hk
      exact Nat.le_refl _
  | registerSettingHandle =>
      cases hs
      exact ⟨h.left, h.que, h.quiet⟩
  | settingStart idx =>
      cases hs
      exact h.send (fun h => nomatch h) fun _ h => nomatch h
  | settingStop idx =>
      cases hs
      exact h.send (fun h => nomatch h) fun _ h => nomatch h
  | destroy =>
      cases hs
      exact h.send (by decide) fun _ h => nomatch h
  | gotIp =>
      simp only [WifiService.step] at hs
      split at hs
      · cases hs
      · cases hs
        exact h.send (by decide) fun _ h => nomatch h
  | staDisconnected reason =>
      simp only [WifiService.step] at hs
      split at hs
      · cases hs
      · cases hs
        have hsent : Inv { s with serv := s.serv.send .disconnected } :=
          h.send (by decide) fun _ h => nomatch h
        exact hsent.keep rfl rfl (some reason)
  | setReason =>
      cases hevent : s.event with
      | none => simp only [WifiService.step, hevent, reduceCtorEq] at hs
      | some reason =>
          simp only [WifiService.step, hevent, Option.some.injEq] at hs
          subst hs
          have hsame := record_same s.serv reason
          exact h.keep hsame.1 hsame.2 none
  | retryExpires =>
      simp only [WifiService.step] at hs
      split at hs
      · rename_i hexpires
        cases hs
        have hasked := h.not_quiet_of_timer hexpires.1
        exact ⟨h.left, h.que, fun hq => absurd hq hasked⟩
      · cases hs
  | retryConnect =>
      simp only [WifiService.step] at hs
      split at hs
      · rename_i hcallback
        cases hs
        have hasked := h.not_quiet_of_callback hcallback
        have hque := h.que_send_connect
        exact ⟨h.left, hque, fun hq => absurd hq hasked⟩
      · cases hs
  | settingExpires =>
      simp only [WifiService.step] at hs
      split at hs
      · cases hs
        have hstopped : Inv { s with
            serv := { s.serv with settingTimer := false } } :=
          ⟨h.left, h.que, h.quiet⟩
        exact hstopped.send (by decide) fun _ h => nomatch h
      · cases hs
  | task => exact h.task hok hs

/-- **No reconnect after a disconnect of the user**: in every run whose steps
meet the condition, a command to connect is handled only if a client has
asked for it since the disconnect that was handled last. -/
theorem no_reconnect {s : Sys} (h : wifiMachine.Reaches StepOk start s) :
    s.serv.que.head? = some .connect →
      ∀ asked ∈ s.left, asked < s.asked := by
  intro hhead asked hleft
  have hinv : Inv s := h.invariant Inv.start
    fun _ _ _ hu hok hs => hu.step hok hs
  refine Nat.lt_of_le_of_ne (hinv.left asked hleft) ?_
  rintro rfl
  exact (hinv.quiet hleft).2.2 (List.mem_of_mem_head? hhead)

/-! ## Two runs -/

/-- A client connects, and disconnects again. -/
def session : List Act := [.connect, .task, .disconnect, .task]

/-- The Wi-Fi stack reports that the connection is closed, and the client
connects once more. -/
theorem reconnect_asked : ∃ s, wifiMachine.run start
      (session ++ [.staDisconnected .other, .setReason, .task, .connect]) =
      some s ∧ s.serv.que.head? = some .connect ∧
    ∀ asked ∈ s.left, asked < s.asked := by
  have h : (wifiMachine.runIf StepOk start
      (session ++ [.staDisconnected .other, .setReason, .task,
        .connect])).map (fun s => s.serv.que) = some [.connect] := by
    decide +kernel
  rcases Option.map_eq_some_iff.1 h with ⟨s, hs, hque⟩
  have hhead : s.serv.que.head? = some .connect := by
    rw [hque]
    rfl
  exact ⟨s, (Machine.meets_of_runIf hs).1, hhead,
    no_reconnect (Machine.reaches_of_runIf hs) hhead⟩

/-- The authentication fails and the retry timer is started; the client
disconnects, and the timer expires: `wifi_task` is about to connect. -/
theorem reconnect_unasked : ∃ s, wifiMachine.run start
      ([.connect, .task, .staDisconnected .authFail, .setReason, .task,
        .disconnect, .task, .retryExpires, .retryConnect]) = some s ∧
    s.serv.taskRun = true ∧ s.serv.que.head? = some .connect ∧
    s.left = some 1 ∧ s.asked = 1 := by
  have h : (wifiMachine.run start
      ([.connect, .task, .staDisconnected .authFail, .setReason, .task,
        .disconnect, .task, .retryExpires, .retryConnect])).map (fun s =>
        (s.serv.taskRun, s.serv.que.head?, s.left, s.asked)) =
      some (true, some .connect, some 1, 1) := by
    decide +kernel
  simp only [Option.map_eq_some_iff, Prod.mk.injEq] at h
  exact h

end EspAdf.Ports.WifiService
