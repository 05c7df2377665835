import EspAdf.Verified.Machine

/-!
# `bt_keycontrol.c` and `bluetooth_service.c`: key transactions

A request to press a key sends a PRESSED command, and the response to it sends
the RELEASED command with the next label.  Requests, responses, and the expiry
of the key timer arrive in any order.  `periph_bluetooth_passthrough_cmd` moves
its label on by two with every request, also with those that
`bt_key_act_state_machine` drops.

The history keeps the transaction that the commands sent have opened, and those
that the timer has ended.  `key_transactions` proves for every step of every
run that the commands form transactions, and that no response with a label of a
transaction that timed out is accepted within the next seven requests.
-/

namespace EspAdf.Ports.BtKeyControl

open EspAdf.Verified

/-! ## `bt_keycontrol.c` -/

/-- `key_act_state_t`. -/
inductive KeyActState where
  | idle
  | press
  | release
  deriving DecidableEq, Repr

/-- The events that `bt_key_act_state_machine` tells apart. -/
inductive Evt where
  /-- `ESP_AVRC_CT_KEY_STATE_CHG_EVT`. -/
  | keyStateChg
  /-- `ESP_AVRC_CT_PASSTHROUGH_RSP_EVT`. -/
  | passthroughRsp
  /-- `ESP_AVRC_CT_PT_RSP_TO_EVT`. -/
  | ptRspTo
  deriving DecidableEq, Repr

/-- `ESP_AVRC_PT_CMD_STATE_PRESSED`. -/
def PRESSED : Nat := 0

/-- `ESP_AVRC_PT_CMD_STATE_RELEASED`. -/
def RELEASED : Nat := 1

/-- `bt_key_act_param_t`. -/
structure Param where
  evt : Evt
  keyCode : Nat
  keyState : Nat
  tl : Nat
  deriving DecidableEq, Repr

/-- `key_act_cb_t`, less its timer. -/
structure KeyCb where
  state : KeyActState
  keyCode : Nat
  tl : Nat
  deriving DecidableEq, Repr

/-- `esp_avrc_ct_send_passthrough_cmd(tl, key_code, key_state)`. -/
structure Command where
  tl : Nat
  keyCode : Nat
  keyState : Nat
  deriving DecidableEq, Repr

/-- `key_act_state_hdl_idle`. -/
def keyActStateHdlIdle (keyCb : KeyCb) (param : Param) :
    KeyCb × List Command :=
  if param.evt = .keyStateChg then
    (⟨.press, param.keyCode, param.tl⟩, [⟨param.tl, param.keyCode, PRESSED⟩])
  else (keyCb, [])

/-- `key_act_state_hdl_press`. -/
def keyActStateHdlPress (keyCb : KeyCb) (param : Param) :
    KeyCb × List Command :=
  if param.evt = .passthroughRsp then
    if keyCb.tl ≠ param.tl ∨ keyCb.keyCode ≠ param.keyCode ∨
        PRESSED ≠ param.keyState then (keyCb, [])
    else
      let tl := (keyCb.tl + 1) &&& 0x0F
      ({ keyCb with state := .release, tl := tl },
        [⟨tl, param.keyCode, RELEASED⟩])
  else if param.evt = .ptRspTo then (⟨.idle, 0, 0⟩, [])
  else (keyCb, [])

/-- `key_act_state_hdl_release`. -/
def keyActStateHdlRelease (keyCb : KeyCb) (param : Param) :
    KeyCb × List Command :=
  if param.evt = .passthroughRsp then
    if keyCb.tl ≠ param.tl ∨ keyCb.keyCode ≠ param.keyCode ∨
        RELEASED ≠ param.keyState then (keyCb, [])
    else ({ keyCb with state := .idle, keyCode := 0 }, [])
  else if param.evt = .ptRspTo then (⟨.idle, 0, 0⟩, [])
  else (keyCb, [])

/-- `bt_key_act_state_machine`: the control block and the commands sent. -/
def btKeyActStateMachine (keyCb : KeyCb) (param : Param) :
    KeyCb × List Command :=
  match keyCb.state with
  | .idle => keyActStateHdlIdle keyCb param
  | .press => keyActStateHdlPress keyCb param
  | .release => keyActStateHdlRelease keyCb param

/-! ## `bluetooth_service.c` -/

/-- What arrives. -/
inductive Act where
  /-- `periph_bluetooth_passthrough_cmd`. -/
  | passthroughCmd (cmd : Nat)
  /-- `bt_avrc_ct_cb` gets a response. -/
  | response (tl keyCode keyState : Nat)
  /-- `key_act_time_out`. -/
  | timeOut
  deriving DecidableEq, Repr

/-- A transaction, as the commands show it. -/
structure Transaction where
  /-- How many requests with a connection there were before it. -/
  request : Nat
  tl : Nat
  keyCode : Nat
  /-- The RELEASED command was sent. -/
  released : Bool
  deriving DecidableEq, Repr

structure Sys where
  avrcConnected : Bool
  /-- `g_bt_service->tl`. -/
  tl : Nat
  keyCb : KeyCb
  /-- History: the requests with a connection. -/
  requests : Nat
  /-- History: the transaction that is open. -/
  current : Option Transaction
  /-- History: the transactions that the timer ended. -/
  late : List Transaction
  deriving DecidableEq, Repr

/-- After `bt_key_act_sm_init`. -/
def start (avrcConnected : Bool) (tl : Nat) : Sys :=
  ⟨avrcConnected, tl, ⟨.idle, 0, 0⟩, 0, none, []⟩

/-- What `bt_key_act_state_machine` is called with, if it is. -/
def param (s : Sys) : Act → Option Param
  | .passthroughCmd cmd =>
      if s.avrcConnected then some ⟨.keyStateChg, cmd, 0, s.tl &&& 0x0F⟩
      else none
  | .response tl keyCode keyState =>
      if s.avrcConnected then some ⟨.passthroughRsp, keyCode, keyState, tl⟩
      else none
  | .timeOut => some ⟨.ptRspTo, 0, 0, 0⟩

/-- The control block behind a step, and the commands that it sends. -/
def react (s : Sys) (a : Act) : KeyCb × List Command :=
  match param s a with
  | none => (s.keyCb, [])
  | some p => btKeyActStateMachine s.keyCb p

/-! ## The history -/

/-- The response to the PRESSED command of a transaction. -/
def Transaction.AnswersPressed (tr : Transaction) (a : Act) : Prop :=
  a = .response tr.tl tr.keyCode PRESSED

/-- The response to its RELEASED command. -/
def Transaction.AnswersReleased (tr : Transaction) (a : Act) : Prop :=
  a = .response ((tr.tl + 1) % 16) tr.keyCode RELEASED

instance (tr : Transaction) (a : Act) : Decidable (tr.AnswersPressed a) :=
  inferInstanceAs (Decidable (_ = _))

instance (tr : Transaction) (a : Act) : Decidable (tr.AnswersReleased a) :=
  inferInstanceAs (Decidable (_ = _))

/-- A PRESSED command opens a transaction, a RELEASED command goes on with it,
the response to that ends it, and so does the timer. -/
def nextCurrent (requests : Nat) (current : Option Transaction) (a : Act) :
    List Command → Option Transaction
  | c :: _ =>
      if c.keyState = PRESSED then some ⟨requests, c.tl, c.keyCode, false⟩
      else current.map fun tr => { tr with released := true }
  | [] =>
      match a with
      | .passthroughCmd _ => current
      | .response _ _ _ =>
          current.filter fun tr =>
            !(tr.released && decide (tr.AnswersReleased a))
      | .timeOut => none

def step (s : Sys) (a : Act) : Sys :=
  { s with
    tl := match a with
      | .passthroughCmd _ =>
          if s.avrcConnected then (s.tl + 2) &&& 0x0F else s.tl
      | _ => s.tl
    keyCb := (react s a).1
    requests := match a with
      | .passthroughCmd _ =>
          if s.avrcConnected then s.requests + 1 else s.requests
      | _ => s.requests
    current := nextCurrent s.requests s.current a (react s a).2
    late := match a with
      | .timeOut => s.current.toList ++ s.late
      | _ => s.late }

def keyMachine : Machine Sys Act := ⟨fun s a => some (step s a)⟩

/-! ## The property -/

/-- What a step does respects the transactions. -/
structure Transacts (s : Sys) (a : Act) : Prop where
  /-- A step sends one command at most. -/
  one : (react s a).2.length ≤ 1
  /-- PRESSED is sent only when no transaction is open. -/
  pressed : ∀ c ∈ (react s a).2, c.keyState = PRESSED → s.current = none
  /-- Anything else that is sent is RELEASED, the first one of the open
  transaction, upon the response to its PRESSED command, with its key and the
  next label. -/
  released : ∀ c ∈ (react s a).2, c.keyState ≠ PRESSED →
    ∃ tr, s.current = some tr ∧ tr.released = false ∧ tr.AnswersPressed a ∧
      c = ⟨(tr.tl + 1) % 16, tr.keyCode, RELEASED⟩
  /-- A request while a transaction is open is dropped. -/
  dropped : ∀ cmd, a = .passthroughCmd cmd → s.current.isSome →
    react s a = (s.keyCb, []) ∧ (step s a).current = s.current
  /-- A response that is accepted answers the open transaction, and has no
  label of one that timed out less than eight requests earlier. -/
  accepted : ∀ tl keyCode keyState, a = .response tl keyCode keyState →
    (react s a).1 ≠ s.keyCb → ∃ cur, s.current = some cur ∧
      (cur.AnswersPressed a ∨ cur.AnswersReleased a) ∧
      ∀ tr ∈ s.late, cur.request < tr.request + 8 →
        tl ≠ tr.tl ∧ tl ≠ (tr.tl + 1) % 16

/-! ## The invariant -/

/-- `x & 0x0F`. -/
theorem and_0x0F (x : Nat) : x &&& 0x0F = x % 16 :=
  Nat.and_two_pow_sub_one_eq_mod x 4

/-- The control block by the open transaction. -/
def Holds (keyCb : KeyCb) : Option Transaction → Prop
  | none => keyCb.state = .idle
  | some tr =>
      keyCb.keyCode = tr.keyCode ∧
        if tr.released then
          keyCb.state = .release ∧ keyCb.tl = (tr.tl + 1) % 16
        else keyCb.state = .press ∧ keyCb.tl = tr.tl

/-- The label of a transaction by its place among the requests; `tl` is the
label of the first one. -/
def Labelled (tl : Nat) (tr : Transaction) : Prop :=
  tr.tl = (tl + 2 * tr.request) % 16

structure Inv (tl : Nat) (s : Sys) : Prop where
  holds : Holds s.keyCb s.current
  connected : s.avrcConnected = false → s.current = none
  label : s.tl % 16 = (tl + 2 * s.requests) % 16
  current : ∀ tr ∈ s.current, Labelled tl tr ∧ tr.request < s.requests
  late : ∀ tr ∈ s.late, Labelled tl tr ∧ tr.request < s.requests
  /-- The open transaction began behind those that timed out. -/
  behind : ∀ cur ∈ s.current, ∀ tr ∈ s.late, tr.request < cur.request

theorem Inv.start (avrcConnected : Bool) (tl : Nat) :
    Inv tl (start avrcConnected tl) where
  holds := rfl
  connected := fun _ => rfl
  label := rfl
  current := nofun
  late := nofun
  behind := nofun

/-- Labels of transactions that begin less than eight requests apart
differ. -/
theorem labels_differ {tl : Nat} {tr cur : Transaction}
    (htr : Labelled tl tr) (hcur : Labelled tl cur)
    (hlt : tr.request < cur.request) (hnear : cur.request < tr.request + 8) :
    cur.tl ≠ tr.tl ∧ cur.tl ≠ (tr.tl + 1) % 16 ∧
      (cur.tl + 1) % 16 ≠ tr.tl ∧ (cur.tl + 1) % 16 ≠ (tr.tl + 1) % 16 := by
  unfold Labelled at htr hcur
  omega

/-! ## What a step does -/

/-- Everything that `react` can do, by the open transaction. -/
inductive Reacts (s : Sys) : Act → KeyCb → List Command → Prop where
  | opens (cmd : Nat) (hnone : s.current = none)
      (hconnected : s.avrcConnected = true) :
      Reacts s (.passthroughCmd cmd) ⟨.press, cmd, s.tl % 16⟩
        [⟨s.tl % 16, cmd, PRESSED⟩]
  | dropped (cmd : Nat) (hopen : s.avrcConnected = true → s.current.isSome) :
      Reacts s (.passthroughCmd cmd) s.keyCb []
  | pressed (tr : Transaction) (hcur : s.current = some tr)
      (hreleased : tr.released = false) :
      Reacts s (.response tr.tl tr.keyCode PRESSED)
        ⟨.release, tr.keyCode, (tr.tl + 1) % 16⟩
        [⟨(tr.tl + 1) % 16, tr.keyCode, RELEASED⟩]
  | released (tr : Transaction) (hcur : s.current = some tr)
      (hreleased : tr.released = true) :
      Reacts s (.response ((tr.tl + 1) % 16) tr.keyCode RELEASED)
        ⟨.idle, 0, (tr.tl + 1) % 16⟩ []
  | ignored (tl keyCode keyState : Nat)
      (hother : ∀ tr, s.current = some tr → tr.released = true →
        ¬tr.AnswersReleased (.response tl keyCode keyState)) :
      Reacts s (.response tl keyCode keyState) s.keyCb []
  | timedOut (tr : Transaction) (hcur : s.current = some tr) :
      Reacts s .timeOut ⟨.idle, 0, 0⟩ []
  | quiet (hnone : s.current = none) : Reacts s .timeOut s.keyCb []

theorem reacts_passthroughCmd {tl : Nat} {s : Sys} (h : Inv tl s) (cmd : Nat) :
    Reacts s (.passthroughCmd cmd) (react s (.passthroughCmd cmd)).1
      (react s (.passthroughCmd cmd)).2 := by
  have hholds := h.holds
  cases hconnected : s.avrcConnected with
  | false =>
      simp only [react, param, hconnected]
      exact .dropped cmd (by simp [hconnected])
  | true =>
      simp only [react, param, hconnected, btKeyActStateMachine, and_0x0F]
      cases hcur : s.current with
      | none =>
          rw [hcur] at hholds
          rw [show s.keyCb.state = .idle from hholds]
          exact .opens cmd hcur hconnected
      | some tr =>
          rw [hcur] at hholds
          obtain ⟨-, hstate⟩ := hholds
          have hdropped := Reacts.dropped cmd fun _ : s.avrcConnected = true =>
            (by rw [hcur]; rfl : s.current.isSome)
          split at hstate
          · rw [hstate.1]
            exact hdropped
          · rw [hstate.1]
            exact hdropped

theorem reacts_timeOut {tl : Nat} {s : Sys} (h : Inv tl s) :
    Reacts s .timeOut (react s .timeOut).1 (react s .timeOut).2 := by
  have hholds := h.holds
  simp only [react, param, btKeyActStateMachine]
  cases hcur : s.current with
  | none =>
      rw [hcur] at hholds
      rw [show s.keyCb.state = .idle from hholds]
      exact .quiet hcur
  | some tr =>
      rw [hcur] at hholds
      obtain ⟨-, hstate⟩ := hholds
      split at hstate
      · rw [hstate.1]
        exact .timedOut tr hcur
      · rw [hstate.1]
        exact .timedOut tr hcur

theorem reacts_response {tl : Nat} {s : Sys} (h : Inv tl s)
    (label keyCode keyState : Nat) :
    Reacts s (.response label keyCode keyState)
      (react s (.response label keyCode keyState)).1
      (react s (.response label keyCode keyState)).2 := by
  have hholds := h.holds
  cases hconnected : s.avrcConnected with
  | false =>
      have hnone := h.connected hconnected
      simp only [react, param, hconnected]
      exact .ignored label keyCode keyState (by simp [hnone])
  | true =>
      simp only [react, param, hconnected, btKeyActStateMachine]
      cases hcur : s.current with
      | none =>
          rw [hcur] at hholds
          rw [show s.keyCb.state = .idle from hholds]
          exact .ignored label keyCode keyState (by simp [hcur])
      | some tr =>
          rw [hcur] at hholds
          obtain ⟨hkey, hstate⟩ := hholds
          cases hreleased : tr.released with
          | false =>
              simp only [hreleased, Bool.false_eq_true, if_false] at hstate
              rw [hstate.1]
              simp only [keyActStateHdlPress, hkey, hstate.2, and_0x0F, if_true]
              by_cases hans : tr.tl ≠ label ∨ tr.keyCode ≠ keyCode ∨
                  PRESSED ≠ keyState
              · rw [if_pos hans]
                refine .ignored label keyCode keyState fun tr' htr' hrel => ?_
                rw [hcur, Option.some.injEq] at htr'
                rw [← htr', hreleased] at hrel
                contradiction
              · rw [if_neg hans]
                simp only [not_or, not_not] at hans
                obtain ⟨rfl, rfl, rfl⟩ := hans
                exact .pressed tr hcur hreleased
          | true =>
              simp only [hreleased, if_true] at hstate
              rw [hstate.1]
              simp only [keyActStateHdlRelease, hkey, hstate.2, if_true]
              by_cases hans : (tr.tl + 1) % 16 ≠ label ∨
                  tr.keyCode ≠ keyCode ∨ RELEASED ≠ keyState
              · rw [if_pos hans]
                refine .ignored label keyCode keyState fun tr' htr' _ heq => ?_
                rw [hcur, Option.some.injEq] at htr'
                rw [← htr'] at heq
                obtain ⟨rfl, rfl, rfl⟩ := Act.response.inj heq
                simp at hans
              · rw [if_neg hans]
                simp only [not_or, not_not] at hans
                obtain ⟨rfl, rfl, rfl⟩ := hans
                exact .released tr hcur hreleased

theorem reacts {tl : Nat} {s : Sys} (h : Inv tl s) (a : Act) :
    Reacts s a (react s a).1 (react s a).2 := by
  cases a with
  | passthroughCmd cmd => exact reacts_passthroughCmd h cmd
  | response label keyCode keyState =>
      exact reacts_response h label keyCode keyState
  | timeOut => exact reacts_timeOut h

/-! ## Every run -/

section Steps

variable {tl : Nat} {s : Sys} {a : Act} {keyCb : KeyCb} {cs : List Command}

/-- The control block and the open transaction stay together. -/
theorem Reacts.holds (h : Reacts s a keyCb cs) (hinv : Inv tl s) :
    Holds keyCb (nextCurrent s.requests s.current a cs) := by
  have hholds := hinv.holds
  cases h with
  | opens cmd hnone hconnected => exact ⟨rfl, rfl, rfl⟩
  | dropped cmd hopen => exact hholds
  | pressed tr hcur hreleased =>
      rw [hcur]
      exact ⟨rfl, rfl, rfl⟩
  | released tr hcur hreleased =>
      rw [hcur, nextCurrent, Option.filter_some,
        if_neg (by simp [Transaction.AnswersReleased, hreleased])]
      exact rfl
  | ignored label keyCode keyState hother =>
      cases hcur : s.current with
      | none =>
          rw [hcur] at hholds
          exact hholds
      | some tr =>
          have hkept : (!(tr.released && decide (tr.AnswersReleased
              (.response label keyCode keyState)))) = true := by
            have hno := hother tr hcur
            cases hreleased : tr.released with
            | false => rfl
            | true => simp [hno hreleased]
          rw [nextCurrent, Option.filter_some, if_pos hkept, ← hcur]
          exact hholds
  | timedOut tr hcur => exact rfl
  | quiet hnone =>
      rw [hnone] at hholds
      exact hholds

/-- The open transaction behind a step is a new one, or the one before it. -/
theorem Reacts.current (h : Reacts s a keyCb cs) {tr : Transaction}
    (htr : tr ∈ nextCurrent s.requests s.current a cs) :
    (s.avrcConnected = true ∧ (∃ cmd, a = .passthroughCmd cmd) ∧
        tr.request = s.requests ∧ tr.tl = s.tl % 16) ∨
      (a ≠ .timeOut ∧
        ∃ old ∈ s.current, tr.request = old.request ∧ tr.tl = old.tl) := by
  cases h with
  | opens cmd hnone hconnected =>
      cases htr
      exact .inl ⟨hconnected, ⟨cmd, rfl⟩, rfl, rfl⟩
  | dropped cmd hopen => exact .inr ⟨nofun, tr, htr, rfl, rfl⟩
  | pressed old hcur hreleased =>
      rw [hcur] at htr
      cases htr
      exact .inr ⟨nofun, old, hcur, rfl, rfl⟩
  | released old hcur hreleased =>
      exact .inr ⟨nofun, tr, (Option.filter_eq_some_iff.1 htr).1, rfl, rfl⟩
  | ignored label keyCode keyState hother =>
      exact .inr ⟨nofun, tr, (Option.filter_eq_some_iff.1 htr).1, rfl, rfl⟩
  | timedOut old hcur => cases htr
  | quiet hnone => cases htr

theorem mem_late_step {tr : Transaction} (h : tr ∈ (step s a).late) :
    tr ∈ s.late ∨ (a = .timeOut ∧ tr ∈ s.current) := by
  cases a with
  | passthroughCmd cmd => exact .inl h
  | response label keyCode keyState => exact .inl h
  | timeOut =>
      rcases List.mem_append.1 h with hcur | hlate
      · exact .inr ⟨rfl, Option.mem_toList.1 hcur⟩
      · exact .inl hlate

/-- Labels and requests behind a step. -/
theorem label_step (h : Inv tl s) (a : Act) :
    (step s a).tl % 16 = (tl + 2 * (step s a).requests) % 16 ∧
      s.requests ≤ (step s a).requests := by
  have hlabel := h.label
  cases a with
  | passthroughCmd cmd =>
      simp only [step]
      split
      · rw [and_0x0F]
        omega
      · exact ⟨hlabel, Nat.le_refl _⟩
  | response label keyCode keyState => exact ⟨hlabel, Nat.le_refl _⟩
  | timeOut => exact ⟨hlabel, Nat.le_refl _⟩

theorem Inv.step (h : Inv tl s) (a : Act) : Inv tl (step s a) := by
  obtain ⟨hlabel, hle⟩ := label_step h a
  have hreacts := reacts h a
  refine ⟨hreacts.holds h, ?_, hlabel, ?_, ?_, ?_⟩
  · intro hconnected
    by_contra hcur
    obtain ⟨tr, htr⟩ := Option.ne_none_iff_exists'.1 hcur
    rcases hreacts.current htr with ⟨hconn, -⟩ | ⟨-, old, hold, -⟩
    · exact absurd (hconn.symm.trans hconnected) (by decide)
    · rw [h.connected hconnected] at hold
      contradiction
  · intro tr htr
    rcases hreacts.current htr with ⟨hconn, ⟨cmd, rfl⟩, hreq, htl⟩ |
      ⟨-, old, hold, hreq, htl⟩
    · have hnew := h.label
      simp only [BtKeyControl.step, hconn, if_true, Labelled]
      omega
    · have hkept := h.current old hold
      unfold Labelled at hkept ⊢
      omega
  · intro tr htr
    rcases mem_late_step htr with hold | ⟨-, hcur⟩
    · have hkept := h.late tr hold
      exact ⟨hkept.1, by omega⟩
    · have hkept := h.current tr hcur
      exact ⟨hkept.1, by omega⟩
  · intro cur hcur tr htr
    rcases hreacts.current hcur with ⟨-, ⟨cmd, rfl⟩, hreq, -⟩ |
      ⟨hnot, old, hold, hreq, -⟩
    · have hkept := h.late tr htr
      omega
    · have hlate := (mem_late_step htr).resolve_right fun hto => hnot hto.1
      have hkept := h.behind old hold tr hlate
      omega

/-! ### The parts of the property -/

theorem Reacts.one (h : Reacts s a keyCb cs) : cs.length ≤ 1 := by
  cases h <;> simp

theorem Reacts.sends_pressed (h : Reacts s a keyCb cs) {c : Command}
    (hc : c ∈ cs) (hpressed : c.keyState = PRESSED) : s.current = none := by
  cases h with
  | opens cmd hnone hconnected => exact hnone
  | pressed tr hcur hreleased =>
      obtain rfl := List.mem_singleton.1 hc
      contradiction
  | _ => contradiction

theorem Reacts.sends_released (h : Reacts s a keyCb cs) {c : Command}
    (hc : c ∈ cs) (hreleased : c.keyState ≠ PRESSED) :
    ∃ tr, s.current = some tr ∧ tr.released = false ∧ tr.AnswersPressed a ∧
      c = ⟨(tr.tl + 1) % 16, tr.keyCode, RELEASED⟩ := by
  cases h with
  | opens cmd hnone hconnected =>
      obtain rfl := List.mem_singleton.1 hc
      exact absurd rfl hreleased
  | pressed tr hcur hopen =>
      exact ⟨tr, hcur, hopen, rfl, List.mem_singleton.1 hc⟩
  | _ => contradiction

theorem Reacts.drops {cmd : Nat} (h : Reacts s (.passthroughCmd cmd) keyCb cs)
    (hopen : s.current.isSome) : keyCb = s.keyCb ∧ cs = [] := by
  cases h with
  | opens cmd hnone hconnected =>
      rw [hnone] at hopen
      contradiction
  | dropped cmd hdropped => exact ⟨rfl, rfl⟩

/-- What is accepted answers the open transaction with one of its labels. -/
theorem Reacts.accepts {label keyCode keyState : Nat}
    (h : Reacts s (.response label keyCode keyState) keyCb cs)
    (hmoved : keyCb ≠ s.keyCb) :
    ∃ cur, s.current = some cur ∧
      (cur.AnswersPressed (.response label keyCode keyState) ∨
        cur.AnswersReleased (.response label keyCode keyState)) ∧
      (label = cur.tl ∨ label = (cur.tl + 1) % 16) := by
  cases h with
  | pressed tr hcur hreleased => exact ⟨tr, hcur, .inl rfl, .inl rfl⟩
  | released tr hcur hreleased => exact ⟨tr, hcur, .inr rfl, .inr rfl⟩
  | ignored label keyCode keyState hother => exact absurd rfl hmoved

end Steps

/-- **The commands form transactions,** in every step of every run. -/
theorem key_transactions {avrcConnected : Bool} {tl : Nat} {s : Sys}
    (h : keyMachine.Reachable (start avrcConnected tl) s) (a : Act) :
    Transacts s a := by
  have hinv : Inv tl s :=
    Machine.Reachable.invariant h (Inv.start avrcConnected tl)
      fun _ _ _ hu hs => Option.some.inj hs ▸ hu.step _
  have hreacts := reacts hinv a
  refine ⟨hreacts.one, fun c => hreacts.sends_pressed,
    fun c => hreacts.sends_released, ?_, ?_⟩
  · rintro cmd rfl hopen
    obtain ⟨hkeyCb, hcs⟩ := hreacts.drops hopen
    refine ⟨Prod.ext hkeyCb hcs, ?_⟩
    show nextCurrent s.requests s.current (.passthroughCmd cmd)
      (react s (.passthroughCmd cmd)).2 = s.current
    rw [hcs]
    rfl
  · rintro label keyCode keyState rfl hmoved
    obtain ⟨cur, hcur, hanswers, hlabel⟩ := hreacts.accepts hmoved
    refine ⟨cur, hcur, hanswers, fun tr htr hnear => ?_⟩
    have hdiffer := labels_differ (hinv.late tr htr).1
      (hinv.current cur hcur).1 (hinv.behind cur hcur tr htr) hnear
    rcases hlabel with rfl | rfl
    · exact ⟨hdiffer.1, hdiffer.2.1⟩
    · exact ⟨hdiffer.2.2.1, hdiffer.2.2.2⟩

/-- A transaction times out, and the next request opens another one: the late
response to the first one is not accepted. -/
theorem key_transactions_late : ∃ s,
    keyMachine.run (start true 0)
      [.passthroughCmd 68, .timeOut, .passthroughCmd 68] = some s ∧
    s.late = [⟨0, 0, 68, false⟩] ∧ s.current = some ⟨1, 2, 68, false⟩ ∧
    react s (.response 0 68 PRESSED) = (s.keyCb, []) ∧
    Transacts s (.response 0 68 PRESSED) := by
  have hrun : keyMachine.run (start true 0)
      [.passthroughCmd 68, .timeOut, .passthroughCmd 68] = some _ := rfl
  exact ⟨_, hrun, by decide, by decide, by decide,
    key_transactions (Machine.reachable_of_run hrun) _⟩

end EspAdf.Ports.BtKeyControl
