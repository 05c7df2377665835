import EspAdf.Ports.Is31fl3216

/-!
# `periph_is31fl3216.c`: the task that animates the LEDs

A client sets the fields of `is31->arg` and sends a new state;
`is31fl3216_run_task` takes the fields over and goes round its loop, once for
the command and then once whenever no other command has come for
`interval_time`.  In the states `FLASH` and `SHIFT` a round is a step of the
animation.  `act_times` counts the steps down and ends the animation when it
gets to zero; as it is decremented before the test, an `act_time` shorter than
the interval, which makes it zero at once, makes it wrap.

* `ledsCtrl_registers` — what the LED control registers of the device are
  after `is31_leds_ctrl`.
* `led_animation_ends_iff` — when the animation takes the steps that
  `act_time` has room for.

A shift by 32 or more is undefined in C.  Whatever it gives is the parameter
`wild` of the model, and `i` counts in ℕ.
-/

namespace EspAdf.Ports.PeriphIs31fl3216

open EspAdf.Verified

/-! ## Data -/

def IS31FL3216_CH_NUM : Nat := 16
def IS31FL3216_DUTY_MAX : Int := 255
def DEFAULT_FLASH_STEP : BitVec 8 := 2

/-- `portMAX_DELAY`, in an `int`. -/
def portMAX_DELAY : Int := -1

/-- `periph_is31fl3216_state_t`. -/
inductive LedState where
  | unknown | off | on | flash | byAudio | shift
  deriving DecidableEq, Repr

/-- `periph_is31_shift_mode_t`. -/
inductive ShiftMode where
  | unknown | acc | single
  deriving DecidableEq, Repr

/-- `periph_is31_arg_t`. -/
structure Arg where
  maxLightNum : BitVec 16
  lightNum : BitVec 16
  lightMask : BitVec 16
  intervalTime : Int
  actTime : BitVec 16
  dutyStep : BitVec 8
  shiftMode : ShiftMode
  deriving DecidableEq, Repr

/-- `periph_is31_msg_t`. -/
inductive Msg where
  | chgState (state : LedState)
  | quit
  deriving DecidableEq, Repr

/-- What the task asks of the driver. -/
inductive Out where
  | ledsDuty (duty : BitVec 8) (mask : BitVec 16)
  | ledsCtrl (mask : BitVec 16)
  | chDisable (mask : BitVec 16)
  | workMode (mode : Is31fl3216.WorkMode)
  | reset
  | sampleRate (value : BitVec 32)
  | frames
  | firstFrame (frame : BitVec 32)
  deriving DecidableEq, Repr

/-- `periph_is31fl3216_t`, with the variables of the task. -/
structure Led where
  /-- `is31->arg`. -/
  shared : Arg
  evt : List Msg
  curState : LedState
  /-- `is31_arg`. -/
  arg : Arg
  waitTimeMs : Int
  taskRun : Bool
  curDuty : Int
  sig : Int
  curBitsMask : BitVec 32
  i : Nat
  actTimes : BitVec 16
  /-- What has been asked of the driver. -/
  log : List Out
  deriving DecidableEq, Repr

/-- After `periph_is31fl3216_init`, when the task starts. -/
def start : Led where
  shared :=
    { maxLightNum := 16, lightNum := 0, lightMask := 0, intervalTime := 1000,
      actTime := 0, dutyStep := DEFAULT_FLASH_STEP, shiftMode := .acc }
  evt := []
  curState := .unknown
  arg :=
    { maxLightNum := 16, lightNum := 1, lightMask := 1, intervalTime := 1000,
      actTime := 0, dutyStep := DEFAULT_FLASH_STEP, shiftMode := .unknown }
  waitTimeMs := portMAX_DELAY
  taskRun := true
  curDuty := 0
  sig := 2
  curBitsMask := 0
  i := 0
  actTimes := 0
  log := []

/-- `is31->arg` after its fields have been taken over. -/
def cleared : Arg where
  maxLightNum := 16
  lightNum := 0
  lightMask := 0
  intervalTime := portMAX_DELAY
  actTime := 0
  dutyStep := DEFAULT_FLASH_STEP
  shiftMode := .unknown

/-! ## The task -/

/-- Leaving the state `BY_AUDIO` sets the work mode back. -/
def wake (curState : LedState) : List Out :=
  if curState = .byAudio then [.workMode .pwm] else []

/-- `is31_change_state`. -/
def is31ChangeState (led : Led) (state : LedState) : Led :=
  match state with
  | .off =>
      { led with
        log := led.log ++ [.chDisable led.arg.lightMask]
        arg := { led.arg with intervalTime := portMAX_DELAY }
        curState := .off }
  | .on =>
      { led with
        log := led.log ++
          (if led.curState = .byAudio then
            [.workMode .pwm, .ledsDuty 255 led.arg.lightMask] else []) ++
          [.ledsCtrl led.arg.lightMask]
        arg := { led.arg with intervalTime := portMAX_DELAY }
        curState := .on }
  | .flash =>
      { led with log := led.log ++ wake led.curState, curState := .flash }
  | .shift =>
      { led with log := led.log ++ wake led.curState, curState := .shift }
  | .byAudio =>
      { led with
        log := led.log ++
          [.reset, .workMode .frame, .sampleRate 0xB4, .frames, .firstFrame 0]
        arg := { led.arg with intervalTime := portMAX_DELAY }
        curState := .byAudio }
  | .unknown => led

/-- `act_time / wait_time_ms`, in an `uint16_t`. -/
def quotient (actTime : BitVec 16) (waitTimeMs : Int) : BitVec 16 :=
  BitVec.ofInt 16 ((actTime.toNat : Int).tdiv waitTimeMs)

/-- What a round does with a message. -/
def handle (led : Led) : Msg → Led
  | .chgState state =>
      let led : Led := { led with
        arg := led.shared
        waitTimeMs := led.shared.intervalTime
        shared := cleared }
      let led := is31ChangeState led state
      { led with
        sig := if state = .flash then led.arg.dutyStep.toNat else led.sig
        actTimes :=
          if led.arg.actTime ≠ 0 ∧ led.waitTimeMs ≠ 0 then
            quotient led.arg.actTime led.waitTimeMs
          else 0 }
  | .quit => { led with taskRun := false }

/-- A step of `FLASH`. -/
def flashStep (led : Led) : Led :=
  let duty := led.curDuty + led.sig
  let led : Led := { led with
    log := led.log ++ [.ledsDuty (BitVec.ofInt 8 led.curDuty) led.arg.lightMask,
      .ledsCtrl led.arg.lightMask]
    curDuty := duty }
  let led : Led :=
    if led.curDuty > IS31FL3216_DUTY_MAX then
      { led with
        curDuty := IS31FL3216_DUTY_MAX, sig := -(led.arg.dutyStep.toNat : Int) }
    else led
  if led.curDuty < 0 then
    { led with curDuty := 0, sig := led.arg.dutyStep.toNat }
  else led

section

variable (wild : BitVec 32 → Nat → BitVec 32)

/-- `x << n`. -/
def shl (x : BitVec 32) (n : Nat) : BitVec 32 :=
  if n < 32 then x <<< n else wild x n

/-- `x >> n` of an `int`. -/
def sshr (x : BitVec 32) (n : Nat) : BitVec 32 :=
  if n < 32 then x.sshiftRight n else wild x n

/-- The mask of a step of `SHIFT`, and the next `i`. -/
def shiftMask (arg : Arg) (curBitsMask : BitVec 32) (i : Nat) :
    BitVec 32 × Nat :=
  match arg.shiftMode with
  | .single =>
      let mask := shl wild (shl wild 1 arg.lightNum.toNat - 1) i
      if ((i + 1 : Nat) : Int) =
          (arg.maxLightNum.toNat : Int) - arg.lightNum.toNat + 1 then (mask, 0)
      else (mask, i + 1)
  | .acc =>
      let mask := shl wild 1 (arg.lightNum.toNat * (i + 1)) - 1
      if (sshr wild mask arg.maxLightNum.toNat).getLsbD 0 then (0, 0)
      else (mask, i + 1)
  | .unknown => (curBitsMask, i)

/-- A step of `SHIFT`. -/
def shiftStep (led : Led) : Led :=
  let (mask, i) := shiftMask wild led.arg led.curBitsMask led.i
  { led with
    curBitsMask := mask
    i := i
    log := led.log ++
      [.ledsDuty 255 (mask.setWidth 16), .ledsCtrl (mask.setWidth 16)] }

/-- `act_times` after a step, and the end of the animation. -/
def countDown (led : Led) : Led :=
  if led.arg.actTime = 0 then { led with actTimes := 0 }
  else
    let led : Led := { led with actTimes := led.actTimes - 1 }
    if led.actTimes = 0 then
      { led with
        waitTimeMs := portMAX_DELAY
        curState := .unknown
        log := led.log ++ [.ledsCtrl 0] }
    else led

/-- What a round does in the end. -/
def animate (led : Led) : Led :=
  match led.curState with
  | .flash => countDown (flashStep led)
  | .shift => countDown (shiftStep wild led)
  | _ => led

inductive Act where
  | setBlinkPattern (blinkPattern : BitVec 16)
  | setDutyStep (step : BitVec 8)
  | setInterval (intervalMs : BitVec 16)
  | setShiftMode (mode : ShiftMode)
  | setLightOnNum (lightOnNum maxLightNum : BitVec 16)
  | setActTime (actMs : BitVec 16)
  | send (msg : Msg)
  | receive
  | timeout
  deriving DecidableEq, Repr

/-- `is31_evt_send`; the queue has room for two messages. -/
def evtSend (led : Led) (msg : Msg) : Led :=
  if led.evt.length < 2 then { led with evt := led.evt ++ [msg] } else led

/-- The setters and `periph_is31fl3216_set_state`, and the rounds of the task:
a message is received, or there is none in time. -/
def step (led : Led) : Act → Option Led
  | .setBlinkPattern blinkPattern =>
      some { led with shared := { led.shared with lightMask := blinkPattern } }
  | .setDutyStep step =>
      some { led with shared := { led.shared with dutyStep := step } }
  | .setInterval intervalMs =>
      some { led with
        shared := { led.shared with intervalTime := intervalMs.toNat } }
  | .setShiftMode mode =>
      some { led with shared := { led.shared with shiftMode := mode } }
  | .setLightOnNum lightOnNum maxLightNum =>
      some { led with shared :=
        { led.shared with maxLightNum := maxLightNum, lightNum := lightOnNum } }
  | .setActTime actMs =>
      some { led with shared := { led.shared with actTime := actMs } }
  | .send msg => some (evtSend led msg)
  | .receive =>
      match led.evt with
      | [] => none
      | msg :: evt =>
          if led.taskRun then
            some (animate wild (handle { led with evt := evt } msg))
          else none
  | .timeout =>
      if led.taskRun ∧ led.evt = [] then some (animate wild led) else none

/-- The clients and the task. -/
def taskMachine : Machine Led Act where
  step := step wild

end

/-! ## The driver under the task -/

open Is31fl3216 (Call Reg Byte addr IS31FL3216_REG_LED_CTRL_H
  IS31FL3216_REG_LED_CTRL_L)

def lightAudioFrames : List (List Byte) :=
  [[0xFF, 0xFF, 0x00, 0x00, 0x00, 0x00, 0x00, 0x00, 0xFF, 0x00, 0x00, 0x00,
      0x00, 0x00, 0x00, 0x00, 0x00, 0x00],
    [0xFF, 0xFF, 0x00, 0x00, 0x00, 0x00, 0x00, 0xFF, 0xFF, 0xFF, 0x00, 0x00,
      0x00, 0x00, 0x00, 0x00, 0x00, 0x00],
    [0xFF, 0xFF, 0x00, 0x00, 0x00, 0x00, 0xFF, 0xFF, 0xFF, 0xFF, 0xFF, 0x00,
      0x00, 0x00, 0x00, 0x00, 0x00, 0x00],
    [0xFF, 0xFF, 0x00, 0x00, 0x00, 0x00, 0xFF, 0xFF, 0xFF, 0xFF, 0xFF, 0xFF,
      0x00, 0x00, 0x00, 0x00, 0x00, 0xFF],
    [0xFF, 0xFF, 0x00, 0x00, 0x00, 0x00, 0xFF, 0xFF, 0xFF, 0xFF, 0xFF, 0xFF,
      0xFF, 0x00, 0x00, 0x00, 0xFF, 0xFF],
    [0xFF, 0xFF, 0x00, 0x00, 0x00, 0x00, 0xFF, 0xFF, 0xFF, 0xFF, 0xFF, 0xFF,
      0xFF, 0xFF, 0x00, 0xFF, 0xFF, 0xFF],
    [0xFF, 0xFF, 0x00, 0x00, 0x00, 0x00, 0xFF, 0xFF, 0xFF, 0xFF, 0xFF, 0xFF,
      0xFF, 0xFF, 0xFF, 0xFF, 0xFF, 0xFF],
    [0xFF, 0xFF, 0x00, 0x00, 0x00, 0x00, 0xFF, 0xFF, 0xFF, 0xFF, 0xFF, 0xFF,
      0xFF, 0xFF, 0xFF, 0xFF, 0xFF, 0xFF]]

/-- `is31_leds_ctrl`, one channel. -/
def ledCall (mask : BitVec 16) (i : Nat) : Call :=
  if mask.getLsbD i then .chEnable (1#32 <<< i) else .chDisable (1#32 <<< i)

/-- `is31_leds_ctrl`. -/
def is31LedsCtrl (mask : BitVec 16) : List Call :=
  (List.range IS31FL3216_CH_NUM).map (ledCall mask)

/-- `is31_leds_duty`. -/
def is31LedsDuty (duty : BitVec 8) (mask : BitVec 16) : List Call :=
  ((List.range IS31FL3216_CH_NUM).filter fun i => mask.getLsbD i).map
    fun i => .chDutySet (1#32 <<< i) duty

/-- The calls of the driver. -/
def Out.calls : Out → List Call
  | .ledsDuty duty mask => is31LedsDuty duty mask
  | .ledsCtrl mask => is31LedsCtrl mask
  | .chDisable mask => [.chDisable (mask.setWidth 32)]
  | .workMode mode => [.workModeSet mode]
  | .reset => [.reset]
  | .sampleRate value => [.sampleRateSet value]
  | .frames => [.frameValueSet 1 lightAudioFrames.flatten]
  | .firstFrame frame => [.firstFrameSet frame]

/-- The LED control registers of the shadow. -/
def ctrl (s : Is31fl3216.State) : BitVec 16 :=
  s.shadow IS31FL3216_REG_LED_CTRL_H ++ s.shadow IS31FL3216_REG_LED_CTRL_L

/-- The device has them too. -/
def CtrlWritten (s : Is31fl3216.State) : Prop :=
  s.device (addr IS31FL3216_REG_LED_CTRL_H) =
      some (s.shadow IS31FL3216_REG_LED_CTRL_H) ∧
    s.device (addr IS31FL3216_REG_LED_CTRL_L) =
      some (s.shadow IS31FL3216_REG_LED_CTRL_L)

/-- Bits of both registers are changed. -/
theorem ctrl_rmw (s : Is31fl3216.State) (highMask high lowMask low : Byte) :
    ∃ t, (Is31fl3216.readModifyWrite (Is31fl3216.readModifyWrite s
        IS31FL3216_REG_LED_CTRL_H highMask high).2
        IS31FL3216_REG_LED_CTRL_L lowMask low).2 = t ∧
      ctrl t = ctrl s &&& ~~~(highMask ++ lowMask) ||| (high ++ low) ∧
      CtrlWritten t := by
  have hne : IS31FL3216_REG_LED_CTRL_H ≠ IS31FL3216_REG_LED_CTRL_L := by
    decide
  have hne' : addr IS31FL3216_REG_LED_CTRL_H ≠
      addr IS31FL3216_REG_LED_CTRL_L := by decide
  refine ⟨_, rfl, ?_, ?_⟩
  · rw [Is31fl3216.readModifyWrite_eq, Is31fl3216.readModifyWrite_eq, ctrl,
      ctrl, BitVec.not_append, BitVec.and_append, BitVec.or_append]
    dsimp only
    rw [Shadowed.shadow_write_self, Shadowed.shadow_write_of_ne _ hne,
      Shadowed.shadow_write_self, Shadowed.shadow_write_of_ne _ hne.symm]
  · rw [Is31fl3216.readModifyWrite_eq, Is31fl3216.readModifyWrite_eq,
      CtrlWritten]
    dsimp only
    rw [Shadowed.device_write_self, Shadowed.shadow_write_self,
      Shadowed.device_write_of_ne _ hne', Shadowed.device_write_self,
      Shadowed.shadow_write_of_ne _ hne, Shadowed.shadow_write_self]
    exact ⟨rfl, rfl⟩

theorem channels_append (chBits : BitVec 32) :
    ((chBits >>> 8).setWidth 8 ++ chBits.setWidth 8 : BitVec 16) =
      chBits.setWidth 16 := by
  refine BitVec.eq_of_getLsbD_eq fun i hi => ?_
  rw [BitVec.getLsbD_append]
  split
  · rename_i hlt
    simp [hlt, hi]
  · rename_i hle
    simp [hi, show i - 8 < 8 by omega, show 8 + (i - 8) = i by omega]

/-- A switch changes the bits of one channel. -/
theorem ledCall_eq (s : Is31fl3216.State) (mask : BitVec 16) (i : Nat) :
    ∃ bits : BitVec 32, bits = (if mask.getLsbD i then 1#32 <<< i else 0) ∧
      Is31fl3216.step s (ledCall mask i) =
        (Is31fl3216.readModifyWrite (Is31fl3216.readModifyWrite s
          IS31FL3216_REG_LED_CTRL_H ((1#32 <<< i >>> 8).setWidth 8)
          ((bits >>> 8).setWidth 8)).2 IS31FL3216_REG_LED_CTRL_L
          ((1#32 <<< i).setWidth 8) (bits.setWidth 8)).2 := by
  refine ⟨_, rfl, ?_⟩
  rw [ledCall]
  split
  · rw [Is31fl3216.step, Is31fl3216.chEnable_eq]
  · rw [Is31fl3216.step, Is31fl3216.chDisable_eq]
    rfl

/-- One channel is switched on or off. -/
theorem ctrl_ledCall (s : Is31fl3216.State) (mask : BitVec 16) (i : Nat) :
    CtrlWritten (Is31fl3216.step s (ledCall mask i)) ∧
      ∀ j < 16, (ctrl (Is31fl3216.step s (ledCall mask i))).getLsbD j =
        if j = i then mask.getLsbD i else (ctrl s).getLsbD j := by
  have hbit : ∀ j < 16, ((1#32 <<< i).setWidth 16).getLsbD j =
      decide (j = i) := by
    intro j hj
    rw [BitVec.getLsbD_setWidth, BitVec.getLsbD_shiftLeft, BitVec.getLsbD_one,
      Bool.eq_iff_iff]
    simp only [Bool.and_eq_true, Bool.not_eq_true', decide_eq_true_eq,
      decide_eq_false_iff_not]
    omega
  obtain ⟨bits, hbits, hstep⟩ := ledCall_eq s mask i
  obtain ⟨t, ht, hctrl, hwritten⟩ := ctrl_rmw s
    ((1#32 <<< i >>> 8).setWidth 8) ((bits >>> 8).setWidth 8)
    ((1#32 <<< i).setWidth 8) (bits.setWidth 8)
  rw [hstep, ht]
  refine ⟨hwritten, fun j hj => ?_⟩
  have hset : (bits.setWidth 16).getLsbD j =
      (mask.getLsbD i && decide (j = i)) := by
    rw [hbits]
    split
    · rename_i hon
      rw [hbit j hj, hon, Bool.true_and]
    · rename_i hoff
      rw [Bool.eq_false_of_not_eq_true hoff, Bool.false_and]
      simp
  rw [hctrl, channels_append, channels_append, BitVec.getLsbD_or,
    BitVec.getLsbD_and, BitVec.getLsbD_not, hbit j hj, hset]
  by_cases heq : j = i
  · simp [heq]
  · simp [heq, hj]

/-- After the first channels. -/
theorem ctrl_ledCalls (s : Is31fl3216.State) (mask : BitVec 16) (n : Nat) :
    ∃ t, Is31fl3216.driverMachine.run s ((List.range n).map (ledCall mask)) =
        some t ∧
      (0 < n → CtrlWritten t) ∧
      ∀ j < 16, (ctrl t).getLsbD j =
        if j < n then mask.getLsbD j else (ctrl s).getLsbD j := by
  induction n with
  | zero => exact ⟨s, rfl, nofun, fun j _ => rfl⟩
  | succ n ih =>
      obtain ⟨u, hu, -, hbits⟩ := ih
      obtain ⟨hwritten, hbit⟩ := ctrl_ledCall u mask n
      refine ⟨Is31fl3216.step u (ledCall mask n), ?_, fun _ => hwritten,
        fun j hj => ?_⟩
      · rw [List.range_succ, List.map_append, Machine.run_append, hu]
        rfl
      · rw [hbit j hj, hbits j hj]
        by_cases heq : j = n
        · rw [if_pos heq, if_pos (by omega), heq]
        · rw [if_neg heq]
          by_cases hlt : j < n
          · rw [if_pos hlt, if_pos (by omega)]
          · rw [if_neg hlt, if_neg (by omega)]

/-- **`is31_leds_ctrl` lights the LEDs of its mask** and no others, whatever
the shadow was. -/
theorem ledsCtrl_registers (s : Is31fl3216.State) (mask : BitVec 16) :
    ∃ t, Is31fl3216.driverMachine.run s (is31LedsCtrl mask) = some t ∧
      t.device (addr IS31FL3216_REG_LED_CTRL_H) =
        some ((mask >>> 8).setWidth 8) ∧
      t.device (addr IS31FL3216_REG_LED_CTRL_L) = some (mask.setWidth 8) := by
  obtain ⟨t, ht, hwritten, hbits⟩ := ctrl_ledCalls s mask 16
  have hctrl : ctrl t = mask := by
    refine BitVec.eq_of_getLsbD_eq fun j hj => ?_
    rw [hbits j hj, if_pos hj]
  obtain ⟨hhigh, hlow⟩ := hwritten (by decide)
  refine ⟨t, ht, ?_, ?_⟩
  · rw [hhigh, ← hctrl, ctrl]
    refine congrArg some (BitVec.eq_of_getLsbD_eq fun j hj => ?_)
    rw [BitVec.getLsbD_setWidth, BitVec.getLsbD_ushiftRight,
      BitVec.getLsbD_append, if_neg (by omega)]
    simp [hj]
  · rw [hlow, ← hctrl, ctrl]
    refine congrArg some (BitVec.eq_of_getLsbD_eq fun j hj => ?_)
    rw [BitVec.getLsbD_setWidth, BitVec.getLsbD_append, if_pos hj]
    simp [hj]

/-! ## Counting the steps down -/

variable (wild : BitVec 32 → Nat → BitVec 32)

/-- The LEDs are animated for a time. -/
structure Animated (led : Led) : Prop where
  state : led.curState = .flash ∨ led.curState = .shift
  timed : led.arg.actTime ≠ 0
  taskRun : led.taskRun = true
  evt : led.evt = []

/-- What a step of the animation shows. -/
def shown (frame : BitVec 8 × BitVec 16) : List Out :=
  [.ledsDuty frame.1 frame.2, .ledsCtrl frame.2]

/-- All LEDs are off, and the task waits for the next message: rounds without
one do nothing. -/
def Waits (led : Led) : Prop :=
  led.curState = .unknown ∧ led.waitTimeMs = portMAX_DELAY ∧
    (taskMachine wild).step led .timeout = some led

/-- The task takes `n` steps of the animation, of which the command is the
first; then it turns all LEDs off and waits. -/
def Ends (led : Led) (n : Nat) : Prop :=
  ∃ (frames : List (BitVec 8 × BitVec 16)) (t : Led), frames.length = n ∧
    (taskMachine wild).run led (.receive :: List.replicate (n - 1) .timeout) =
      some t ∧
    t.log = led.log ++ wake led.curState ++ frames.flatMap shown ++
      [.ledsCtrl 0] ∧
    Waits wild t

/-- The steps that are left. -/
def rounds (actTimes : BitVec 16) : Nat :=
  if actTimes = 0 then 2 ^ 16 else actTimes.toNat

/-- A step of either animation only shows something. -/
theorem animate_eq {led : Led} (h : Animated led) : ∃ frame led',
    animate wild led = countDown led' ∧ led'.log = led.log ++ shown frame ∧
    led'.actTimes = led.actTimes ∧ Animated led' := by
  rcases h.state with hstate | hstate
  · refine ⟨(BitVec.ofInt 8 led.curDuty, led.arg.lightMask), flashStep led,
      ?_, ?_, ?_, ?_, ?_, ?_, ?_⟩
    · rw [animate, hstate]
    all_goals
      unfold flashStep
      dsimp only
      split_ifs
    all_goals first
      | rfl | exact h.state | exact h.timed | exact h.taskRun | exact h.evt
  · refine ⟨(255,
        (shiftMask wild led.arg led.curBitsMask led.i).1.setWidth 16),
      shiftStep wild led, ?_, rfl, rfl, h.state, h.timed, h.taskRun, h.evt⟩
    rw [animate, hstate]

/-- The last step. -/
theorem animate_last {led : Led} (h : Animated led) (hone : led.actTimes = 1) :
    ∃ frame,
      (animate wild led).log = led.log ++ shown frame ++ [.ledsCtrl 0] ∧
      Waits wild (animate wild led) := by
  obtain ⟨frame, led', heq, hlog, hact, h'⟩ := animate_eq wild h
  have hcount : countDown led' = { led' with
      actTimes := 0, waitTimeMs := portMAX_DELAY, curState := .unknown,
      log := led'.log ++ [.ledsCtrl 0] } := by
    rw [countDown, if_neg h'.timed]
    dsimp only
    rw [hact, hone]
    exact if_pos rfl
  refine ⟨frame, ?_, ?_⟩
  · rw [heq, hcount, ← hlog]
  · rw [heq, hcount]
    exact ⟨rfl, rfl, if_pos ⟨h'.taskRun, h'.evt⟩⟩

/-- Any other step. -/
theorem animate_next {led : Led} (h : Animated led)
    (hone : led.actTimes ≠ 1) :
    ∃ frame, (animate wild led).log = led.log ++ shown frame ∧
      Animated (animate wild led) ∧
      (animate wild led).actTimes = led.actTimes - 1 := by
  obtain ⟨frame, led', heq, hlog, hact, h'⟩ := animate_eq wild h
  have hsub : led'.actTimes - 1 ≠ 0 := by
    rw [hact]
    exact fun hzero => hone (by
      have := congrArg (· + 1#16) hzero
      simpa using this)
  have hcount : countDown led' = { led' with
      actTimes := led'.actTimes - 1 } := by
    rw [countDown, if_neg h'.timed]
    exact if_neg hsub
  refine ⟨frame, ?_, ?_, ?_⟩
  · rw [heq, hcount, ← hlog]
  · rw [heq, hcount]
    exact ⟨h'.state, h'.timed, h'.taskRun, h'.evt⟩
  · rw [heq, hcount, ← hact]

/-- One round less. -/
theorem rounds_pred {actTimes : BitVec 16} {n : Nat}
    (h : rounds actTimes = n + 2) :
    actTimes ≠ 1 ∧ rounds (actTimes - 1) = n + 1 := by
  have hsub : (actTimes - 1).toNat = (actTimes.toNat + 65535) % 65536 := by
    have hone : (1 : BitVec 16).toNat = 1 := rfl
    rw [BitVec.toNat_sub, hone]
    omega
  have hlt := actTimes.isLt
  rw [rounds] at h
  split at h
  · rename_i hzero
    subst hzero
    refine ⟨by decide, ?_⟩
    rw [rounds, if_neg (by decide), hsub]
    show (0 + 65535) % 65536 = n + 1
    omega
  · have hpos : (actTimes - 1).toNat = n + 1 := by omega
    refine ⟨fun hone => ?_, ?_⟩
    · rw [hone] at h
      exact absurd h (by show 1 ≠ n + 2; omega)
    · rw [rounds, if_neg fun hzero => ?_, hpos]
      rw [hzero] at hpos
      exact absurd hpos (by show 0 ≠ n + 1; omega)

/-- From a step on, the steps that are left are taken. -/
theorem animate_run {n : Nat} {led : Led} (h : Animated led)
    (hrounds : rounds led.actTimes = n + 1) :
    ∃ (frames : List (BitVec 8 × BitVec 16)) (t : Led),
      frames.length = n + 1 ∧
      (taskMachine wild).run (animate wild led) (List.replicate n .timeout) =
        some t ∧
      t.log = led.log ++ frames.flatMap shown ++ [.ledsCtrl 0] ∧
      Waits wild t := by
  induction n generalizing led with
  | zero =>
      have hone : led.actTimes = 1 := by
        rw [rounds] at hrounds
        split at hrounds
        · contradiction
        · exact BitVec.eq_of_toNat_eq hrounds
      obtain ⟨frame, hlog, hwaits⟩ := animate_last wild h hone
      refine ⟨[frame], _, rfl, rfl, ?_, hwaits⟩
      rw [hlog, List.flatMap_singleton]
  | succ n ih =>
      obtain ⟨hone, hpred⟩ := rounds_pred hrounds
      obtain ⟨frame, hlog, hnext, hact⟩ := animate_next wild h hone
      rw [← hact] at hpred
      obtain ⟨frames, t, hlength, hrun, htlog, hwaits⟩ := ih hnext hpred
      refine ⟨frame :: frames, t, congrArg Nat.succ hlength, ?_, ?_, hwaits⟩
      · have hstep : (taskMachine wild).step (animate wild led) .timeout =
            some (animate wild (animate wild led)) :=
          if_pos ⟨hnext.taskRun, hnext.evt⟩
        rw [List.replicate_succ, Machine.run_cons, hstep]
        exact hrun
      · rw [htlog, hlog, List.flatMap_cons, List.append_assoc led.log]

/-- A client has set what it wants, and sent the state. -/
structure Commanded (led : Led) (state : LedState) : Prop where
  kind : state = .flash ∨ state = .shift
  actTime : led.shared.actTime ≠ 0
  interval : 1 ≤ led.shared.intervalTime
  taskRun : led.taskRun = true
  evt : led.evt = [.chgState state]

/-- The command starts the count. -/
theorem Commanded.handle {led : Led} {state : LedState}
    (h : Commanded led state) :
    Animated (handle { led with evt := [] } (.chgState state)) ∧
      (PeriphIs31fl3216.handle { led with evt := [] } (.chgState state)).log =
        led.log ++ wake led.curState ∧
      (PeriphIs31fl3216.handle { led with evt := [] }
        (.chgState state)).actTimes =
          quotient led.shared.actTime led.shared.intervalTime := by
  have hint : led.shared.intervalTime ≠ 0 := by
    have := h.interval
    omega
  rcases h.kind with rfl | rfl
  · exact ⟨⟨.inl rfl, h.actTime, h.taskRun, rfl⟩, rfl,
      if_pos ⟨h.actTime, hint⟩⟩
  · exact ⟨⟨.inr rfl, h.actTime, h.taskRun, rfl⟩, rfl,
      if_pos ⟨h.actTime, hint⟩⟩

theorem Commanded.step {led : Led} {state : LedState}
    (h : Commanded led state) :
    (taskMachine wild).step led .receive = some (animate wild
      (PeriphIs31fl3216.handle { led with evt := [] } (.chgState state))) := by
  show PeriphIs31fl3216.step wild led .receive = _
  unfold PeriphIs31fl3216.step
  rw [h.evt]
  exact if_pos h.taskRun

/-- The animation takes as many steps as `act_times` counts down. -/
theorem Commanded.ends {led : Led} {state : LedState}
    (h : Commanded led state) :
    Ends wild led
      (rounds (quotient led.shared.actTime led.shared.intervalTime)) := by
  obtain ⟨hanimated, hlog, hact⟩ := h.handle
  obtain ⟨n, hn⟩ : ∃ n, rounds (quotient led.shared.actTime
      led.shared.intervalTime) = n + 1 := by
    have hpos : 0 < rounds (quotient led.shared.actTime
        led.shared.intervalTime) := by
      rw [rounds]
      split
      · decide
      · rename_i hne
        exact Nat.pos_of_ne_zero fun hzero => hne (BitVec.eq_of_toNat_eq hzero)
    exact ⟨_, (Nat.succ_pred_eq_of_pos hpos).symm⟩
  rw [hn]
  rw [← hact] at hn
  obtain ⟨frames, t, hlength, hrun, htlog, hwaits⟩ :=
    animate_run wild hanimated hn
  refine ⟨frames, t, hlength, ?_, ?_, hwaits⟩
  · rw [Machine.run_cons, h.step wild]
    exact hrun
  · rw [htlog, hlog]

/-- `act_time / interval`, as it is computed. -/
theorem toNat_quotient (actTime : BitVec 16) {interval : Int}
    (h : 1 ≤ interval) :
    (quotient actTime interval).toNat = actTime.toNat / interval.toNat := by
  obtain ⟨n, rfl⟩ := Int.eq_ofNat_of_zero_le (by omega : 0 ≤ interval)
  have hle : actTime.toNat / n ≤ actTime.toNat := Nat.div_le_self _ _
  have hlt := actTime.isLt
  have hdiv : (actTime.toNat : Int).tdiv n =
      ((actTime.toNat / n : Nat) : Int) := rfl
  rw [quotient, hdiv, BitVec.ofInt_natCast, BitVec.toNat_ofNat,
    Int.toNat_natCast]
  exact Nat.mod_eq_of_lt (by omega)

/-- **The animation ends in time**, after `max 1 (act_time / interval)` steps,
exactly if the time is at least one interval. -/
theorem led_animation_ends_iff {led : Led} {state : LedState}
    (h : Commanded led state) :
    Ends wild led (max 1 (led.shared.actTime.toNat /
        led.shared.intervalTime.toNat)) ↔
      led.shared.intervalTime ≤ led.shared.actTime.toNat := by
  have hquotient := toNat_quotient led.shared.actTime h.interval
  have hinterval := h.interval
  constructor
  · rintro ⟨frames, t, -, hrun, -, hwaits⟩
    by_contra hlt
    have hzero : led.shared.actTime.toNat / led.shared.intervalTime.toNat =
        0 := Nat.div_eq_of_lt (by omega)
    rw [hzero] at hrun hquotient
    obtain ⟨hanimated, -, hact⟩ := h.handle
    rw [BitVec.eq_of_toNat_eq (y := 0#16) hquotient] at hact
    -- the counter wraps in the first step, which shows a frame and goes on
    obtain ⟨frame, -, hnext, -⟩ := animate_next wild hanimated
      (by rw [hact]; decide)
    have hrun' : (taskMachine wild).step led .receive = some t := by
      rw [Machine.run_cons, Option.bind_eq_some_iff] at hrun
      obtain ⟨u, hu, hut⟩ := hrun
      exact hu.trans hut
    obtain rfl := Option.some.inj ((h.step wild).symm.trans hrun')
    rcases hnext.state with hstate | hstate
    · exact nomatch hwaits.1.symm.trans hstate
    · exact nomatch hwaits.1.symm.trans hstate
  · intro hle
    have hpos : 0 < led.shared.actTime.toNat / led.shared.intervalTime.toNat :=
      Nat.div_pos (by omega) (by omega)
    rw [Nat.max_eq_right hpos, ← hquotient]
    have hends := h.ends wild
    rw [rounds, if_neg fun hzero => ?_] at hends
    · exact hends
    · rw [hzero] at hquotient
      exact absurd hquotient (by show 0 ≠ _; omega)

/-- Half a second of flashing in steps of 10 ms. -/
theorem led_animation_flash : ∃ led,
    (taskMachine fun _ _ => 0).run start
      [.setBlinkPattern 0xFFF, .setInterval 10, .setActTime 500,
        .send (.chgState .flash)] = some led ∧
      led.shared.actTime.toNat / led.shared.intervalTime.toNat = 50 ∧
      Ends (fun _ _ => 0) led (max 1 (led.shared.actTime.toNat /
        led.shared.intervalTime.toNat)) := by
  refine ⟨_, rfl, rfl, (@led_animation_ends_iff _ _ .flash ?_).2 ?_⟩
  · exact ⟨.inl rfl, by decide, by decide, rfl, rfl⟩
  · decide

/-- One millisecond of flashing in steps of two: the counter wraps. -/
theorem led_animation_short : ∃ led,
    (taskMachine fun _ _ => 0).run start
      [.setBlinkPattern 0xFFF, .setInterval 2, .setActTime 1,
        .send (.chgState .flash)] = some led ∧
      Commanded led .flash ∧
      ¬Ends (fun _ _ => 0) led (max 1 (led.shared.actTime.toNat /
        led.shared.intervalTime.toNat)) := by
  refine ⟨_, rfl, ⟨.inl rfl, by decide, by decide, rfl, rfl⟩, ?_⟩
  rintro ⟨frames, t, -, hrun, -, hwaits⟩
  have hstate : ((taskMachine fun _ _ => 0).run start
      [.setBlinkPattern 0xFFF, .setInterval 2, .setActTime 1,
        .send (.chgState .flash), .receive]).map Led.curState =
          some .flash := by
    decide
  obtain ⟨u, hu, hflash⟩ := Option.map_eq_some_iff.1 hstate
  obtain rfl : u = t := Option.some.inj (hu.symm.trans hrun)
  exact nomatch hwaits.1.symm.trans hflash

end EspAdf.Ports.PeriphIs31fl3216
