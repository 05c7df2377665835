import EspAdf.Verified.Machine
import EspAdf.Verified.Shadow

/-!
# `IS31FL3216.c`: a LED driver that cannot be read

The registers of the IS31FL3216 are only written.  `Is31Value` shadows the
first ten; the setters change their bits of an entry and write it, but some
functions write a register directly.  `is31fl3216_reset` clears
`IS31FL3216_REG_LED_EFFECT` that way, and the next setter of a bit of that
register brings the output current back; `is31fl3216_sample_rate_set` and
`is31fl3216_frame_value_set` do not look at the shadow either.

`shadow_matches_iff` proves, for all sequences of calls, exactly when every
entry is what was last written, and no call changes bits of another setting.
All writes succeed here.
-/

namespace EspAdf.Ports.Is31fl3216

open EspAdf.Verified

/-! ## Registers -/

abbrev Byte := BitVec 8

def ESP_OK : Int := 0
def ESP_FAIL : Int := -1

def IS31FL3216_CH_NUM_MAX : Nat := 16

/-- The registers of `is31fl3216_reg_t` that `Is31Value` shadows. -/
abbrev Reg := Fin 10

def IS31FL3216_REG_CONFIG : Reg := 0x00
def IS31FL3216_REG_LED_CTRL_H : Reg := 0x01
def IS31FL3216_REG_LED_CTRL_L : Reg := 0x02
def IS31FL3216_REG_LED_EFFECT : Reg := 0x03
def IS31FL3216_REG_CH_CONFIG : Reg := 0x04
def IS31FL3216_REG_ADC_RATE : Reg := 0x09

def IS31FL3216_REG_PWM_16 : Byte := 0x10
def IS31FL3216_REG_FRAME1_CTRL : Byte := 0x20
def IS31FL3216_REG_UPDATE : Byte := 0xB0
def IS31FL3216_REG_FRAME_DELAY : Byte := 0xB6
def IS31FL3216_REG_FRAME_START : Byte := 0xB7

/-- The address of a shadowed register. -/
def addr (reg : Reg) : Byte := BitVec.ofNat 8 reg

def Is31Value : Reg → Byte := ![0x80, 0, 0x01, 0, 0, 0, 0, 0, 0, 0]

/-- `Is31Value`, and what was last written to each register. -/
abbrev State := Shadowed Reg Byte Byte

/-- Nothing has been written. -/
def start : State where
  shadow := Is31Value
  device := fun _ => none

inductive Pwr where
  | normal | shutdown | max
  deriving DecidableEq, Repr

inductive WorkMode where
  | pwm | autoFrame | frame | max
  deriving DecidableEq, Repr

inductive CurMode where
  | rext | audio | max
  deriving DecidableEq, Repr

def IS31FL3216_CUR_0_75 : BitVec 32 := 1
def IS31FL3216_CH_ALL : BitVec 32 := 0xFFFF

/-! ## The driver -/

/-- `if (ret) return ret;` between two calls. -/
def andThen (r : Int × State) (f : State → Int × State) : Int × State :=
  if r.1 = ESP_OK then f r.2 else r

/-- `is31fl3216_write_reg`; the length is passed as a byte.  The device takes
the bytes at ascending addresses. -/
def writeReg (s : State) (regAddr : Byte) (data : List Byte) : Int × State :=
  (ESP_OK, s.pokes ((data.take (data.length % 256)).mapIdx fun k b =>
    (regAddr + BitVec.ofNat 8 k, b)))

/-- Set an entry and write it. -/
def setReg (s : State) (reg : Reg) (value : Byte) : Int × State :=
  writeReg (s.enter reg value) (addr reg) [value]

/-- `Is31Value[reg] = (Is31Value[reg] & ~mask) | bits`, and write it. -/
def readModifyWrite (s : State) (reg : Reg) (mask bits : Byte) : Int × State :=
  setReg s reg (s.shadow reg &&& ~~~mask ||| bits)

/-- `is31fl3218S_channel_duty_by_bits`, the channels that are left. -/
def channelDutyByBits (byBits : BitVec 32) (duty : Byte) :
    List Nat → State → Int × State
  | [], s => (ESP_OK, s)
  | i :: channels, s =>
      if byBits.getLsbD i then
        andThen (writeReg s (IS31FL3216_REG_PWM_16 +
            BitVec.ofNat 8 (IS31FL3216_CH_NUM_MAX - i - 1)) [duty])
          (channelDutyByBits byBits duty channels)
      else channelDutyByBits byBits duty channels s

/-- `is31fl3216_update_reg`. -/
def updateReg (s : State) : Int × State :=
  writeReg s IS31FL3216_REG_UPDATE [0]

/-- `is31fl3216_power`. -/
def power (s : State) (mode : Pwr) : Int × State :=
  match mode with
  | .shutdown => readModifyWrite s IS31FL3216_REG_CONFIG (1#8 <<< 7) (1#8 <<< 7)
  | .normal => readModifyWrite s IS31FL3216_REG_CONFIG (1#8 <<< 7) 0
  | .max => (ESP_FAIL, s)

/-- `is31fl3216_work_mode_set`. -/
def workModeSet (s : State) (mode : WorkMode) : Int × State :=
  match mode with
  | .pwm => readModifyWrite s IS31FL3216_REG_CONFIG (3#8 <<< 5) 0
  | .autoFrame =>
      readModifyWrite s IS31FL3216_REG_CONFIG (3#8 <<< 5) (1#8 <<< 5)
  | .frame => readModifyWrite s IS31FL3216_REG_CONFIG (3#8 <<< 5) (2#8 <<< 5)
  | .max => (ESP_FAIL, s)

/-- `is31fl3216_ch_duty_set`. -/
def chDutySet (s : State) (chBits : BitVec 32) (duty : Byte) : Int × State :=
  andThen (channelDutyByBits chBits duty (List.range IS31FL3216_CH_NUM_MAX) s)
    updateReg

/-- The two entries of the LED control registers, written together. -/
def setLedCtrl (s : State) (high low : Byte) : Int × State :=
  writeReg ((s.enter IS31FL3216_REG_LED_CTRL_H high).enter
    IS31FL3216_REG_LED_CTRL_L low) (addr IS31FL3216_REG_LED_CTRL_H) [high, low]

/-- `is31fl3216_ch_enable`. -/
def chEnable (s : State) (chBits : BitVec 32) : Int × State :=
  let value : BitVec 16 := (List.range IS31FL3216_CH_NUM_MAX).foldl
    (fun value i => if chBits.getLsbD i then value ||| 1#16 <<< i else value) 0
  setLedCtrl s
    (s.shadow IS31FL3216_REG_LED_CTRL_H ||| (value >>> 8).setWidth 8)
    (s.shadow IS31FL3216_REG_LED_CTRL_L ||| value.setWidth 8)

/-- `is31fl3216_ch_disable`. -/
def chDisable (s : State) (chBits : BitVec 32) : Int × State :=
  let value : BitVec 16 :=
    (s.shadow IS31FL3216_REG_LED_CTRL_H).setWidth 16 <<< 8 |||
      (s.shadow IS31FL3216_REG_LED_CTRL_L).setWidth 16
  let value := (List.range IS31FL3216_CH_NUM_MAX).foldl
    (fun value i =>
      if chBits.getLsbD i then value &&& ~~~(1#16 <<< i) else value) value
  setLedCtrl s ((value >>> 8).setWidth 8) (value.setWidth 8)

/-- `is31fl3216_cur_mode_set`. -/
def curModeSet (s : State) (mode : CurMode) : Int × State :=
  match mode with
  | .rext => readModifyWrite s IS31FL3216_REG_CONFIG (1#8 <<< 4) 0
  | .audio => readModifyWrite s IS31FL3216_REG_CONFIG (1#8 <<< 4) (1#8 <<< 4)
  | .max => (ESP_FAIL, s)

/-- `is31fl3216_cur_value_set`. -/
def curValueSet (s : State) (value : BitVec 32) : Int × State :=
  readModifyWrite s IS31FL3216_REG_LED_EFFECT (7#8 <<< 4)
    ((value <<< 4).setWidth 8)

/-- `is31fl3216_ags_value_set`. -/
def agsValueSet (s : State) (value : BitVec 32) : Int × State :=
  readModifyWrite s IS31FL3216_REG_LED_EFFECT (7#8 <<< 0)
    ((value <<< 0).setWidth 8)

/-- `is31fl3216_agc_cfg`. -/
def agcCfg (s : State) (en : BitVec 32) : Int × State :=
  readModifyWrite s IS31FL3216_REG_LED_EFFECT (1#8 <<< 3)
    ((en <<< 3).setWidth 8)

/-- `is31fl3216_cascade_mode_set`. -/
def cascadeModeSet (s : State) (mode : BitVec 32) : Int × State :=
  readModifyWrite s IS31FL3216_REG_LED_EFFECT (1#8 <<< 7)
    ((mode <<< 7).setWidth 8)

/-- `is31fl3216_sample_rate_set`. -/
def sampleRateSet (s : State) (value : BitVec 32) : Int × State :=
  writeReg s (addr IS31FL3216_REG_ADC_RATE) [value.setWidth 8]

/-- `is31fl3216_frame_time_set`. -/
def frameTimeSet (s : State) (time : BitVec 32) : Int × State :=
  writeReg s IS31FL3216_REG_FRAME_DELAY [(time <<< 5).setWidth 8]

/-- `is31fl3216_first_frame_set`. -/
def firstFrameSet (s : State) (frame : BitVec 32) : Int × State :=
  writeReg s IS31FL3216_REG_FRAME_START [(frame <<< 5).setWidth 8]

/-- Where `is31fl3216_frame_value_set` starts. -/
def startAddr (num : BitVec 32) : Byte :=
  (IS31FL3216_REG_FRAME1_CTRL.setWidth 32 + (num - 1) * 18).setWidth 8

/-- `is31fl3216_frame_value_set`, with a buffer of `len` bytes. -/
def frameValueSet (s : State) (num : BitVec 32) (data : List Byte) :
    Int × State :=
  writeReg s (startAddr num) data

/-- The first loop of `is31fl3216_reset`, the channels that are left. -/
def resetDuty : List Nat → State → Int × State
  | [], s => (ESP_OK, s)
  | i :: channels, s =>
      andThen (chDutySet s (1#32 <<< i) 0) (resetDuty channels)

/-- `is31fl3216_reset`. -/
def reset (s : State) : Int × State :=
  andThen (power s .normal) fun s =>
  andThen (resetDuty (List.range IS31FL3216_CH_NUM_MAX) s) fun s =>
  andThen (chEnable s IS31FL3216_CH_ALL) fun s =>
  andThen (writeReg s (addr IS31FL3216_REG_LED_EFFECT) [0]) fun s =>
  writeReg s (addr IS31FL3216_REG_CH_CONFIG) [0]

/-- `is31fl3216_init`; a setter that fails is only logged. -/
def init (s : State) : State :=
  (curValueSet (curModeSet (power s .normal).2 .rext).2
    IS31FL3216_CUR_0_75).2

inductive Call where
  | init
  | deinit
  | reset
  | power (mode : Pwr)
  | workModeSet (mode : WorkMode)
  | curModeSet (mode : CurMode)
  | curValueSet (value : BitVec 32)
  | agsValueSet (value : BitVec 32)
  | agcCfg (en : BitVec 32)
  | cascadeModeSet (mode : BitVec 32)
  | chEnable (chBits : BitVec 32)
  | chDisable (chBits : BitVec 32)
  | chDutySet (chBits : BitVec 32) (duty : Byte)
  | updateReg
  | sampleRateSet (value : BitVec 32)
  | frameTimeSet (time : BitVec 32)
  | firstFrameSet (frame : BitVec 32)
  | frameValueSet (num : BitVec 32) (data : List Byte)
  deriving Repr

/-- The state after a call.  `is31fl3216_deinit` writes nothing. -/
def step (s : State) : Call → State
  | .init => init s
  | .deinit => s
  | .reset => (reset s).2
  | .power mode => (power s mode).2
  | .workModeSet mode => (workModeSet s mode).2
  | .curModeSet mode => (curModeSet s mode).2
  | .curValueSet value => (curValueSet s value).2
  | .agsValueSet value => (agsValueSet s value).2
  | .agcCfg en => (agcCfg s en).2
  | .cascadeModeSet mode => (cascadeModeSet s mode).2
  | .chEnable chBits => (chEnable s chBits).2
  | .chDisable chBits => (chDisable s chBits).2
  | .chDutySet chBits duty => (chDutySet s chBits duty).2
  | .updateReg => (updateReg s).2
  | .sampleRateSet value => (sampleRateSet s value).2
  | .frameTimeSet time => (frameTimeSet s time).2
  | .firstFrameSet frame => (firstFrameSet s frame).2
  | .frameValueSet num data => (frameValueSet s num data).2

/-- Calls of the driver, one after the other. -/
def driverMachine : Machine State Call where
  step := fun s a => some (step s a)

/-! ## What a call may do -/

/-- Bits of one register. -/
def field (reg : Reg) (mask : Byte) : Reg → Byte :=
  fun i => if i = reg then mask else 0

/-- The bits of the channels, in the LED control registers. -/
def ledCtrl (chBits : BitVec 32) : Reg → Byte :=
  fun i => field IS31FL3216_REG_LED_CTRL_H ((chBits >>> 8).setWidth 8) i |||
    field IS31FL3216_REG_LED_CTRL_L (chBits.setWidth 8) i

/-- The bits that a call is there to set. -/
def owned : Call → Reg → Byte
  | .init => fun i => field IS31FL3216_REG_CONFIG (1#8 <<< 7) i |||
      field IS31FL3216_REG_CONFIG (1#8 <<< 4) i |||
      field IS31FL3216_REG_LED_EFFECT (7#8 <<< 4) i
  | .reset => fun i => field IS31FL3216_REG_CONFIG (1#8 <<< 7) i |||
      ledCtrl IS31FL3216_CH_ALL i |||
      field IS31FL3216_REG_LED_EFFECT 0xFF i |||
      field IS31FL3216_REG_CH_CONFIG 0xFF i
  | .power _ => field IS31FL3216_REG_CONFIG (1#8 <<< 7)
  | .workModeSet _ => field IS31FL3216_REG_CONFIG (3#8 <<< 5)
  | .curModeSet _ => field IS31FL3216_REG_CONFIG (1#8 <<< 4)
  | .curValueSet _ => field IS31FL3216_REG_LED_EFFECT (7#8 <<< 4)
  | .agsValueSet _ => field IS31FL3216_REG_LED_EFFECT (7#8 <<< 0)
  | .agcCfg _ => field IS31FL3216_REG_LED_EFFECT (1#8 <<< 3)
  | .cascadeModeSet _ => field IS31FL3216_REG_LED_EFFECT (1#8 <<< 7)
  | .chEnable chBits => ledCtrl chBits
  | .chDisable chBits => ledCtrl chBits
  | .sampleRateSet _ => field IS31FL3216_REG_ADC_RATE 0xFF
  | .frameValueSet _ _ => fun _ => 0xFF
  | .deinit | .chDutySet _ _ | .updateReg | .frameTimeSet _
  | .firstFrameSet _ => fun _ => 0

/-- Of the registers that have been written, no other bits have changed. -/
def Keeps (s t : State) (mask : Reg → Byte) : Prop :=
  ∀ i old, s.device (addr i) = some old →
    ∃ new, t.device (addr i) = some new ∧
      new &&& ~~~mask i = old &&& ~~~mask i

/-- After the call the entry of every register that has been written is what
was last written, and the call has changed its own bits only. -/
def Matches (s : State) (a : Call) : Prop :=
  Shadowed.Coherent addr (step s a) ∧ Keeps s (step s a) (owned a)

/-- A value too large for its bits sets no bit that was clear. -/
def NoSpill (s : State) (reg : Reg) (mask bits : Byte) : Prop :=
  ∀ old, s.device (addr reg) = some old → bits &&& ~~~mask &&& ~~~old = 0

/-- What is written directly is in the shadow already. -/
def CallOk (s : State) : Call → Prop
  | .reset => s.shadow IS31FL3216_REG_LED_EFFECT = 0
  | .sampleRateSet value => value.setWidth 8 = 0#8
  | .frameValueSet num data =>
      ∀ (k : Nat) (b : Byte), k < data.length % 256 → data[k]? = some b →
        ∀ i, addr i = startAddr num + BitVec.ofNat 8 k → s.shadow i = b
  | .curValueSet value => NoSpill s IS31FL3216_REG_LED_EFFECT (7#8 <<< 4)
      ((value <<< 4).setWidth 8)
  | .agsValueSet value => NoSpill s IS31FL3216_REG_LED_EFFECT (7#8 <<< 0)
      ((value <<< 0).setWidth 8)
  | .agcCfg en => NoSpill s IS31FL3216_REG_LED_EFFECT (1#8 <<< 3)
      ((en <<< 3).setWidth 8)
  | .cascadeModeSet mode => NoSpill s IS31FL3216_REG_LED_EFFECT (1#8 <<< 7)
      ((mode <<< 7).setWidth 8)
  | _ => True

/-- What holds between two calls. -/
structure Sound (s : State) : Prop where
  coherent : Shadowed.Coherent addr s
  chConfig : s.shadow IS31FL3216_REG_CH_CONFIG = 0
  adcRate : s.shadow IS31FL3216_REG_ADC_RATE = 0

theorem Sound.start : Sound start := ⟨nofun, rfl, rfl⟩

/-! ## Writes -/

theorem addr_injective : Function.Injective addr := by decide

theorem andThen_ok (s : State) (f : State → Int × State) :
    andThen (ESP_OK, s) f = f s := if_pos rfl

theorem writeReg_one (s : State) (regAddr b : Byte) :
    writeReg s regAddr [b] = (ESP_OK, s.poke regAddr b) := by
  show (ESP_OK, s.poke (regAddr + 0#8) b) = _
  rw [BitVec.add_zero]

theorem readModifyWrite_eq (s : State) (reg : Reg) (mask bits : Byte) :
    readModifyWrite s reg mask bits = (ESP_OK,
      Shadowed.write addr s reg (s.shadow reg &&& ~~~mask ||| bits)) :=
  writeReg_one _ _ _

theorem setLedCtrl_eq (s : State) (high low : Byte) :
    setLedCtrl s high low = (ESP_OK, Shadowed.write addr
      (Shadowed.write addr s IS31FL3216_REG_LED_CTRL_H high)
      IS31FL3216_REG_LED_CTRL_L low) := rfl

/-- A field of an old value is kept exactly if nothing is spilled into it. -/
theorem rmw_keeps_iff (old mask bits : Byte) :
    (old &&& ~~~mask ||| bits) &&& ~~~mask = old &&& ~~~mask ↔
      bits &&& ~~~mask &&& ~~~old = 0 := by
  rw [BitVec.eq_of_getLsbD_eq_iff, BitVec.eq_of_getLsbD_eq_iff]
  refine forall_congr' fun i => forall_congr' fun hi => ?_
  simp only [BitVec.getLsbD_and, BitVec.getLsbD_or, BitVec.getLsbD_not, hi,
    decide_true, Bool.true_and, BitVec.ofNat_eq_ofNat, BitVec.getLsbD_zero]
  cases old.getLsbD i <;> cases mask.getLsbD i <;> cases bits.getLsbD i <;>
    decide

theorem Keeps.trans {s t u : State} {mask mask' : Reg → Byte}
    (h : Keeps s t mask) (h' : Keeps t u mask') :
    Keeps s u fun i => mask i ||| mask' i := by
  intro i old hold
  obtain ⟨mid, hmid, heq⟩ := h i old hold
  obtain ⟨new, hnew, heq'⟩ := h' i mid hmid
  refine ⟨new, hnew, ?_⟩
  have hnot : ∀ b : Byte, b &&& ~~~(mask i ||| mask' i) =
      b &&& ~~~mask i &&& ~~~mask' i := by
    intro b
    rw [BitVec.not_or, BitVec.and_assoc]
  have hswap : ∀ b : Byte, b &&& ~~~mask i &&& ~~~mask' i =
      b &&& ~~~mask' i &&& ~~~mask i := by
    intro b
    rw [BitVec.and_assoc, BitVec.and_comm (~~~mask i), BitVec.and_assoc]
  rw [hnot, hnot, hswap new, heq', ← hswap mid, heq]

/-- Other registers are written. -/
theorem keeps_of_device {s t : State}
    (h : ∀ i, t.device (addr i) = s.device (addr i)) (mask : Reg → Byte) :
    Keeps s t mask :=
  fun i old hold => ⟨old, (h i).trans hold, rfl⟩

/-- A whole register is written. -/
theorem keeps_poke (s : State) (reg : Reg) (b : Byte) :
    Keeps s (s.poke (addr reg) b) (field reg 0xFF) := by
  intro i old hold
  by_cases hi : i = reg
  · subst hi
    refine ⟨b, Function.update_self _ _ _, ?_⟩
    rw [field, if_pos rfl]
    exact (BitVec.and_zero).trans BitVec.and_zero.symm
  · have hne : addr i ≠ addr reg := fun heq => hi (addr_injective heq)
    exact ⟨old, (Function.update_of_ne hne _ _).trans hold, rfl⟩

/-- Through a coherent shadow, a change of bits leaves the others alone
exactly if nothing is spilled. -/
theorem keeps_rmw_iff {s : State} (h : Shadowed.Coherent addr s) (reg : Reg)
    (mask bits : Byte) :
    Keeps s (readModifyWrite s reg mask bits).2 (field reg mask) ↔
      NoSpill s reg mask bits := by
  rw [readModifyWrite_eq]
  have hself : ∀ old, s.device (addr reg) = some old →
      (Shadowed.write addr s reg (s.shadow reg &&& ~~~mask ||| bits)).device
        (addr reg) = some (old &&& ~~~mask ||| bits) :=
    fun old hold => h.device_write hold fun b => b &&& ~~~mask ||| bits
  constructor
  · intro hkeeps old hold
    obtain ⟨new, hnew, heq⟩ := hkeeps reg old hold
    obtain rfl := Option.some.inj ((hself old hold).symm.trans hnew)
    rw [field, if_pos rfl] at heq
    exact (rmw_keeps_iff old mask bits).1 heq
  · intro hspill i old hold
    by_cases hi : i = reg
    · subst hi
      refine ⟨_, hself old hold, ?_⟩
      rw [field, if_pos rfl]
      exact (rmw_keeps_iff old mask bits).2 (hspill old hold)
    · have hne : addr i ≠ addr reg := fun heq => hi (addr_injective heq)
      exact ⟨old, (Shadowed.device_write_of_ne s hne _).trans hold, rfl⟩

theorem shadow_rmw_of_ne (s : State) {reg i : Reg} (h : i ≠ reg)
    (mask bits : Byte) :
    (readModifyWrite s reg mask bits).2.shadow i = s.shadow i := by
  rw [readModifyWrite_eq]
  exact Shadowed.shadow_write_of_ne s h _

/-- Bits of the field itself are never spilled. -/
theorem noSpill_of_mask {s : State} {reg : Reg} {mask bits : Byte}
    (h : bits &&& ~~~mask = 0) : NoSpill s reg mask bits := by
  intro old _
  rw [h]
  exact BitVec.zero_and

/-- A value written through the shadow. -/
theorem Sound.write {s : State} (h : Sound s) {reg : Reg} (b : Byte)
    (hch : reg ≠ IS31FL3216_REG_CH_CONFIG)
    (hadc : reg ≠ IS31FL3216_REG_ADC_RATE) :
    Sound (Shadowed.write addr s reg b) :=
  ⟨h.coherent.write addr_injective reg b,
    (Shadowed.shadow_write_of_ne s hch.symm _).trans h.chConfig,
    (Shadowed.shadow_write_of_ne s hadc.symm _).trans h.adcRate⟩

theorem Sound.rmw {s : State} (h : Sound s) {reg : Reg} (mask bits : Byte)
    (hch : reg ≠ IS31FL3216_REG_CH_CONFIG)
    (hadc : reg ≠ IS31FL3216_REG_ADC_RATE) :
    Sound (readModifyWrite s reg mask bits).2 := by
  rw [readModifyWrite_eq]
  exact h.write _ hch hadc

/-! ## The LED control registers -/

/-- A loop that treats one bit in each round. -/
theorem bitLoop {round : BitVec 16 → Nat → BitVec 16} {bit : Nat → Bool → Bool}
    (h : ∀ value i, ∀ j < 16, (round value i).getLsbD j =
      if j = i then bit i (value.getLsbD j) else value.getLsbD j)
    (value : BitVec 16) (n : Nat) {j : Nat} (hj : j < 16) :
    ((List.range n).foldl round value).getLsbD j =
      if j < n then bit j (value.getLsbD j) else value.getLsbD j := by
  induction n with
  | zero => rw [if_neg (Nat.not_lt_zero j), List.range_zero, List.foldl_nil]
  | succ n ih =>
      rw [List.range_succ, List.foldl_append, List.foldl_cons, List.foldl_nil,
        h _ _ j hj, ih]
      by_cases heq : j = n
      · subst heq
        rw [if_pos rfl, if_neg (Nat.lt_irrefl j), if_pos (Nat.lt_succ_self j)]
      · rw [if_neg heq]
        by_cases hlt : j < n
        · rw [if_pos hlt, if_pos (by omega)]
        · rw [if_neg hlt, if_neg (by omega)]

/-- The bit of a channel. -/
theorem channel_getLsbD (i : Nat) {j : Nat} (hj : j < 16) :
    (1#16 <<< i).getLsbD j = decide (j = i) := by
  rw [BitVec.getLsbD_shiftLeft, BitVec.getLsbD_one, Bool.eq_iff_iff]
  simp only [Bool.and_eq_true, Bool.not_eq_true', decide_eq_true_eq,
    decide_eq_false_iff_not]
  omega

theorem enableLoop (chBits : BitVec 32) (value : BitVec 16) {j : Nat}
    (hj : j < 16) :
    ((List.range IS31FL3216_CH_NUM_MAX).foldl (fun value i =>
      if chBits.getLsbD i then value ||| 1#16 <<< i else value)
      value).getLsbD j = (value.getLsbD j || chBits.getLsbD j) := by
  refine (@bitLoop _ (fun i b => b || chBits.getLsbD i) ?_ value _ j hj).trans
    (if_pos hj)
  intro value i j hj
  split
  · rename_i hbit
    rw [BitVec.getLsbD_or, channel_getLsbD i hj, hbit]
    by_cases heq : j = i <;> simp [heq]
  · rename_i hbit
    rw [Bool.not_eq_true] at hbit
    rw [hbit, Bool.or_false, ite_self]

theorem disableLoop (chBits : BitVec 32) (value : BitVec 16) {j : Nat}
    (hj : j < 16) :
    ((List.range IS31FL3216_CH_NUM_MAX).foldl (fun value i =>
      if chBits.getLsbD i then value &&& ~~~(1#16 <<< i) else value)
      value).getLsbD j = (value.getLsbD j && !chBits.getLsbD j) := by
  refine (@bitLoop _ (fun i b => b && !chBits.getLsbD i) ?_ value _ j hj).trans
    (if_pos hj)
  intro value i j hj
  split
  · rename_i hbit
    rw [BitVec.getLsbD_and, BitVec.getLsbD_not, channel_getLsbD i hj, hbit]
    by_cases heq : j = i <;> simp [heq, hj]
  · rename_i hbit
    rw [Bool.not_eq_true] at hbit
    rw [hbit, Bool.not_false, Bool.and_true, ite_self]

/-- Enabling channels sets their bits, register by register. -/
theorem chEnable_eq (s : State) (chBits : BitVec 32) :
    chEnable s chBits = readModifyWrite
      (readModifyWrite s IS31FL3216_REG_LED_CTRL_H
        ((chBits >>> 8).setWidth 8) ((chBits >>> 8).setWidth 8)).2
      IS31FL3216_REG_LED_CTRL_L (chBits.setWidth 8) (chBits.setWidth 8) := by
  have hset : ∀ old mask : Byte, old ||| mask = old &&& ~~~mask ||| mask := by
    intro old mask
    refine BitVec.eq_of_getLsbD_eq fun i hi => ?_
    simp only [BitVec.getLsbD_or, BitVec.getLsbD_and, BitVec.getLsbD_not, hi,
      decide_true, Bool.true_and]
    cases old.getLsbD i <;> cases mask.getLsbD i <;> rfl
  have hvalue : (List.range IS31FL3216_CH_NUM_MAX).foldl (fun value i =>
      if chBits.getLsbD i then value ||| 1#16 <<< i else value) 0 =
        chBits.setWidth 16 := by
    refine BitVec.eq_of_getLsbD_eq fun i hi => ?_
    rw [enableLoop chBits 0 hi, BitVec.getLsbD_setWidth]
    simp [hi]
  have hhigh : (chBits.setWidth 16 >>> 8).setWidth 8 =
      (chBits >>> 8).setWidth 8 := by
    refine BitVec.eq_of_getLsbD_eq fun i hi => ?_
    simp only [BitVec.getLsbD_setWidth, BitVec.getLsbD_ushiftRight]
    simp [show 8 + i < 16 by omega]
  have hlow : (chBits.setWidth 16).setWidth 8 = chBits.setWidth 8 :=
    BitVec.setWidth_setWidth_of_le _ (by decide)
  rw [chEnable]
  rw [hvalue, hhigh, hlow, setLedCtrl_eq, readModifyWrite_eq,
    readModifyWrite_eq, hset, hset (s.shadow IS31FL3216_REG_LED_CTRL_L)]
  rfl

/-- Disabling channels clears their bits, register by register. -/
theorem chDisable_eq (s : State) (chBits : BitVec 32) :
    chDisable s chBits = readModifyWrite
      (readModifyWrite s IS31FL3216_REG_LED_CTRL_H
        ((chBits >>> 8).setWidth 8) 0).2
      IS31FL3216_REG_LED_CTRL_L (chBits.setWidth 8) 0 := by
  have hvalue : ∀ value : BitVec 16,
      (List.range IS31FL3216_CH_NUM_MAX).foldl (fun value i =>
        if chBits.getLsbD i then value &&& ~~~(1#16 <<< i) else value) value =
          value &&& ~~~(chBits.setWidth 16) := by
    intro value
    refine BitVec.eq_of_getLsbD_eq fun i hi => ?_
    rw [disableLoop chBits value hi, BitVec.getLsbD_and, BitVec.getLsbD_not,
      BitVec.getLsbD_setWidth]
    simp [hi]
  have hhigh : ∀ high low : Byte,
      (((high.setWidth 16 <<< 8 ||| low.setWidth 16) &&&
        ~~~(chBits.setWidth 16)) >>> 8).setWidth 8 =
          high &&& ~~~((chBits >>> 8).setWidth 8) ||| 0 := by
    intro high low
    refine BitVec.eq_of_getLsbD_eq fun i hi => ?_
    simp [hi, show 8 + i < 16 by omega]
  have hlow : ∀ high low : Byte,
      ((high.setWidth 16 <<< 8 ||| low.setWidth 16) &&&
        ~~~(chBits.setWidth 16)).setWidth 8 =
          low &&& ~~~(chBits.setWidth 8) ||| 0 := by
    intro high low
    refine BitVec.eq_of_getLsbD_eq fun i hi => ?_
    simp [hi]
  rw [chDisable]
  rw [hvalue, hhigh, hlow, setLedCtrl_eq, readModifyWrite_eq,
    readModifyWrite_eq]
  rfl

/-- Both registers are changed, in the bits of the channels. -/
theorem Sound.ledCtrl {s : State} (h : Sound s) (chBits : BitVec 32)
    {high low : Byte} (hhigh : high &&& ~~~((chBits >>> 8).setWidth 8) = 0)
    (hlow : low &&& ~~~(chBits.setWidth 8) = 0) :
    Sound (readModifyWrite (readModifyWrite s IS31FL3216_REG_LED_CTRL_H
        ((chBits >>> 8).setWidth 8) high).2 IS31FL3216_REG_LED_CTRL_L
        (chBits.setWidth 8) low).2 ∧
      Keeps s (readModifyWrite (readModifyWrite s IS31FL3216_REG_LED_CTRL_H
        ((chBits >>> 8).setWidth 8) high).2 IS31FL3216_REG_LED_CTRL_L
        (chBits.setWidth 8) low).2 (ledCtrl chBits) := by
  have hmid : Sound (readModifyWrite s IS31FL3216_REG_LED_CTRL_H
      ((chBits >>> 8).setWidth 8) high).2 :=
    h.rmw _ _ (by decide) (by decide)
  refine ⟨hmid.rmw _ _ (by decide) (by decide), ?_⟩
  exact ((keeps_rmw_iff h.coherent _ _ _).2 (noSpill_of_mask hhigh)).trans
    ((keeps_rmw_iff hmid.coherent _ _ _).2 (noSpill_of_mask hlow))

theorem Sound.chEnable {s : State} (h : Sound s) (chBits : BitVec 32) :
    Sound (chEnable s chBits).2 ∧
      Keeps s (Is31fl3216.chEnable s chBits).2 (Is31fl3216.ledCtrl chBits) := by
  have hnot : ∀ mask : Byte, mask &&& ~~~mask = 0 := BitVec.and_not_self
  rw [chEnable_eq]
  exact h.ledCtrl chBits (hnot _) (hnot _)

theorem Sound.chDisable {s : State} (h : Sound s) (chBits : BitVec 32) :
    Sound (chDisable s chBits).2 ∧
      Keeps s (Is31fl3216.chDisable s chBits).2
        (Is31fl3216.ledCtrl chBits) := by
  rw [chDisable_eq]
  exact h.ledCtrl chBits BitVec.zero_and BitVec.zero_and

/-! ## Registers without a shadow -/

/-- The call succeeds, and touches no register that is shadowed. -/
def Aside (s : State) (r : Int × State) : Prop :=
  r.1 = ESP_OK ∧ r.2.shadow = s.shadow ∧
    ∀ i, r.2.device (addr i) = s.device (addr i)

theorem Aside.refl (s : State) : Aside s (ESP_OK, s) :=
  ⟨rfl, rfl, fun _ => rfl⟩

theorem Aside.andThen {s : State} {r : Int × State}
    {f : State → Int × State} (h : Aside s r) (hf : ∀ t, Aside t (f t)) :
    Aside s (andThen r f) := by
  obtain ⟨hok, hshadow, hdevice⟩ := h
  obtain ⟨hok', hshadow', hdevice'⟩ := hf r.2
  rw [Is31fl3216.andThen, if_pos hok]
  exact ⟨hok', hshadow'.trans hshadow, fun i =>
    (hdevice' i).trans (hdevice i)⟩

theorem aside_writeReg (s : State) {regAddr : Byte} (b : Byte)
    (hout : ∀ i, addr i ≠ regAddr) : Aside s (writeReg s regAddr [b]) := by
  rw [writeReg_one]
  exact ⟨rfl, rfl, fun i => Function.update_of_ne (hout i) _ _⟩

/-- Nothing that is shadowed changes. -/
theorem Sound.aside {s : State} (h : Sound s) {r : Int × State}
    (hr : Aside s r) : Sound r.2 := by
  obtain ⟨-, hshadow, hdevice⟩ := hr
  refine ⟨fun i b hb => ?_, ?_, ?_⟩
  · rw [hdevice] at hb
    rw [hshadow]
    exact h.coherent i b hb
  · rw [hshadow]
    exact h.chConfig
  · rw [hshadow]
    exact h.adcRate

theorem aside_updateReg (s : State) : Aside s (updateReg s) :=
  aside_writeReg s 0 (by decide)

theorem aside_channelDuty (byBits : BitVec 32) (duty : Byte)
    (channels : List Nat) (s : State) :
    Aside s (channelDutyByBits byBits duty channels s) := by
  have hout : ∀ k : Fin 16, ∀ i,
      addr i ≠ IS31FL3216_REG_PWM_16 + BitVec.ofNat 8 k := by
    decide
  induction channels generalizing s with
  | nil => exact Aside.refl s
  | cons i channels ih =>
      rw [channelDutyByBits]
      split
      · refine Aside.andThen ?_ ih
        have hlt : IS31FL3216_CH_NUM_MAX - i - 1 < 16 := by
          rw [IS31FL3216_CH_NUM_MAX]
          omega
        exact aside_writeReg s duty (hout ⟨_, hlt⟩)
      · exact ih s

theorem aside_chDutySet (s : State) (chBits : BitVec 32) (duty : Byte) :
    Aside s (chDutySet s chBits duty) :=
  (aside_channelDuty chBits duty _ s).andThen aside_updateReg

theorem aside_resetDuty (channels : List Nat) (s : State) :
    Aside s (resetDuty channels s) := by
  induction channels generalizing s with
  | nil => exact Aside.refl s
  | cons i channels ih => exact (aside_chDutySet s _ 0).andThen ih

/-! ## Reset and frames -/

/-- `is31fl3216_reset` clears two registers after the setters that it calls. -/
theorem reset_eq {s : State} (h : Sound s) :
    ∃ t, (reset s).2 = t.pokes [(addr IS31FL3216_REG_LED_EFFECT, 0),
        (addr IS31FL3216_REG_CH_CONFIG, 0)] ∧
      Sound t ∧
      Keeps s t (fun i => field IS31FL3216_REG_CONFIG (1#8 <<< 7) i |||
        ledCtrl IS31FL3216_CH_ALL i) ∧
      ∀ i, IS31FL3216_REG_LED_EFFECT ≤ i → t.shadow i = s.shadow i := by
  have hpower : power s .normal = (ESP_OK, (power s .normal).2) := by
    rw [power, readModifyWrite_eq]
  have hsound : Sound (power s .normal).2 := h.rmw _ _ (by decide) (by decide)
  have hkeeps : Keeps s (power s .normal).2
      (field IS31FL3216_REG_CONFIG (1#8 <<< 7)) :=
    (keeps_rmw_iff h.coherent _ _ _).2 (noSpill_of_mask (by decide))
  have hne : ∀ i, IS31FL3216_REG_LED_EFFECT ≤ i →
      ∀ reg < IS31FL3216_REG_LED_EFFECT, i ≠ reg :=
    fun i hi reg hreg => (lt_of_lt_of_le hreg hi).ne'
  have hrest : ∀ i, IS31FL3216_REG_LED_EFFECT ≤ i →
      (power s .normal).2.shadow i = s.shadow i :=
    fun i hi => shadow_rmw_of_ne s (hne i hi _ (by decide)) _ _
  generalize (power s .normal).2 = u at hpower hsound hkeeps hrest
  have hduty := aside_resetDuty (List.range IS31FL3216_CH_NUM_MAX) u
  have hduty' := hduty
  obtain ⟨hok, hshadow, hdevice⟩ := hduty'
  have hsound' := hsound.aside hduty
  obtain ⟨v, hv⟩ : ∃ v, resetDuty (List.range IS31FL3216_CH_NUM_MAX) u =
      (ESP_OK, v) := ⟨_, Prod.ext hok rfl⟩
  rw [hv] at hshadow hdevice hsound'
  obtain ⟨henable, hkeepsEnable⟩ := hsound'.chEnable IS31FL3216_CH_ALL
  refine ⟨(chEnable v IS31FL3216_CH_ALL).2, ?_, henable, ?_, ?_⟩
  · have hchEnable : chEnable v IS31FL3216_CH_ALL =
        (ESP_OK, (chEnable v IS31FL3216_CH_ALL).2) := rfl
    rw [reset, hpower, andThen_ok, hv, andThen_ok, hchEnable, andThen_ok,
      writeReg_one, andThen_ok, writeReg_one]
    rfl
  · have hkeeps' : Keeps s v (field IS31FL3216_REG_CONFIG (1#8 <<< 7)) := by
      intro i old hold
      obtain ⟨new, hnew, heq⟩ := hkeeps i old hold
      exact ⟨new, (hdevice i).trans hnew, heq⟩
    exact hkeeps'.trans hkeepsEnable
  · intro i hi
    rw [chEnable_eq, shadow_rmw_of_ne _ (hne i hi _ (by decide)),
      shadow_rmw_of_ne _ (hne i hi _ (by decide))]
    exact (congrFun hshadow i).trans (hrest i hi)

/-- A reset keeps the shadow coherent exactly if the entry of
`IS31FL3216_REG_LED_EFFECT` is clear. -/
theorem matches_reset_iff {s : State} (h : Sound s) :
    Matches s .reset ↔ CallOk s .reset := by
  obtain ⟨t, ht, hsound, hkeeps, hshadow⟩ := reset_eq h
  have hcoherent : Shadowed.Coherent addr (reset s).2 ↔
      s.shadow IS31FL3216_REG_LED_EFFECT = 0 := by
    rw [ht, Shadowed.coherent_pokes_iff hsound.coherent (by decide),
      ← hshadow _ le_rfl]
    constructor
    · exact fun hall => hall _ (List.mem_cons_self) _ rfl
    · intro hclear w hw i hi
      rcases List.mem_pair.1 hw with rfl | rfl
      · obtain rfl := addr_injective hi
        exact hclear
      · obtain rfl := addr_injective hi
        exact hsound.chConfig
  refine Iff.trans (and_iff_left ?_) hcoherent
  show Keeps s (reset s).2 _
  rw [ht]
  exact (hkeeps.trans (keeps_poke t IS31FL3216_REG_LED_EFFECT 0)).trans
    (keeps_poke _ IS31FL3216_REG_CH_CONFIG 0)

/-- What `is31fl3216_frame_value_set` writes. -/
def frameWrites (num : BitVec 32) (data : List Byte) : List (Byte × Byte) :=
  (data.take (data.length % 256)).mapIdx fun k b =>
    (startAddr num + BitVec.ofNat 8 k, b)

theorem mem_frameWrites {num : BitVec 32} {data : List Byte}
    {w : Byte × Byte} : w ∈ frameWrites num data ↔
      ∃ k b, k < data.length % 256 ∧ data[k]? = some b ∧
        w = (startAddr num + BitVec.ofNat 8 k, b) := by
  rw [frameWrites, List.mem_mapIdx]
  constructor
  · rintro ⟨k, hk, rfl⟩
    rw [List.length_take] at hk
    refine ⟨k, data[k], by omega, List.getElem?_eq_getElem _, ?_⟩
    rw [List.getElem_take]
  · rintro ⟨k, b, hk, hb, rfl⟩
    obtain ⟨hlt, rfl⟩ := List.getElem?_eq_some_iff.1 hb
    refine ⟨k, by rw [List.length_take]; omega, ?_⟩
    rw [List.getElem_take]

/-- At most 255 bytes are written, to different addresses. -/
theorem nodup_frameWrites (num : BitVec 32) (data : List Byte) :
    ((frameWrites num data).map Prod.fst).Nodup := by
  rw [List.nodup_iff_pairwise_ne, List.pairwise_iff_getElem]
  intro i j hi hj hlt heq
  rw [List.length_map, frameWrites, List.length_mapIdx,
    List.length_take] at hi hj
  rw [List.getElem_map, List.getElem_map] at heq
  simp only [frameWrites, List.getElem_mapIdx] at heq
  have hofNat := congrArg BitVec.toNat ((BitVec.add_right_inj _).1 heq)
  rw [BitVec.toNat_ofNat, BitVec.toNat_ofNat] at hofNat
  omega

theorem matches_frame_iff {s : State} (h : Sound s) (num : BitVec 32)
    (data : List Byte) :
    Matches s (.frameValueSet num data) ↔
      CallOk s (.frameValueSet num data) := by
  have hnodup := nodup_frameWrites num data
  have hkeeps : Keeps s (s.pokes (frameWrites num data)) fun _ => 0xFF := by
    intro i old hold
    have hand : ∀ b : Byte, b &&& ~~~0xFF = 0 := fun b => BitVec.and_zero
    by_cases hin : addr i ∈ (frameWrites num data).map Prod.fst
    · obtain ⟨w, hw, hwi⟩ := List.mem_map.1 hin
      have hdevice := Shadowed.device_pokes_of_mem (s := s) hnodup hw
      rw [hwi] at hdevice
      exact ⟨w.2, hdevice, (hand _).trans (hand _).symm⟩
    · exact ⟨old, (Shadowed.device_pokes_of_notMem hin).trans hold, rfl⟩
  refine (and_iff_left hkeeps).trans ?_
  show Shadowed.Coherent addr (s.pokes (frameWrites num data)) ↔ _
  rw [Shadowed.coherent_pokes_iff h.coherent hnodup]
  constructor
  · intro hall k b hk hb i hi
    exact hall _ (mem_frameWrites.2 ⟨k, b, hk, hb, rfl⟩) i hi
  · intro hok w hw i hi
    obtain ⟨k, b, hk, hb, rfl⟩ := mem_frameWrites.1 hw
    exact hok k b hk hb i hi

/-! ## Every call -/

/-- A setter of bits of a register. -/
theorem Sound.matches_rmw_iff {s : State} (h : Sound s) {reg : Reg}
    (mask bits : Byte) (hch : reg ≠ IS31FL3216_REG_CH_CONFIG)
    (hadc : reg ≠ IS31FL3216_REG_ADC_RATE) :
    Shadowed.Coherent addr (readModifyWrite s reg mask bits).2 ∧
        Keeps s (readModifyWrite s reg mask bits).2 (field reg mask) ↔
      NoSpill s reg mask bits :=
  (and_iff_right (h.rmw mask bits hch hadc).coherent).trans
    (keeps_rmw_iff h.coherent reg mask bits)

/-- A setter that has bits for every mode. -/
theorem Sound.matches_mode {s : State} (h : Sound s) {reg : Reg}
    {mask bits : Byte} (hch : reg ≠ IS31FL3216_REG_CH_CONFIG)
    (hadc : reg ≠ IS31FL3216_REG_ADC_RATE) (hbits : bits &&& ~~~mask = 0) :
    Shadowed.Coherent addr (readModifyWrite s reg mask bits).2 ∧
      Keeps s (readModifyWrite s reg mask bits).2 (field reg mask) :=
  (h.matches_rmw_iff mask bits hch hadc).2 (noSpill_of_mask hbits)

theorem Sound.matches_same {s : State} (h : Sound s) (mask : Reg → Byte) :
    Shadowed.Coherent addr s ∧ Keeps s s mask :=
  ⟨h.coherent, keeps_of_device (fun _ => rfl) mask⟩

theorem Sound.matches_aside {s : State} (h : Sound s) {r : Int × State}
    (hr : Aside s r) (mask : Reg → Byte) :
    Shadowed.Coherent addr r.2 ∧ Keeps s r.2 mask :=
  ⟨(h.aside hr).coherent, keeps_of_device hr.2.2 mask⟩

theorem Sound.init {s : State} (h : Sound s) :
    Sound (init s) ∧ Keeps s (Is31fl3216.init s) (owned .init) := by
  have hpower : Sound (power s .normal).2 := h.rmw _ _ (by decide) (by decide)
  have hmode : Sound (curModeSet (power s .normal).2 .rext).2 :=
    hpower.rmw _ _ (by decide) (by decide)
  refine ⟨hmode.rmw _ _ (by decide) (by decide), ?_⟩
  have hkeeps : ∀ {t : State}, Sound t → ∀ (reg : Reg) (mask bits : Byte),
      bits &&& ~~~mask = 0 →
      Keeps t (readModifyWrite t reg mask bits).2 (field reg mask) :=
    fun ht reg mask bits hbits =>
      (keeps_rmw_iff ht.coherent reg mask bits).2 (noSpill_of_mask hbits)
  exact ((hkeeps h _ _ _ (by decide)).trans
    (hkeeps hpower _ _ _ (by decide))).trans (hkeeps hmode _ _ _ (by decide))

theorem matches_iff {s : State} (h : Sound s) (a : Call) :
    Matches s a ↔ CallOk s a := by
  cases a with
  | init => exact iff_of_true ⟨h.init.1.coherent, h.init.2⟩ trivial
  | deinit => exact iff_of_true (h.matches_same _) trivial
  | reset => exact matches_reset_iff h
  | power mode =>
      refine iff_of_true ?_ trivial
      cases mode with
      | normal => exact h.matches_mode (by decide) (by decide) (by decide)
      | shutdown => exact h.matches_mode (by decide) (by decide) (by decide)
      | max => exact h.matches_same _
  | workModeSet mode =>
      refine iff_of_true ?_ trivial
      cases mode with
      | pwm => exact h.matches_mode (by decide) (by decide) (by decide)
      | autoFrame => exact h.matches_mode (by decide) (by decide) (by decide)
      | frame => exact h.matches_mode (by decide) (by decide) (by decide)
      | max => exact h.matches_same _
  | curModeSet mode =>
      refine iff_of_true ?_ trivial
      cases mode with
      | rext => exact h.matches_mode (by decide) (by decide) (by decide)
      | audio => exact h.matches_mode (by decide) (by decide) (by decide)
      | max => exact h.matches_same _
  | curValueSet value =>
      exact h.matches_rmw_iff _ _ (by decide) (by decide)
  | agsValueSet value =>
      exact h.matches_rmw_iff _ _ (by decide) (by decide)
  | agcCfg en => exact h.matches_rmw_iff _ _ (by decide) (by decide)
  | cascadeModeSet mode =>
      exact h.matches_rmw_iff _ _ (by decide) (by decide)
  | chEnable chBits =>
      obtain ⟨hsound, hkeeps⟩ := h.chEnable chBits
      exact iff_of_true ⟨hsound.coherent, hkeeps⟩ trivial
  | chDisable chBits =>
      obtain ⟨hsound, hkeeps⟩ := h.chDisable chBits
      exact iff_of_true ⟨hsound.coherent, hkeeps⟩ trivial
  | chDutySet chBits duty =>
      exact iff_of_true (h.matches_aside (aside_chDutySet s chBits duty) _)
        trivial
  | updateReg =>
      exact iff_of_true (h.matches_aside (aside_updateReg s) _) trivial
  | frameTimeSet time =>
      have hout : ∀ i, addr i ≠ IS31FL3216_REG_FRAME_DELAY := by decide
      exact iff_of_true (h.matches_aside (aside_writeReg s _ hout) _) trivial
  | firstFrameSet frame =>
      have hout : ∀ i, addr i ≠ IS31FL3216_REG_FRAME_START := by decide
      exact iff_of_true (h.matches_aside (aside_writeReg s _ hout) _) trivial
  | frameValueSet num data => exact matches_frame_iff h num data
  | sampleRateSet value =>
      have hstep : step s (.sampleRateSet value) =
          s.pokes [(addr IS31FL3216_REG_ADC_RATE, value.setWidth 8)] := by
        rw [step, sampleRateSet, writeReg_one]
        rfl
      rw [Matches, hstep]
      refine (and_iff_left (keeps_poke s IS31FL3216_REG_ADC_RATE _)).trans ?_
      have hnodup : ([(addr IS31FL3216_REG_ADC_RATE,
          value.setWidth 8)].map Prod.fst).Nodup := List.nodup_singleton _
      rw [Shadowed.coherent_pokes_iff h.coherent hnodup]
      constructor
      · intro hall
        have heq := hall _ List.mem_cons_self IS31FL3216_REG_ADC_RATE rfl
        exact heq.symm.trans h.adcRate
      · intro hzero w hw i hi
        obtain rfl := List.mem_singleton.1 hw
        obtain rfl := addr_injective hi
        exact h.adcRate.trans hzero.symm

/-- No call sets the entries that only direct writes would need. -/
theorem shadow_step {s : State} (h : Sound s) (a : Call) {i : Reg}
    (hi : IS31FL3216_REG_LED_EFFECT < i) :
    (step s a).shadow i = s.shadow i := by
  have hne : ∀ reg ≤ IS31FL3216_REG_LED_EFFECT, i ≠ reg :=
    fun reg hreg => (lt_of_le_of_lt hreg hi).ne'
  have hrmw : ∀ (s : State) (reg : Reg) (mask bits : Byte),
      reg ≤ IS31FL3216_REG_LED_EFFECT →
      (readModifyWrite s reg mask bits).2.shadow i = s.shadow i :=
    fun s reg mask bits hreg => shadow_rmw_of_ne s (hne reg hreg) mask bits
  cases a with
  | init =>
      exact (hrmw _ _ _ _ (by decide)).trans
        ((hrmw _ _ _ _ (by decide)).trans (hrmw _ _ _ _ (by decide)))
  | deinit => rfl
  | reset =>
      obtain ⟨t, ht, -, -, hshadow⟩ := reset_eq h
      rw [step, ht, Shadowed.shadow_pokes, hshadow i hi.le]
  | power mode => cases mode <;> first | rfl | exact hrmw _ _ _ _ (by decide)
  | workModeSet mode =>
      cases mode <;> first | rfl | exact hrmw _ _ _ _ (by decide)
  | curModeSet mode =>
      cases mode <;> first | rfl | exact hrmw _ _ _ _ (by decide)
  | curValueSet value => exact hrmw _ _ _ _ (by decide)
  | agsValueSet value => exact hrmw _ _ _ _ (by decide)
  | agcCfg en => exact hrmw _ _ _ _ (by decide)
  | cascadeModeSet mode => exact hrmw _ _ _ _ (by decide)
  | chEnable chBits =>
      rw [step, chEnable_eq, hrmw _ _ _ _ (by decide), hrmw _ _ _ _ (by decide)]
  | chDisable chBits =>
      rw [step, chDisable_eq, hrmw _ _ _ _ (by decide),
        hrmw _ _ _ _ (by decide)]
  | chDutySet chBits duty =>
      exact congrFun (aside_chDutySet s chBits duty).2.1 i
  | updateReg => rfl
  | sampleRateSet value => rfl
  | frameTimeSet time => rfl
  | firstFrameSet frame => rfl
  | frameValueSet num data =>
      exact congrFun (Shadowed.shadow_pokes s (frameWrites num data)) i

theorem Sound.step {s : State} (h : Sound s) {a : Call} (hok : CallOk s a) :
    Sound (step s a) :=
  ⟨((matches_iff h a).2 hok).1,
    (shadow_step h a (by decide)).trans h.chConfig,
    (shadow_step h a (by decide)).trans h.adcRate⟩

/-! ## The result -/

/-- **The shadow matches the device** after every call of a sequence, and
every call changes its own bits only, exactly if no reset finds an output
current or gain in the shadow, nothing else is written past it with another
value, and no value is too large for its bits. -/
theorem shadow_matches_iff (as : List Call) :
    driverMachine.Meets Matches start as ↔
      driverMachine.Meets CallOk start as := by
  have hstep : ∀ s a t, Sound s → CallOk s a →
      driverMachine.step s a = some t → Sound t := by
    intro s a t h hok hs
    obtain rfl := Option.some.inj hs
    exact h.step hok
  have hiff : ∀ s a, Sound s → (Matches s a ↔ CallOk s a) :=
    fun _ a h => matches_iff h a
  exact Machine.meets_congr hiff hstep Sound.start as

/-- `is31fl3216_init` sets the output current in the shadow, and
`is31fl3216_reset` leaves it there. -/
theorem shadow_reset :
    ¬driverMachine.Meets Matches start [.init, .reset] := by
  rintro ⟨-, hnext⟩
  have hcoherent := (hnext _ rfl).1.1
  have heffect := hcoherent IS31FL3216_REG_LED_EFFECT 0 (by decide +kernel)
  exact absurd heffect (by decide +kernel)

end EspAdf.Ports.Is31fl3216
