import EspAdf.Verified.Machine

/-!
# `periph_touch.c`: touch events between a timer and a task

`touch_timer_handler` runs in the timer task.  It lets `esp_touch_read` clear
the result and collect the status changes of all pads in it, and queues a
command if there are any.  The peripheral task takes the command and runs
`_touch_run`, which sends an event for every bit of the result it finds.

There is one result for all commands.  So a command that is taken late sends
what a later tick has collected, and what the earlier one had collected is
lost.

The steps below are those of the two tasks: clearing the result, one pad after
the other, queueing the command, taking it, and sending what one mask holds.
The history variables list what was detected and what was reported.
`delivered_once` proves that every change is reported once as long as a tick
finds everything reported and does not write a mask that is yet to be sent.
-/

namespace EspAdf.Ports.PeriphTouch

open EspAdf.Verified

/-! ## Reading the pads -/

def TOUCHPAD_READ_INTERVAL_MS : Int := 30 * 4

def UPDATE_THRESHOLD_PERIOD_MS : Int := 200

/-- `esp_touch_item_t`; the values are of type `uint16_t`. -/
structure TouchItem where
  touchNum : Nat
  lastTapTick : Int
  updateThresholdTick : Int
  lastReadTick : Int
  lastReadValue : Nat
  untouchValue : Nat
  thresholdValue : Nat
  longTapped : Bool
  tapped : Bool
  deriving DecidableEq, Repr

/-- The settings in `struct esp_touch`. -/
structure Touch where
  longTapTimeMs : Int
  tapThresholdPercent : Int
  deriving DecidableEq, Repr

/-- What happens to a pad; `TOUCH_UNCHANGE` is `none`. -/
inductive Event where
  | tap
  | release
  | longTap
  | longRelease
  deriving DecidableEq, Repr

/-- A percentage, stored in a `uint16_t`. -/
def Touch.threshold (touch : Touch) (untouchValue : Nat) : Nat :=
  ((untouchValue * touch.tapThresholdPercent).tdiv 100 % 65536).toNat

/-- The first value read is taken for that of an untouched pad. -/
def calibrate (touch : Touch) (item : TouchItem) : TouchItem :=
  if item.untouchValue = 0 then
    { item with
      untouchValue := item.lastReadValue
      thresholdValue := touch.threshold item.lastReadValue }
  else item

def updateTapped (item : TouchItem) : TouchItem :=
  if item.tapped = false ∧ item.lastReadValue < item.thresholdValue then
    { item with tapped := true }
  else if item.tapped = true ∧ item.lastReadValue > item.thresholdValue then
    { item with tapped := false }
  else item

def updateThreshold (touch : Touch) (tick : Int) (item : TouchItem) :
    TouchItem :=
  if tick - item.updateThresholdTick > UPDATE_THRESHOLD_PERIOD_MS ∧
      item.tapped = false then
    let untouchValue := (item.untouchValue + item.lastReadValue) % 65536 / 2
    { item with
      updateThresholdTick := tick
      untouchValue := untouchValue
      thresholdValue := touch.threshold untouchValue }
  else item

/-- The end of `touch_get_state`; `now` is what `tick_get` returns in it. -/
def classify (touch : Touch) (now : Int) (item : TouchItem) :
    TouchItem × Option Event :=
  if item.lastTapTick = 0 ∧ item.tapped = true then
    ({ item with lastTapTick := now, longTapped := false }, some .tap)
  else if item.tapped = false ∧ item.lastTapTick ≠ 0 ∧
      now - item.lastTapTick > touch.longTapTimeMs then
    ({ item with lastTapTick := 0, longTapped := false }, some .longRelease)
  else if item.tapped = false ∧ item.lastTapTick ≠ 0 then
    ({ item with lastTapTick := 0, longTapped := false }, some .release)
  else if item.longTapped = false ∧ item.tapped = true ∧
      now - item.lastTapTick > touch.longTapTimeMs then
    ({ item with longTapped := true }, some .longTap)
  else (item, none)

/-- `touch_get_state`; `read` is what `touch_pad_read_filtered` returns. -/
def touchGetState (touch : Touch) (item : TouchItem) (tick now : Int)
    (read : Option Nat) : TouchItem × Option Event :=
  if tick - item.lastReadTick < TOUCHPAD_READ_INTERVAL_MS then (item, none)
  else
    let item := { item with lastReadTick := tick }
    match read with
    | none => (item, none)
    | some value =>
        let item := { item with lastReadValue := value }
        classify touch now
          (updateThreshold touch tick (updateTapped (calibrate touch item)))

/-! ## Masks -/

/-- `touch_result_t`. -/
structure TouchResult where
  tapMask : Nat
  releaseMask : Nat
  longTapMask : Nat
  longReleaseMask : Nat
  deriving DecidableEq, Repr

def TouchResult.mask (result : TouchResult) : Event → Nat
  | .tap => result.tapMask
  | .release => result.releaseMask
  | .longTap => result.longTapMask
  | .longRelease => result.longReleaseMask

/-- `mask |= 0x01 << touch_num`. -/
def setBit (mask touchNum : Nat) : Nat := mask ||| 1 <<< touchNum

def TouchResult.add (result : TouchResult) (e : Event) (touchNum : Nat) :
    TouchResult :=
  match e with
  | .tap => { result with tapMask := setBit result.tapMask touchNum }
  | .release =>
      { result with releaseMask := setBit result.releaseMask touchNum }
  | .longTap =>
      { result with longTapMask := setBit result.longTapMask touchNum }
  | .longRelease =>
      { result with
        longReleaseMask := setBit result.longReleaseMask touchNum }

/-- The number of bits of a mask: `int` without its sign. -/
def MASK_BITS : Nat := 31

/-- The loop of `touch_send_event`: the pads for which it sends. -/
def sendLoop : Nat → Nat → Nat → List Nat
  | 0, _, _ => []
  | n + 1, mask, touchNum =>
      if mask = 0 then []
      else
        (if mask &&& 1 = 1 then [touchNum] else []) ++
          sendLoop n (mask >>> 1) (touchNum + 1)

/-- The pads of a mask. -/
def pads (mask : Nat) : List Nat := sendLoop MASK_BITS mask 0

/-! ## The two tasks -/

/-- `esp_touch_read` in progress. -/
structure Scan where
  tick : Int
  pos : Nat
  changed : Bool
  deriving DecidableEq, Repr

/-- The masks in the order of `_touch_run`. -/
def touchRun : List Event := [.tap, .release, .longTap, .longRelease]

structure Sys where
  /-- `touch_list`. -/
  items : List TouchItem
  result : TouchResult
  scan : Option Scan
  /-- The number of commands in the queue. -/
  queue : Nat
  /-- The masks that `_touch_run` is still to send. -/
  run : List Event
  /-- History: the changes that `esp_touch_read` has found. -/
  detected : List (Event × Nat)
  /-- History: the events that were sent. -/
  reported : List (Event × Nat)
  deriving DecidableEq, Repr

inductive Act where
  /-- The timer fires, and `esp_touch_read` clears the result. -/
  | tick (tick : Int)
  /-- `esp_touch_read` goes on to the next pad. -/
  | pad (now : Int) (read : Option Nat)
  /-- `esp_touch_read` returns, and a command is queued. -/
  | done
  /-- The peripheral task takes a command. -/
  | recv
  /-- The next `touch_send_event` of `_touch_run`. -/
  | send
  deriving DecidableEq, Repr

/-- The result with one more change. -/
def TouchResult.record (result : TouchResult) (touchNum : Nat) :
    Option Event → TouchResult
  | none => result
  | some e => result.add e touchNum

def step (touch : Touch) (s : Sys) : Act → Option Sys
  | .tick tick =>
      match s.scan with
      | some _ => none
      | none => some { s with
          result := ⟨0, 0, 0, 0⟩
          scan := some ⟨tick, 0, false⟩ }
  | .pad now read =>
      match s.scan with
      | none => none
      | some scan =>
          match s.items[scan.pos]? with
          | none => none
          | some item =>
              let r := touchGetState touch item scan.tick now read
              some { s with
                items := s.items.set scan.pos r.1
                result := s.result.record item.touchNum r.2
                scan := some
                  ⟨scan.tick, scan.pos + 1, scan.changed || r.2.isSome⟩
                detected := s.detected ++
                  (r.2.map fun e => (e, item.touchNum)).toList }
  | .done =>
      match s.scan with
      | none => none
      | some scan =>
          if scan.pos < s.items.length then none
          else some { s with
            scan := none
            queue := if scan.changed then s.queue + 1 else s.queue }
  | .recv =>
      if s.run ≠ [] ∨ s.queue = 0 then none
      else some { s with queue := s.queue - 1, run := touchRun }
  | .send =>
      match s.run with
      | [] => none
      | e :: es => some { s with
          run := es
          reported := s.reported ++
            (pads (s.result.mask e)).map fun touchNum => (e, touchNum) }

def touchMachine (touch : Touch) : Machine Sys Act := ⟨step touch⟩

/-- Before the first tick: `esp_touch_init` has made an item for every bit of
`touch_mask`. -/
structure Starts (s : Sys) : Prop where
  items : ∃ touchMask, s.items.map TouchItem.touchNum = pads touchMask
  scan : s.scan = none
  queue : s.queue = 0
  run : s.run = []
  detected : s.detected = []
  reported : s.reported = []

/-! ## The property and the condition -/

/-- Neither task has anything to do. -/
def Sys.Idle (s : Sys) : Prop :=
  s.scan = none ∧ s.queue = 0 ∧ s.run = []

/-- No event is reported that was not detected, none twice, and when the tasks
are idle all are. -/
structure Delivered (s : Sys) : Prop where
  once : ∀ e, s.reported.count e ≤ s.detected.count e
  all : s.Idle → s.reported.Perm s.detected

/-- The condition on a step: a tick starts when no command is queued and
nothing is left to be sent, and it writes no mask that `_touch_run` is still
to send. -/
def StepOk (touch : Touch) (s : Sys) : Act → Prop
  | .tick _ => s.queue = 0 ∧ ∀ e ∈ s.run, s.result.mask e = 0
  | .pad now read => ∀ scan ∈ s.scan, ∀ item ∈ s.items[scan.pos]?,
      ∀ e ∈ (touchGetState touch item scan.tick now read).2, e ∉ s.run
  | .done => True
  | .recv => True
  | .send => True

instance (touch : Touch) (s : Sys) (a : Act) : Decidable (StepOk touch s a) :=
  match a with
  | .tick _ => inferInstanceAs (Decidable (_ ∧ _))
  | .pad now read => inferInstanceAs (Decidable (∀ scan ∈ s.scan,
      ∀ item ∈ s.items[scan.pos]?,
      ∀ e ∈ (touchGetState touch item scan.tick now read).2, e ∉ s.run))
  | .done => inferInstanceAs (Decidable True)
  | .recv => inferInstanceAs (Decidable True)
  | .send => inferInstanceAs (Decidable True)

/-! ## The bits of a mask -/

theorem mem_sendLoop (n k : Nat) : ∀ {mask touchNum : Nat},
    k ∈ sendLoop n mask touchNum ↔
      touchNum ≤ k ∧ k < touchNum + n ∧
        mask.testBit (k - touchNum) = true := by
  induction n with
  | zero =>
      intro mask touchNum
      rw [sendLoop]
      refine iff_of_false List.not_mem_nil fun h => ?_
      omega
  | succ n ih =>
      intro mask touchNum
      rw [sendLoop]
      by_cases hzero : mask = 0
      · rw [if_pos hzero, hzero]
        simp
      · rw [if_neg hzero, List.mem_append, ih, Nat.testBit_shiftRight]
        have hbit : mask &&& 1 = 1 ↔ mask.testBit 0 = true := by
          rw [Nat.and_one_is_mod, Nat.testBit_zero, decide_eq_true_eq]
        have hhead : k ∈ (if mask &&& 1 = 1 then [touchNum] else []) ↔
            k = touchNum ∧ mask.testBit 0 = true := by
          rw [← hbit]
          split <;> simp_all
        rw [hhead]
        rcases Nat.lt_trichotomy k touchNum with hlt | heq | hgt
        · constructor
          · rintro (h | h) <;> omega
          · intro h
            omega
        · subst heq
          simp
        · have hshift : 1 + (k - (touchNum + 1)) = k - touchNum := by omega
          rw [hshift]
          constructor
          · rintro (h | ⟨_, h, hk⟩)
            · omega
            · exact ⟨by omega, by omega, hk⟩
          · rintro ⟨_, h, hk⟩
            exact .inr ⟨by omega, by omega, hk⟩

theorem mem_pads {k mask : Nat} :
    k ∈ pads mask ↔ k < MASK_BITS ∧ mask.testBit k = true := by
  rw [pads, mem_sendLoop]
  simp

theorem nodup_sendLoop (n : Nat) : ∀ mask touchNum : Nat,
    (sendLoop n mask touchNum).Nodup := by
  induction n with
  | zero => exact fun _ _ => List.nodup_nil
  | succ n ih =>
      intro mask touchNum
      rw [sendLoop]
      split
      · exact List.nodup_nil
      · rw [List.nodup_append]
        refine ⟨?_, ih _ _, ?_⟩
        · split <;> simp
        · intro a ha b hb hab
          have hb' := ((mem_sendLoop n b).1 hb).1
          have ha' : a = touchNum := by
            split at ha
            · exact List.mem_singleton.1 ha
            · cases ha
          omega

theorem nodup_pads (mask : Nat) : (pads mask).Nodup := nodup_sendLoop _ _ _

theorem testBit_setBit (mask j k : Nat) :
    (setBit mask j).testBit k = (mask.testBit k || decide (j = k)) := by
  rw [setBit, Nat.testBit_or, Nat.one_shiftLeft, Nat.testBit_two_pow]

theorem pads_zero : pads 0 = [] := by
  rfl

/-! ## What is in a result -/

@[simp] theorem mask_zero (e : Event) :
    (⟨0, 0, 0, 0⟩ : TouchResult).mask e = 0 := by
  cases e <;> rfl

theorem mask_add_self (r : TouchResult) (e : Event) (k : Nat) :
    (r.add e k).mask e = setBit (r.mask e) k := by
  cases e <;> rfl

theorem mask_add_ne (r : TouchResult) {e e' : Event} (h : e' ≠ e) (k : Nat) :
    (r.add e k).mask e' = r.mask e' := by
  cases e <;> cases e' <;> first | rfl | exact absurd rfl h

/-- The events for the bits of some masks. -/
def events (r : TouchResult) (es : List Event) : List (Event × Nat) :=
  es.flatMap fun e => (pads (r.mask e)).map fun k => (e, k)

theorem mem_events {r : TouchResult} {es : List Event} {e : Event} {k : Nat} :
    (e, k) ∈ events r es ↔
      e ∈ es ∧ k < MASK_BITS ∧ (r.mask e).testBit k = true := by
  simp only [events, List.mem_flatMap, List.mem_map, Prod.mk.injEq, mem_pads]
  constructor
  · rintro ⟨e', he', k', hk', rfl, rfl⟩
    exact ⟨he', hk'⟩
  · rintro ⟨he, hk⟩
    exact ⟨e, he, k, hk, rfl, rfl⟩

theorem nodup_events {r : TouchResult} {es : List Event} (h : es.Nodup) :
    (events r es).Nodup := by
  rw [events, List.nodup_flatMap]
  refine ⟨fun e _ => ?_, h.imp fun {a b} hne => ?_⟩
  · exact (nodup_pads _).map fun _ _ heq => (Prod.mk.inj heq).2
  · intro x hx hx'
    rcases List.mem_map.1 hx with ⟨k, -, rfl⟩
    rcases List.mem_map.1 hx' with ⟨k', -, heq⟩
    exact hne (Prod.mk.inj heq).1.symm

theorem mem_touchRun (e : Event) : e ∈ touchRun := by
  cases e <;> decide

theorem nodup_touchRun : touchRun.Nodup := by
  decide

/-- A change that is added appears once more. -/
theorem events_add {r : TouchResult} {e : Event} {k : Nat}
    (hk : k < MASK_BITS) (hnew : (r.mask e).testBit k = false) :
    (events (r.add e k) touchRun).Perm ((e, k) :: events r touchRun) := by
  have hnot : (e, k) ∉ events r touchRun := by
    rw [mem_events, hnew]
    simp
  rw [List.perm_ext_iff_of_nodup (nodup_events nodup_touchRun)
    (List.nodup_cons.2 ⟨hnot, nodup_events nodup_touchRun⟩)]
  rintro ⟨e', k'⟩
  rw [List.mem_cons, mem_events, mem_events, Prod.mk.injEq]
  simp only [mem_touchRun, true_and]
  by_cases he : e' = e
  · subst he
    rw [mask_add_self, testBit_setBit, Bool.or_eq_true, decide_eq_true_eq]
    constructor
    · rintro ⟨hk', hold | rfl⟩
      · exact .inr ⟨hk', hold⟩
      · exact .inl ⟨rfl, rfl⟩
    · rintro (⟨-, rfl⟩ | ⟨hk', hold⟩)
      · exact ⟨hk, .inr rfl⟩
      · exact ⟨hk', .inl hold⟩
  · rw [mask_add_ne r he]
    simp [he]

theorem events_of_zero {r : TouchResult} {es : List Event}
    (h : ∀ e ∈ es, r.mask e = 0) : events r es = [] := by
  rw [events, List.flatMap_eq_nil_iff]
  intro e he
  rw [h e he, pads_zero, List.map_nil]

theorem events_cons (r : TouchResult) (e : Event) (es : List Event) :
    events r (e :: es) =
      ((pads (r.mask e)).map fun k => (e, k)) ++ events r es := rfl

/-! ## The invariant -/

@[simp]
theorem touchNum_calibrate (touch : Touch) (item : TouchItem) :
    (calibrate touch item).touchNum = item.touchNum := by
  rw [calibrate]
  split <;> rfl

@[simp]
theorem touchNum_updateTapped (item : TouchItem) :
    (updateTapped item).touchNum = item.touchNum := by
  rw [updateTapped]
  split
  · rfl
  · split <;> rfl

@[simp]
theorem touchNum_updateThreshold (touch : Touch) (tick : Int)
    (item : TouchItem) :
    (updateThreshold touch tick item).touchNum = item.touchNum := by
  rw [updateThreshold]
  split <;> rfl

@[simp]
theorem touchNum_classify (touch : Touch) (now : Int) (item : TouchItem) :
    (classify touch now item).1.touchNum = item.touchNum := by
  rw [classify]
  split
  · rfl
  · split
    · rfl
    · split
      · rfl
      · split <;> rfl

/-- Reading a pad does not change which pad it is. -/
theorem touchNum_touchGetState (touch : Touch) (item : TouchItem)
    (tick now : Int) (read : Option Nat) :
    (touchGetState touch item tick now read).1.touchNum = item.touchNum := by
  rw [touchGetState]
  split
  · rfl
  · cases read with
    | none => rfl
    | some value => simp

theorem touchNums_set {items : List TouchItem} {i : Nat}
    {item item' : TouchItem} (hitem : items[i]? = some item)
    (hnum : item'.touchNum = item.touchNum) :
    (items.set i item').map TouchItem.touchNum =
      items.map TouchItem.touchNum := by
  rcases List.getElem?_eq_some_iff.1 hitem with ⟨hlt, heq⟩
  rw [List.map_set, hnum, ← heq, ← List.getElem_map TouchItem.touchNum]
  exact List.set_getElem_self (by rw [List.length_map]; exact hlt)

/-- What was detected and is not reported yet. -/
def Sys.outstanding (s : Sys) : List (Event × Nat) :=
  if s.queue ≠ 0 ∨ s.scan.isSome = true then events s.result touchRun
  else events s.result s.run

theorem outstanding_over {s : Sys}
    (h : s.queue ≠ 0 ∨ s.scan.isSome = true) :
    s.outstanding = events s.result touchRun := by
  rw [Sys.outstanding, if_pos h]

theorem outstanding_quiet {s : Sys} (hqueue : s.queue = 0)
    (hscan : s.scan = none) : s.outstanding = events s.result s.run := by
  rw [Sys.outstanding, if_neg]
  rw [hqueue, hscan]
  simp

structure Inv (s : Sys) : Prop where
  nodup : (s.items.map TouchItem.touchNum).Nodup
  bound : ∀ k ∈ s.items.map TouchItem.touchNum, k < MASK_BITS
  /-- The pads that are still to be read have no bit. -/
  unread : ∀ scan ∈ s.scan, ∀ i, scan.pos ≤ i →
    ∀ k ∈ (s.items.map TouchItem.touchNum)[i]?,
      ∀ e, (s.result.mask e).testBit k = false
  unchanged : ∀ scan ∈ s.scan, s.queue = 0 ∧
    (scan.changed = false → ∀ e, s.result.mask e = 0)
  one : s.queue ≤ 1
  /-- A run that a command or a tick has overtaken has nothing left. -/
  rest : s.queue ≠ 0 ∨ s.scan.isSome = true →
    ∀ e ∈ s.run, s.result.mask e = 0
  account : s.detected.Perm (s.reported ++ s.outstanding)

theorem Starts.inv {s : Sys} (h : Starts s) : Inv s := by
  rcases h.items with ⟨touchMask, hitems⟩
  refine ⟨?_, ?_, ?_, ?_, ?_, ?_, ?_⟩
  · rw [hitems]
    exact nodup_pads touchMask
  · intro k hk
    rw [hitems] at hk
    exact (mem_pads.1 hk).1
  · intro scan hscan
    rw [h.scan] at hscan
    cases hscan
  · intro scan hscan
    rw [h.scan] at hscan
    cases hscan
  · rw [h.queue]
    exact Nat.zero_le 1
  · intro _ e he
    rw [h.run] at he
    cases he
  · rw [h.detected, h.reported, outstanding_quiet h.queue h.scan, h.run]
    exact .refl []

theorem Inv.delivered {s : Sys} (h : Inv s) : Delivered s where
  once := by
    intro e
    rw [h.account.count_eq, List.count_append]
    exact Nat.le_add_right _ _
  all := by
    rintro ⟨hscan, hqueue, hrun⟩
    have hacc := h.account
    rw [outstanding_quiet hqueue hscan, hrun] at hacc
    simpa [events] using hacc.symm

/-! ## The steps -/

variable {touch : Touch}

theorem Inv.tick {s t : Sys} (h : Inv s) {tick : Int}
    (hok : StepOk touch s (.tick tick))
    (hs : step touch s (.tick tick) = some t) : Inv t := by
  rcases hok with ⟨hqueue, hrun⟩
  cases hscan : s.scan with
  | some scan =>
      simp only [step, hscan, reduceCtorEq] at hs
  | none =>
      simp only [step, hscan, Option.some.injEq] at hs
      subst hs
      refine ⟨h.nodup, h.bound, ?_, ?_, h.one, ?_, ?_⟩
      · intro scan _ i _ k _ e
        rw [mask_zero, Nat.zero_testBit]
      · exact fun scan _ => ⟨hqueue, fun _ e => mask_zero e⟩
      · exact fun _ e _ => mask_zero e
      · have hacc := h.account
        rw [outstanding_quiet hqueue hscan, events_of_zero hrun] at hacc
        rw [outstanding_over (.inr rfl), events_of_zero fun e _ => mask_zero e]
        exact hacc

/-- The masks that a change does not touch stay zero. -/
theorem mask_record {r : TouchResult} {k : Nat} {status : Option Event}
    {e : Event} (hne : ∀ e' ∈ status, e ≠ e') :
    (r.record k status).mask e = r.mask e := by
  cases status with
  | none => rfl
  | some e' => exact mask_add_ne r (hne e' rfl) k

theorem testBit_record {r : TouchResult} {j k : Nat} (hne : j ≠ k)
    (status : Option Event) (e : Event) :
    ((r.record j status).mask e).testBit k = (r.mask e).testBit k := by
  cases status with
  | none => rfl
  | some e' =>
      by_cases he : e = e'
      · subst he
        rw [TouchResult.record, mask_add_self, testBit_setBit,
          decide_eq_false hne, Bool.or_false]
      · rw [TouchResult.record, mask_add_ne r he]

/-- The events of a result with one more change. -/
theorem events_record {r : TouchResult} {k : Nat} (hk : k < MASK_BITS)
    (hnew : ∀ e, (r.mask e).testBit k = false) (status : Option Event) :
    (events (r.record k status) touchRun).Perm
      (events r touchRun ++ (status.map fun e => (e, k)).toList) := by
  cases status with
  | none =>
      rw [Option.map_none, Option.toList_none, List.append_nil]
      exact .refl _
  | some e =>
      have hadd := events_add hk (hnew e)
      exact hadd.trans (List.perm_append_singleton _ _).symm

/-- The pads behind the one at `i` have other numbers. -/
theorem Inv.touchNum_ne {s : Sys} (h : Inv s) {i j k l : Nat} (hij : i < j)
    (hk : (s.items.map TouchItem.touchNum)[i]? = some k)
    (hl : (s.items.map TouchItem.touchNum)[j]? = some l) : k ≠ l := by
  rintro rfl
  have hlt := (List.getElem?_eq_some_iff.1 hk).1
  have hsame := (List.getElem?_inj hlt h.nodup).1 (hk.trans hl.symm)
  omega

theorem Inv.pad {s t : Sys} (h : Inv s) {now : Int} {read : Option Nat}
    (hok : StepOk touch s (.pad now read))
    (hs : step touch s (.pad now read) = some t) : Inv t := by
  cases hscan : s.scan with
  | none => simp only [step, hscan, reduceCtorEq] at hs
  | some scan =>
      cases hitem : s.items[scan.pos]? with
      | none => simp only [step, hscan, hitem, reduceCtorEq] at hs
      | some item =>
          simp only [step, hscan, hitem, Option.some.injEq] at hs
          have hfree := hok scan hscan item hitem
          have hnum := touchNum_touchGetState touch item scan.tick now read
          generalize touchGetState touch item scan.tick now read = r
            at hs hfree hnum
          rcases r with ⟨item', status⟩
          simp only at hs hfree hnum
          have hk : (s.items.map TouchItem.touchNum)[scan.pos]? =
              some item.touchNum := by
            rw [List.getElem?_map, hitem]
            rfl
          have hnums : (s.items.set scan.pos item').map TouchItem.touchNum =
              s.items.map TouchItem.touchNum := touchNums_set hitem hnum
          have hbound : item.touchNum < MASK_BITS :=
            h.bound _ (List.mem_of_getElem? hk)
          have hunset : ∀ e, (s.result.mask e).testBit item.touchNum = false :=
            h.unread scan hscan scan.pos (Nat.le_refl _) _ hk
          have hrest : ∀ e ∈ s.run, s.result.mask e = 0 :=
            h.rest (.inr (by rw [hscan]; rfl))
          have hqueue := h.unchanged scan hscan
          have hacc := h.account
          rw [outstanding_over (.inr (by rw [hscan]; rfl))] at hacc
          subst hs
          refine ⟨?_, ?_, ?_, ?_, h.one, ?_, ?_⟩
          · rw [hnums]
            exact h.nodup
          · rw [hnums]
            exact h.bound
          · intro scan' hscan' i hi k hki e
            cases hscan'
            rw [hnums] at hki
            have hne : item.touchNum ≠ k := h.touchNum_ne hi hk hki
            rw [testBit_record hne]
            exact h.unread scan hscan i (Nat.le_of_succ_le hi) k hki e
          · intro scan' hscan'
            cases hscan'
            refine ⟨hqueue.1, fun hchanged e => ?_⟩
            rw [Bool.or_eq_false_iff] at hchanged
            have hnone : status = none := by simpa using hchanged.2
            rw [hnone]
            exact hqueue.2 hchanged.1 e
          · intro _ e he
            rw [mask_record]
            · exact hrest e he
            · rintro e' he' rfl
              exact hfree e he' he
          · rw [outstanding_over (.inr rfl)]
            refine (hacc.append_right _).trans ?_
            rw [List.append_assoc]
            exact (events_record hbound hunset status).symm.append_left _

theorem Inv.done {s t : Sys} (h : Inv s)
    (hs : step touch s .done = some t) : Inv t := by
  cases hscan : s.scan with
  | none => simp only [step, hscan, reduceCtorEq] at hs
  | some scan =>
      simp only [step, hscan] at hs
      split at hs
      · cases hs
      · cases hs
        have hunchanged := h.unchanged scan hscan
        have hrest := h.rest (.inr (by rw [hscan]; rfl))
        have hacc := h.account
        rw [outstanding_over (.inr (by rw [hscan]; rfl))] at hacc
        refine ⟨h.nodup, h.bound, fun _ hn => (nomatch hn),
          fun _ hn => (nomatch hn), ?_, fun _ => hrest, ?_⟩
        · simp only [hunchanged.1]
          split <;> omega
        · cases hchanged : scan.changed with
          | true =>
              rw [outstanding_over (.inl (Nat.succ_ne_zero _))]
              exact hacc
          | false =>
              have hzero := hunchanged.2 hchanged
              rw [events_of_zero fun e _ => hzero e] at hacc
              rw [outstanding_quiet, events_of_zero fun e _ => hzero e]
              · exact hacc
              · exact hunchanged.1
              · rfl

theorem Inv.recv {s t : Sys} (h : Inv s)
    (hs : step touch s .recv = some t) : Inv t := by
  simp only [step] at hs
  split at hs
  · cases hs
  · rename_i hrun
    cases hs
    rw [not_or, not_not] at hrun
    have hone : s.queue = 1 := by
      have hle := h.one
      omega
    have hscan : s.scan = none := by
      cases hscan : s.scan with
      | none => rfl
      | some scan =>
          have hzero := (h.unchanged scan hscan).1
          omega
    have hacc := h.account
    rw [outstanding_over (.inl (by omega))] at hacc
    refine ⟨h.nodup, h.bound, h.unread, fun scan hsc => ?_, ?_, ?_, ?_⟩
    · rw [hscan] at hsc
      cases hsc
    · simp only [hone]
      omega
    · simp [hone, hscan]
    · rw [outstanding_quiet]
      · exact hacc
      · simp [hone]
      · exact hscan

theorem Inv.send {s t : Sys} (h : Inv s)
    (hs : step touch s .send = some t) : Inv t := by
  cases hrun : s.run with
  | nil => simp only [step, hrun, reduceCtorEq] at hs
  | cons e es =>
      simp only [step, hrun, Option.some.injEq] at hs
      subst hs
      refine ⟨h.nodup, h.bound, h.unread, h.unchanged, h.one, ?_, ?_⟩
      · intro hover e' he'
        exact h.rest hover e' (by rw [hrun]; exact List.mem_cons_of_mem e he')
      · have hacc := h.account
        unfold Sys.outstanding at hacc ⊢
        by_cases hover : s.queue ≠ 0 ∨ s.scan.isSome = true
        · rw [if_pos hover] at hacc ⊢
          rw [h.rest hover e (by rw [hrun]; exact List.mem_cons_self),
            pads_zero, List.map_nil, List.append_nil]
          exact hacc
        · rw [if_neg hover] at hacc ⊢
          rw [hrun, events_cons, ← List.append_assoc] at hacc
          exact hacc

theorem Inv.step {s t : Sys} {a : Act} (h : Inv s) (hok : StepOk touch s a)
    (hs : PeriphTouch.step touch s a = some t) : Inv t := by
  cases a with
  | tick tick => exact h.tick hok hs
  | pad now read => exact h.pad hok hs
  | done => exact h.done hs
  | recv => exact h.recv hs
  | send => exact h.send hs

/-- **Every change is reported once**, in every run in which the ticks start
when everything is reported and write no mask that is still to be sent. -/
theorem delivered_once (touch : Touch) {start s : Sys} (hstart : Starts start)
    (h : (touchMachine touch).Reaches (StepOk touch) start s) :
    Delivered s :=
  (h.invariant hstart.inv fun _ _ _ hu hok hs => hu.step hok hs).delivered

/-! ## Two runs -/

def defaultTouch : Touch := ⟨2000, 70⟩

def untouched (touchNum : Nat) : TouchItem :=
  ⟨touchNum, 0, 0, 0, 0, 0, 0, false, false⟩

/-- Pads 0 and 1 are used. -/
def fresh : Sys :=
  ⟨[untouched 0, untouched 1], ⟨0, 0, 0, 0⟩, none, 0, [], [], []⟩

theorem fresh_starts : Starts fresh :=
  ⟨⟨3, by decide⟩, rfl, rfl, rfl, rfl, rfl⟩

/-- A tick that reads these values from the two pads. -/
def readPads (tick : Int) (value0 value1 : Nat) : List Act :=
  [.tick tick, .pad tick (some value0), .pad tick (some value1), .done]

def runCommand : List Act := [.recv, .send, .send, .send, .send]

/-- Pad 0 is tapped, and pad 1 after that was reported. -/
theorem delivered_in_time : ∃ s, (touchMachine defaultTouch).run fresh
      (readPads 1000 900 900 ++ readPads 1150 500 900 ++ runCommand ++
        readPads 1300 500 500 ++ runCommand) = some s ∧
    Delivered s ∧ s.reported = [(.tap, 0), (.tap, 1)] := by
  have h : ((touchMachine defaultTouch).runIf (StepOk defaultTouch) fresh
      (readPads 1000 900 900 ++ readPads 1150 500 900 ++ runCommand ++
        readPads 1300 500 500 ++ runCommand)).map Sys.reported =
      some [(.tap, 0), (.tap, 1)] := by
    decide +kernel
  rcases Option.map_eq_some_iff.1 h with ⟨s, hs, hreported⟩
  exact ⟨s, (Machine.meets_of_runIf hs).1,
    delivered_once defaultTouch fresh_starts (Machine.reaches_of_runIf hs),
    hreported⟩

/-- The tick that finds pad 1 tapped comes before the command for pad 0 is
taken: pad 1 is reported twice and pad 0 never. -/
theorem delivered_late : ∃ s, (touchMachine defaultTouch).run fresh
      (readPads 1000 900 900 ++ readPads 1150 500 900 ++
        readPads 1300 500 500 ++ runCommand ++ runCommand) = some s ∧
    s.detected = [(.tap, 0), (.tap, 1)] ∧
    s.reported = [(.tap, 1), (.tap, 1)] ∧ ¬Delivered s := by
  have h : ((touchMachine defaultTouch).run fresh
      (readPads 1000 900 900 ++ readPads 1150 500 900 ++
        readPads 1300 500 500 ++ runCommand ++ runCommand)).map (fun s =>
        (s.detected, s.reported)) =
      some ([(.tap, 0), (.tap, 1)], [(.tap, 1), (.tap, 1)]) := by
    decide +kernel
  simp only [Option.map_eq_some_iff, Prod.mk.injEq] at h
  rcases h with ⟨s, hrun, hdetected, hreported⟩
  refine ⟨s, hrun, hdetected, hreported, fun hdel => ?_⟩
  have honce := hdel.once (.tap, 1)
  rw [hdetected, hreported] at honce
  exact absurd honce (by decide)

end EspAdf.Ports.PeriphTouch
