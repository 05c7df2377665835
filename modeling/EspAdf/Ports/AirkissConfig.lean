import EspAdf.Verified.Machine
import EspAdf.Verified.Orbit

/-!
# `airkiss_config.c`: the search for a channel

`airkiss_start` scans twice and marks the entries of a table of 17 channels on
which it has seen a strong access point.  `airkiss_get_next_channel_idx` goes
round the table from the entry it returned last until one is marked, for
`airkiss_start` and then again and again for a timer.  If nothing is marked
the loop does not end; and a scan may see nothing, or may not be made.

`channel_search_iff` proves that in every run exactly this goes wrong.  An
entry is never unmarked, so what one scan has seen serves the next.
-/

namespace EspAdf.Ports.AirkissConfig

open EspAdf.Verified

/-! ## Data -/

def ESP_FAIL : Int := -1

abbrev AIRKISS_MAX_CHANNEL_NUM : Nat := 17
def AIRKISS_MIN_RSSI : Int := -90

/-- `wifi_second_chan_t`. -/
inductive SecondChan where
  | none | above | below
  deriving DecidableEq, Repr

/-- `airkiss_chan_t`. -/
structure Chan where
  apExist : Bool
  primaryChan : Nat
  secondChan : SecondChan
  deriving DecidableEq, Repr

abbrev ChanIdx := Fin AIRKISS_MAX_CHANNEL_NUM

abbrev ChanTab := Vector Chan AIRKISS_MAX_CHANNEL_NUM

/-- `s_airkiss_chan_tab`. -/
def sAirkissChanTab : ChanTab :=
  #v[⟨false, 1, .above⟩, ⟨false, 2, .above⟩, ⟨false, 3, .above⟩,
    ⟨false, 4, .above⟩, ⟨false, 5, .above⟩, ⟨false, 5, .below⟩,
    ⟨false, 6, .above⟩, ⟨false, 6, .below⟩, ⟨false, 7, .above⟩,
    ⟨false, 7, .below⟩, ⟨false, 8, .below⟩, ⟨false, 9, .below⟩,
    ⟨false, 10, .below⟩, ⟨false, 11, .below⟩, ⟨false, 12, .below⟩,
    ⟨false, 13, .below⟩, ⟨false, 14, .none⟩]

/-- What is used of `wifi_ap_record_t`. -/
structure ApRecord where
  primary : Nat
  rssi : Int
  deriving DecidableEq, Repr

/-- What a scan meets: the number of access points, whether the records can be
allocated, and the records. -/
structure Scan where
  apNum : Nat
  alloc : Bool
  records : List ApRecord
  deriving DecidableEq, Repr

/-- What `airkiss_start` meets: whether the context and the scan configuration
can be allocated, what `airkiss_init` returns, and the scans. -/
structure Env where
  ctx : Bool
  init : Int
  config : Bool
  first : Scan
  second : Scan
  deriving DecidableEq, Repr

/-- The variables of the module. -/
structure Airkiss where
  snifferStopFlag : Bool
  curChanIdx : ChanIdx
  chanTab : ChanTab
  /-- `channel_change_timer` is not `NULL`. -/
  channelChangeTimer : Bool
  /-- The timers that run. -/
  timers : Nat
  /-- The last argument of `esp_wifi_set_channel`. -/
  channel : Option (Nat × SecondChan)
  deriving DecidableEq

def start : Airkiss where
  snifferStopFlag := true
  curChanIdx := 16
  chanTab := sAirkissChanTab
  channelChangeTimer := false
  timers := 0
  channel := none

/-! ## The search -/

/-- The next `s_cur_chan_idx`. -/
def nextChanIdx (cur : ChanIdx) : ChanIdx :=
  if cur.val ≥ AIRKISS_MAX_CHANNEL_NUM - 1 then 0 else cur + 1

/-- `airkiss_get_next_channel_idx`, in at most `fuel` iterations. -/
def airkissGetNextChannelIdx (tab : ChanTab) : Nat → ChanIdx → Option ChanIdx
  | 0, _ => none
  | fuel + 1, cur =>
      let cur := nextChanIdx cur
      if tab[cur].apExist = false then airkissGetNextChannelIdx tab fuel cur
      else some cur

/-! ## The scan -/

/-- A record, for one entry. -/
def markRecord (chan : Chan) (record : ApRecord) : Chan :=
  if record.rssi < AIRKISS_MIN_RSSI then chan
  else if record.primary = chan.primaryChan then { chan with apExist := true }
  else chan

/-- The loop over the records, for one entry. -/
def markChan (records : List ApRecord) (chan : Chan) : Chan :=
  if chan.apExist then chan else records.foldl markRecord chan

/-- One of the scans. -/
def scanOnce (tab : ChanTab) (scan : Scan) : ChanTab :=
  if scan.apNum = 0 then tab
  else if scan.alloc then tab.map (markChan (scan.records.take scan.apNum))
  else tab

/-- `airkiss_wifi_scan_ap`. -/
def airkissWifiScanAp (tab : ChanTab) (env : Env) : ChanTab :=
  if env.config then scanOnce (scanOnce tab env.first) env.second else tab

/-! ## The calls -/

/-- Go to the next channel.  A search that does not end within the table does
not end at all (`search_ends_iff`). -/
def Airkiss.nextChannel (s : Airkiss) : Option Airkiss :=
  (airkissGetNextChannelIdx s.chanTab AIRKISS_MAX_CHANNEL_NUM
    s.curChanIdx).map fun idx => { s with
      curChanIdx := idx
      channel := some (s.chanTab[idx].primaryChan, s.chanTab[idx].secondChan) }

/-- `airkiss_start`, if it returns. -/
def airkissStart (s : Airkiss) (env : Env) : Option (Int × Airkiss) :=
  if !env.ctx then some (ESP_FAIL, s)
  else if env.init < 0 then some (ESP_FAIL, s)
  else
    let s : Airkiss := { s with chanTab := airkissWifiScanAp s.chanTab env }
    s.nextChannel.map fun s => (env.init, { s with
      channelChangeTimer := true
      timers := s.timers + 1
      snifferStopFlag := false })

/-- `channel_change_callback`, if it returns. -/
def channelChangeCallback (s : Airkiss) : Option Airkiss :=
  if s.snifferStopFlag then some s else s.nextChannel

/-- `esp_timer_stop` and `esp_timer_delete`. -/
def Airkiss.stopTimer (s : Airkiss) : Airkiss :=
  if s.channelChangeTimer then
    { s with channelChangeTimer := false, timers := s.timers - 1 }
  else s

inductive Act where
  | start (env : Env)
  /-- A timer expires. -/
  | timer
  /-- `airkiss_stop`. -/
  | stop
  /-- `airkiss_recv` returns `AIRKISS_STATUS_CHANNEL_LOCKED`. -/
  | locked
  /-- It returns `AIRKISS_STATUS_COMPLETE`. -/
  | complete
  deriving DecidableEq, Repr

def step (s : Airkiss) : Act → Option Airkiss
  | .start env => (airkissStart s env).map Prod.snd
  | .timer => if s.timers = 0 then none else channelChangeCallback s
  | .stop => some ({ s with snifferStopFlag := true } : Airkiss).stopTimer
  | .locked => if s.snifferStopFlag then some s else some s.stopTimer
  | .complete =>
      if s.snifferStopFlag then some s
      else some { s with snifferStopFlag := true }

/-- The calls, the timers and the sniffer. -/
def airkissMachine : Machine Airkiss Act := ⟨step⟩

/-! ## The property and the condition -/

/-- `k` calls of `airkiss_get_next_channel_idx`, one after the other. -/
def successive (tab : ChanTab) (fuel : Nat) : Nat → ChanIdx → Option ChanIdx
  | 0, cur => some cur
  | k + 1, cur =>
      (airkissGetNextChannelIdx tab fuel cur).bind (successive tab fuel k)

/-- The entries with `ap_exist`, in cyclic order from the one behind `cur`. -/
def existing (tab : ChanTab) (cur : ChanIdx) : List ChanIdx :=
  ((List.range AIRKISS_MAX_CHANNEL_NUM).map fun k =>
    cur + Fin.ofNat AIRKISS_MAX_CHANNEL_NUM (k + 1)).filter
      fun idx => tab[idx].apExist

/-- The calls return, and visit these entries over and over. -/
def Visits (tab : ChanTab) (cur : ChanIdx) : Prop :=
  ∃ fuel, ∀ k, ∃ idx, successive tab fuel (k + 1) cur = some idx ∧
    (existing tab cur)[k % (existing tab cur).length]? = some idx

/-- `airkiss_start` comes to the scan. -/
def Env.Scans (env : Env) : Prop := env.ctx = true ∧ 0 ≤ env.init

/-- Wherever the next channel is looked for, the search is as it should be. -/
def SearchOk (s : Airkiss) : Act → Prop
  | .start env => env.Scans →
      Visits (airkissWifiScanAp s.chanTab env) s.curChanIdx
  | .timer => s.timers ≠ 0 → s.snifferStopFlag = false →
      Visits s.chanTab s.curChanIdx
  | _ => True

/-- A scan sees a strong access point on a channel of the table. -/
def Scan.Sees (scan : Scan) : Prop :=
  scan.alloc = true ∧ ∃ record ∈ scan.records.take scan.apNum,
    AIRKISS_MIN_RSSI ≤ record.rssi ∧ 1 ≤ record.primary ∧ record.primary ≤ 14

/-- An entry is marked. -/
def Marked (tab : ChanTab) : Prop := ∃ idx : ChanIdx, tab[idx].apExist = true

/-- A start finds an entry marked, or sees an access point. -/
def ScanOk (s : Airkiss) : Act → Prop
  | .start env => env.Scans → Marked s.chanTab ∨
      env.config = true ∧ (env.first.Sees ∨ env.second.Sees)
  | _ => True

/-- What holds between two calls. -/
structure Sound (s : Airkiss) : Prop where
  primaryChan : ∀ idx : ChanIdx,
    s.chanTab[idx].primaryChan = sAirkissChanTab[idx].primaryChan
  /-- The sniffer only runs after a search that has returned. -/
  marked : s.snifferStopFlag = false → Marked s.chanTab

/-! ## Round the table -/

theorem nextChanIdx_cycle :
    Orbit.Cycle nextChanIdx AIRKISS_MAX_CHANNEL_NUM where
  period := by decide
  mem := by decide

/-- The loop is a search round the table. -/
theorem getNext_eq (tab : ChanTab) (fuel : Nat) (cur : ChanIdx) :
    airkissGetNextChannelIdx tab fuel cur =
      Orbit.search nextChanIdx (fun idx => tab[idx].apExist) fuel cur := by
  induction fuel generalizing cur with
  | zero => rfl
  | succ fuel ih =>
      rw [airkissGetNextChannelIdx, Orbit.search, ih]
      cases tab[nextChanIdx cur].apExist <;> rfl

theorem successive_eq (tab : ChanTab) (fuel k : Nat) (cur : ChanIdx) :
    successive tab fuel k cur =
      Orbit.visit nextChanIdx (fun idx => tab[idx].apExist) fuel k cur := by
  induction k generalizing cur with
  | zero => rfl
  | succ k ih =>
      rw [successive, Orbit.visit, getNext_eq, funext ih]

theorem existing_eq (tab : ChanTab) (cur : ChanIdx) :
    existing tab cur = Orbit.marks nextChanIdx (fun idx => tab[idx].apExist)
      AIRKISS_MAX_CHANNEL_NUM cur := by
  have horbit : ∀ cur : ChanIdx,
      ((List.range AIRKISS_MAX_CHANNEL_NUM).map fun k =>
        cur + Fin.ofNat AIRKISS_MAX_CHANNEL_NUM (k + 1)) =
        Orbit.orbit nextChanIdx AIRKISS_MAX_CHANNEL_NUM cur := by
    decide
  rw [existing, Orbit.marks, horbit]

/-- **The loop ends** exactly if an entry is marked, and then within one round
of the table. -/
theorem search_ends_iff (tab : ChanTab) (cur : ChanIdx) :
    ((∃ fuel, (airkissGetNextChannelIdx tab fuel cur).isSome) ↔ Marked tab) ∧
      ((airkissGetNextChannelIdx tab AIRKISS_MAX_CHANNEL_NUM cur).isSome ↔
        Marked tab) := by
  simp only [getNext_eq]
  exact ⟨nextChanIdx_cycle.exists_search_iff cur,
    nextChanIdx_cycle.search_isSome_iff cur⟩

/-- The calls visit the entries exactly if there is one. -/
theorem visits_iff (tab : ChanTab) (cur : ChanIdx) :
    Visits tab cur ↔ Marked tab := by
  constructor
  · rintro ⟨fuel, hall⟩
    obtain ⟨idx, hidx, -⟩ := hall 0
    obtain ⟨found, hfound, -⟩ := Option.bind_eq_some_iff.1 hidx
    exact (search_ends_iff tab cur).1.1
      ⟨fuel, Option.isSome_iff_exists.2 ⟨found, hfound⟩⟩
  · intro hmarked
    refine ⟨AIRKISS_MAX_CHANNEL_NUM, fun k => ?_⟩
    obtain ⟨heq, hsome⟩ := nextChanIdx_cycle.visit_eq (i := cur) k hmarked
    obtain ⟨idx, hidx⟩ := Option.isSome_iff_exists.1 hsome
    rw [successive_eq, existing_eq, ← heq]
    exact ⟨idx, hidx, hidx⟩

/-! ## What a scan marks -/

/-- A record marks the entries of its channel, if it is strong enough. -/
def ApRecord.Strong (record : ApRecord) (primaryChan : Nat) : Prop :=
  AIRKISS_MIN_RSSI ≤ record.rssi ∧ record.primary = primaryChan

theorem markRecord_primaryChan (chan : Chan) (record : ApRecord) :
    (markRecord chan record).primaryChan = chan.primaryChan := by
  rw [markRecord]
  split_ifs <;> rfl

theorem markRecord_apExist (chan : Chan) (record : ApRecord) :
    (markRecord chan record).apExist = true ↔
      chan.apExist = true ∨ record.Strong chan.primaryChan := by
  rw [markRecord, ApRecord.Strong]
  split_ifs with hweak hsame
  · exact (or_iff_left fun hstrong => absurd hstrong.1 (by omega)).symm
  · exact iff_of_true rfl (.inr ⟨by omega, hsame⟩)
  · exact (or_iff_left fun hstrong => hsame hstrong.2).symm

theorem markLoop (records : List ApRecord) (chan : Chan) :
    (records.foldl markRecord chan).primaryChan = chan.primaryChan ∧
      ((records.foldl markRecord chan).apExist = true ↔
        chan.apExist = true ∨
          ∃ record ∈ records, record.Strong chan.primaryChan) := by
  induction records generalizing chan with
  | nil => exact ⟨rfl, (or_iff_left nofun).symm⟩
  | cons record records ih =>
      obtain ⟨hprimary, hexist⟩ := ih (markRecord chan record)
      rw [markRecord_apExist, markRecord_primaryChan, or_assoc] at hexist
      refine ⟨hprimary.trans (markRecord_primaryChan chan record), ?_⟩
      rw [List.foldl_cons, hexist, List.exists_mem_cons_iff]

theorem markChan_spec (records : List ApRecord) (chan : Chan) :
    (markChan records chan).primaryChan = chan.primaryChan ∧
      ((markChan records chan).apExist = true ↔ chan.apExist = true ∨
        ∃ record ∈ records, record.Strong chan.primaryChan) := by
  rw [markChan]
  split
  · rename_i hexist
    exact ⟨rfl, iff_of_true hexist (.inl hexist)⟩
  · exact markLoop records chan

theorem exists_primaryChan : ∀ n : Fin 15, 1 ≤ n.val →
    ∃ idx : ChanIdx, n.val = sAirkissChanTab[idx].primaryChan := by
  decide

/-- The channels of the table are 1 to 14. -/
theorem primaryChan_iff {tab : ChanTab}
    (h : ∀ idx : ChanIdx,
      tab[idx].primaryChan = sAirkissChanTab[idx].primaryChan)
    (primary : Nat) :
    (∃ idx : ChanIdx, primary = tab[idx].primaryChan) ↔
      1 ≤ primary ∧ primary ≤ 14 := by
  simp only [h]
  constructor
  · rintro ⟨idx, rfl⟩
    revert idx
    decide
  · rintro ⟨hlow, hhigh⟩
    exact exists_primaryChan ⟨primary, by omega⟩ hlow

/-- One scan marks an entry, or there was one. -/
theorem scanOnce_spec {tab : ChanTab}
    (h : ∀ idx : ChanIdx,
      tab[idx].primaryChan = sAirkissChanTab[idx].primaryChan) (scan : Scan) :
    (∀ idx : ChanIdx, (scanOnce tab scan)[idx].primaryChan =
      sAirkissChanTab[idx].primaryChan) ∧
      (Marked (scanOnce tab scan) ↔ Marked tab ∨ scan.Sees) := by
  rw [scanOnce, Scan.Sees]
  split
  · rename_i hnone
    refine ⟨h, (or_iff_left ?_).symm⟩
    rw [hnone, List.take_zero]
    exact fun ⟨_, record, hrecord, _⟩ => nomatch hrecord
  · split
    · rename_i halloc
      have hget : ∀ idx : ChanIdx, (tab.map (markChan
          (scan.records.take scan.apNum)))[idx] =
            markChan (scan.records.take scan.apNum) tab[idx] :=
        fun idx => Vector.getElem_map _ _
      refine ⟨fun idx => ?_, ?_⟩
      · rw [hget, (markChan_spec _ _).1, h]
      · simp only [Marked, hget, (markChan_spec _ _).2, halloc, true_and,
          exists_or]
        refine or_congr_right ?_
        constructor
        · rintro ⟨idx, record, hrecord, hrssi, hprimary⟩
          exact ⟨record, hrecord, hrssi,
            (primaryChan_iff h record.primary).1 ⟨idx, hprimary⟩⟩
        · rintro ⟨record, hrecord, hrssi, hprimary⟩
          obtain ⟨idx, hidx⟩ := (primaryChan_iff h record.primary).2 hprimary
          exact ⟨idx, record, hrecord, hrssi, hidx⟩
    · rename_i halloc
      exact ⟨h, (or_iff_left fun hsees => halloc hsees.1).symm⟩

theorem scan_spec {tab : ChanTab}
    (h : ∀ idx : ChanIdx,
      tab[idx].primaryChan = sAirkissChanTab[idx].primaryChan) (env : Env) :
    (∀ idx : ChanIdx, (airkissWifiScanAp tab env)[idx].primaryChan =
      sAirkissChanTab[idx].primaryChan) ∧
      (Marked (airkissWifiScanAp tab env) ↔ Marked tab ∨
        env.config = true ∧ (env.first.Sees ∨ env.second.Sees)) := by
  rw [airkissWifiScanAp]
  split
  · rename_i hconfig
    obtain ⟨hfirst, hmark⟩ := scanOnce_spec h env.first
    obtain ⟨hsecond, hmark'⟩ := scanOnce_spec hfirst env.second
    refine ⟨hsecond, hmark'.trans ?_⟩
    rw [hmark, or_assoc, and_iff_right hconfig]
  · rename_i hconfig
    exact ⟨h, (or_iff_left fun hsees => hconfig hsees.1).symm⟩

/-! ## Every call -/

theorem Sound.start : Sound start := ⟨fun _ => rfl, nofun⟩

/-- A search succeeds where it should, exactly if the condition is met. -/
theorem searchOk_iff {s : Airkiss} (h : Sound s) (a : Act) :
    SearchOk s a ↔ ScanOk s a := by
  cases a with
  | start env =>
      rw [SearchOk, ScanOk, visits_iff, (scan_spec h.primaryChan env).2]
  | timer =>
      refine iff_of_true (fun _ hrun => ?_) trivial
      exact (visits_iff _ _).2 (h.marked hrun)
  | stop => exact Iff.rfl
  | locked => exact Iff.rfl
  | complete => exact Iff.rfl

theorem nextChannel_eq {s t : Airkiss} (h : s.nextChannel = some t) :
    t.chanTab = s.chanTab ∧ t.snifferStopFlag = s.snifferStopFlag ∧
      Marked s.chanTab := by
  obtain ⟨idx, hidx, rfl⟩ := Option.map_eq_some_iff.1 h
  exact ⟨rfl, rfl, (search_ends_iff _ _).2.1
    (Option.isSome_iff_exists.2 ⟨idx, hidx⟩)⟩

theorem stopTimer_eq (s : Airkiss) :
    s.stopTimer.chanTab = s.chanTab ∧
      s.stopTimer.snifferStopFlag = s.snifferStopFlag := by
  rw [Airkiss.stopTimer]
  split <;> exact ⟨rfl, rfl⟩

/-- A call leaves the table alone, and the sniffer as it was or stopped, or it
is a start that comes to the scan and finds a channel. -/
theorem step_cases {s t : Airkiss} {a : Act}
    (hs : airkissMachine.step s a = some t) :
    (t.chanTab = s.chanTab ∧ (t.snifferStopFlag = s.snifferStopFlag ∨
      t.snifferStopFlag = true)) ∨
    ∃ env, t.chanTab = airkissWifiScanAp s.chanTab env ∧ Marked t.chanTab := by
  cases a with
  | start env =>
      obtain ⟨r, hr, rfl⟩ := Option.map_eq_some_iff.1 hs
      rw [airkissStart] at hr
      split at hr
      · obtain rfl := Option.some.inj hr
        exact .inl ⟨rfl, .inl rfl⟩
      · split at hr
        · obtain rfl := Option.some.inj hr
          exact .inl ⟨rfl, .inl rfl⟩
        · obtain ⟨u, hu, rfl⟩ := Option.map_eq_some_iff.1 hr
          obtain ⟨htab, -, hmarked⟩ := nextChannel_eq hu
          rw [← htab] at hmarked
          exact .inr ⟨env, htab, hmarked⟩
  | timer =>
      obtain ⟨-, hs⟩ := Option.ite_none_left_eq_some.1 hs
      rw [channelChangeCallback] at hs
      split at hs
      · obtain rfl := Option.some.inj hs
        exact .inl ⟨rfl, .inl rfl⟩
      · obtain ⟨htab, hflag, -⟩ := nextChannel_eq hs
        exact .inl ⟨htab, .inl hflag⟩
  | stop =>
      obtain rfl := Option.some.inj hs
      obtain ⟨htab, hflag⟩ := stopTimer_eq { s with snifferStopFlag := true }
      exact .inl ⟨htab, .inr hflag⟩
  | locked =>
      obtain ⟨htab, hflag⟩ := stopTimer_eq s
      replace hs : (if s.snifferStopFlag then some s else some s.stopTimer) =
          some t := hs
      split at hs
      · obtain rfl := Option.some.inj hs
        exact .inl ⟨rfl, .inl rfl⟩
      · obtain rfl := Option.some.inj hs
        exact .inl ⟨htab, .inl hflag⟩
  | complete =>
      replace hs : (if s.snifferStopFlag then some s
          else some { s with snifferStopFlag := true }) = some t := hs
      split at hs
      · obtain rfl := Option.some.inj hs
        exact .inl ⟨rfl, .inl rfl⟩
      · obtain rfl := Option.some.inj hs
        exact .inl ⟨rfl, .inr rfl⟩

theorem Sound.step {s t : Airkiss} {a : Act} (h : Sound s)
    (hs : airkissMachine.step s a = some t) : Sound t := by
  rcases step_cases hs with ⟨htab, hflag⟩ | ⟨env, htab, hmarked⟩
  · refine ⟨?_, fun hrun => ?_⟩
    · rw [htab]
      exact h.primaryChan
    · rw [htab]
      rcases hflag with hflag | hflag
      · exact h.marked (hflag.symm.trans hrun)
      · rw [hflag] at hrun
        contradiction
  · refine ⟨?_, fun _ => hmarked⟩
    rw [htab]
    exact (scan_spec h.primaryChan env).1

/-! ## The result -/

/-- **The search for a channel returns, and the calls visit the marked entries
in cyclic order**, in every run, exactly if every start finds an entry marked
or sees an access point. -/
theorem channel_search_iff (as : List Act) :
    airkissMachine.Meets SearchOk start as ↔
      airkissMachine.Meets ScanOk start as := by
  have hiff : ∀ s a, Sound s → (SearchOk s a ↔ ScanOk s a) :=
    fun _ a h => searchOk_iff h a
  have hstep : ∀ s a t, Sound s → ScanOk s a →
      airkissMachine.step s a = some t → Sound t :=
    fun _ _ _ h _ hs => h.step hs
  exact Machine.meets_congr hiff hstep Sound.start as

/-- A start where no access point is seen. -/
theorem channel_search_empty : ¬airkissMachine.Meets SearchOk start
    [.start
      { ctx := true, init := 0, config := true, first := ⟨0, true, []⟩,
        second := ⟨0, true, []⟩ }] := by
  rintro ⟨hvisits, -⟩
  obtain ⟨idx, hidx⟩ := (visits_iff _ _).1 (hvisits ⟨rfl, Int.le_refl 0⟩)
  revert idx
  decide

end EspAdf.Ports.AirkissConfig
