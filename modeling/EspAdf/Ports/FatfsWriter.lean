import EspAdf.Verified.ByteFile
import EspAdf.Ports.FatfsStream

/-!
# `fatfs_stream.c`: does a recording survive a pause?

`_fatfs_open`, `_fatfs_write` and `_fatfs_close` of a stream of type
`AUDIO_STREAM_WRITER`, called by the element's handlers.  A pause closes the
file with its WAV header complete and keeps `info.byte_pos`.  The resume calls
`_fatfs_open` again, and that opens with `"w+"`: it truncates the file, writes
a blank header and seeks to `byte_pos`, which does not count the header.

`recording_complete_iff` proves that the file is complete after the final
`STOP` exactly when no byte was written before a `RESUME` that opens the file
again (and the size fits the header's field).

`fopen`, `fseek`, `fwrite` and `fsync` work without errors, and so do the
allocations; the parent directory and the other files are left out.
-/

namespace EspAdf.Ports.FatfsWriter

open EspAdf.Verified
open EspAdf.Ports.AudioElement
open EspAdf.Ports.FatfsStream (File Info strstr seekTo toLong)

/-! ## The type of the file -/

/-- `wr_stream_type_t`. -/
inductive WrStreamType where
  | unknow
  | wav
  | opus
  | amr
  | amrwb
  deriving DecidableEq, Repr

/-- `strrchr`: the string from the last `c` on. -/
def strrchr (c : Char) : List Char → Option (List Char)
  | [] => none
  | x :: xs =>
      match strrchr c xs with
      | some found => some found
      | none => if x = c then some (x :: xs) else none

/-- `strncasecmp(s, t, n) == 0`. -/
def strncaseEq (s t : List Char) (n : Nat) : Bool :=
  (s.take n).map Char.toLower = (t.take n).map Char.toLower

/-- `get_type`. -/
def getType (str : String) : WrStreamType :=
  match strrchr '.' str.toList with
  | some (_ :: relt) =>
      if strncaseEq relt "wav".toList 3 then .wav
      else if strncaseEq relt "opus".toList 4 then .opus
      else if strncaseEq relt "amr".toList 3 then .amr
      else if strncaseEq relt "Wamr".toList 4 then .amrwb
      else .unknow
  | _ => .unknow

/-! ## The callbacks -/

/-- `sizeof(wav_header_t)`. -/
def wavHeaderSize : Nat := 44

/-- The `uri` of the element, and the header that `wav_head_init` and
`wav_head_size` make of a size. -/
structure Setup where
  uri : Option String
  wavHead : BitVec 32 → List UInt8
  length_wavHead : ∀ size, (wavHead size).length = wavHeaderSize

/-- `strstr(uri, "/sdcard")`. -/
def Setup.path (d : Setup) : Option String :=
  d.uri.bind fun uri =>
    (strstr "/sdcard".toList uri.toList).map String.ofList

/-- `fatfs_stream_t` of a writer and the element's info. -/
structure Stream where
  isOpen : Bool
  /-- What `fopen` returned last; `fclose` leaves it. -/
  file : Option File
  wType : WrStreamType
  info : Info
  /-- The file at the path; `none` when there is none. -/
  contents : Option (List UInt8)
  deriving DecidableEq, Repr

/-- `fwrite` at the position of `f`. -/
def Stream.fwrite (s : Stream) (f : File) (bytes : List UInt8) : Stream :=
  { s with
    file := some { f with pos := f.pos + bytes.length }
    contents := s.contents.map fun c => writeAt 0 c f.pos bytes }

/-- What `_fatfs_open` writes at the beginning of a new file. -/
def placeholder : WrStreamType → List UInt8
  | .wav => List.replicate wavHeaderSize 0
  | .amr => "#!AMR\n".toUTF8.toList
  | .amrwb => "#!AMR-WB\n".toUTF8.toList
  | .unknow => []
  | .opus => []

/-- `fopen(path, "w+")` and the blank header. -/
def Stream.create (s : Stream) (path : String) : Stream :=
  let s := { s with wType := getType path, contents := some [] }
  s.fwrite ⟨path, 0⟩ (placeholder s.wType)

/-- `_fatfs_open`; the flag says that it returns `ESP_OK`. -/
def fatfsOpen (d : Setup) (s : Stream) : Stream × Bool :=
  match d.path with
  | none => (s, false)
  | some path =>
      if s.isOpen then (s, false)
      else
        let s := { s.create path with isOpen := true }
        match s.file.bind (seekTo s.info) with
        | none => (s, false)
        | some f => ({ s with file := some f }, true)

/-- `_fatfs_write`: undefined on a stream that is not open. -/
def fatfsWrite (s : Stream) (bytes : List UInt8) : Option Stream :=
  if s.isOpen then
    s.file.map fun f =>
      let s := s.fwrite f bytes
      { s with info := { s.info with
          bytePos := s.info.bytePos + bytes.length } }
  else none

/-- `fseek(file, 0, SEEK_SET)` and the header with the size so far. -/
def writeHeader (d : Setup) (s : Stream) : Stream :=
  match s.file with
  | none => s
  | some f =>
      if s.wType = .wav then
        s.fwrite { f with pos := 0 }
          (d.wavHead (BitVec.ofNat 32 s.info.bytePos))
      else s

/-- `_fatfs_close`, in the element's present state. -/
def fatfsClose (d : Setup) (state : State) (s : Stream) : Stream :=
  let s := writeHeader d s
  { s with
    isOpen := false
    info := if state ≠ .paused then { s.info with bytePos := 0 } else s.info }

/-! ## The element with these callbacks -/

structure Recorder where
  el : Element
  stream : Stream
  /-- History: the bytes that `_fatfs_write` got. -/
  written : List UInt8
  deriving DecidableEq, Repr

/-- An assignment of a handler; operations on the queues and the ring buffers
do nothing here. -/
def Recorder.assign (r : Recorder) : Op → Recorder
  | .write w => { r with el := w.apply r.el }
  | _ => r

/-- An operation of a handler; `none` when a file operation fails. -/
def perform (d : Setup) (r : Recorder) : Op → Option Recorder
  | .callOpen =>
      match fatfsOpen d r.stream with
      | (_, false) => none
      | (stream, true) =>
          some ((openReturned true).foldl Recorder.assign
            { r with stream := stream })
  | .callClose =>
      some { r with stream := fatfsClose d r.el.state r.stream }
  | op => some (r.assign op)

/-- `audio_element_on_cmd`, to its end. -/
def handle (d : Setup) (r : Recorder) (c : Cmd) : Option Recorder :=
  (onCmd defaultConfig r.el c).foldlM (perform d) r

/-- One round of `audio_element_process_state_running`: `_fatfs_process` got
`bytes` from the input and writes them. -/
def process (r : Recorder) (bytes : List UInt8) : Option Recorder :=
  if r.el.state.value < State.running.value ∨ r.el.isOpen = false then none
  else if bytes.length > 0 then
    (fatfsWrite r.stream bytes).map fun stream =>
      { r with stream := stream, written := r.written ++ bytes }
  else some r

inductive RecAct where
  | write (bytes : List UInt8)
  | pause
  | resume
  deriving DecidableEq, Repr

def recStep (d : Setup) (r : Recorder) : RecAct → Option Recorder
  | .write bytes => process r bytes
  | .pause => handle d r .pause
  | .resume => handle d r .resume

def recMachine (d : Setup) : Machine Recorder RecAct := ⟨recStep d⟩

/-- A fresh element, and what there is at the path. -/
def Recorder.fresh (old : Option (List UInt8)) : Recorder where
  el := { Element.start with taskRun := true, todo := [] }
  stream := ⟨false, none, .unknow, ⟨0, 0⟩, old⟩
  written := []

/-! ## The property and the condition -/

/-- One header with the size of what was written, followed by it. -/
def Complete (d : Setup) (r : Recorder) : Prop :=
  ∃ size : BitVec 32, size.toNat = r.written.length ∧
    r.stream.contents = some (d.wavHead size ++ r.written)

/-- The condition on a step: a `RESUME` that opens the file again comes before
the first byte. -/
def ReopensEmpty (r : Recorder) (a : RecAct) : Prop :=
  a = .resume → r.el.isOpen = false → r.written = []

instance (r : Recorder) (a : RecAct) : Decidable (ReopensEmpty r a) :=
  inferInstanceAs (Decidable (_ → _))

/-! ## What the handlers do -/

/-- A handler went through: what it left of the element's flags, the stream
and the history. -/
structure Handled (r r' : Recorder) (state : State) (isOpen : Bool)
    (stream : Stream) : Prop where
  state : r'.el.state = state
  isOpen : r'.el.isOpen = isOpen
  stream : r'.stream = stream
  written : r'.written = r.written

theorem handle_pause_open {d : Setup} {r r' : Recorder}
    (ho : r.el.isOpen = true) (h : handle d r .pause = some r') :
    Handled r r' .paused false (fatfsClose d .paused r.stream) := by
  simp [handle, onCmd, closeOps, ho, defaultConfig, perform,
    Recorder.assign, Write.apply] at h
  subst h
  exact ⟨rfl, rfl, rfl, rfl⟩

theorem handle_pause_closed {d : Setup} {r r' : Recorder}
    (ho : r.el.isOpen = false) (h : handle d r .pause = some r') :
    Handled r r' .paused false r.stream := by
  simp [handle, onCmd, closeOps, ho, defaultConfig, perform,
    Recorder.assign, Write.apply] at h
  subst h
  exact ⟨rfl, rfl, rfl, rfl⟩

theorem handle_resume_running {d : Setup} {r r' : Recorder}
    (hs : r.el.state = .running) (h : handle d r .resume = some r') :
    Handled r r' .running r.el.isOpen r.stream := by
  simp [handle, onCmd, hs, perform, Recorder.assign, Write.apply] at h
  subst h
  exact ⟨rfl, rfl, rfl, rfl⟩

theorem handle_resume_opens {d : Setup} {r r' : Recorder}
    (hs : r.el.state ≠ .running) (h : handle d r .resume = some r') :
    (fatfsOpen d r.stream).2 = true ∧
      Handled r r' .running true (fatfsOpen d r.stream).1 := by
  rcases hopen : fatfsOpen d r.stream with ⟨stream, ok⟩
  cases ok with
  | false =>
      simp only [handle, onCmd, if_neg hs] at h
      split at h <;>
        simp [perform, defaultConfig, hopen, Recorder.assign] at h
  | true =>
      refine ⟨rfl, ?_⟩
      simp only [handle, onCmd, if_neg hs] at h
      split at h <;>
      · simp [perform, defaultConfig, hopen, Recorder.assign, openReturned,
          resumedOps, Write.apply] at h
        subst h
        exact ⟨rfl, rfl, rfl, rfl⟩

theorem handle_stop_open {d : Setup} {r r' : Recorder}
    (hs : r.el.state = .running) (ho : r.el.isOpen = true)
    (h : handle d r .stop = some r') :
    Handled r r' .stopped false (fatfsClose d .running r.stream) := by
  simp [handle, onCmd, closeOps, hs, ho, defaultConfig, perform,
    Recorder.assign, Write.apply] at h
  subst h
  exact ⟨rfl, rfl, by rw [← hs], rfl⟩

theorem handle_stop_closed {d : Setup} {r r' : Recorder}
    (ho : r.el.isOpen = false) (h : handle d r .stop = some r') :
    Handled r r' .stopped false r.stream := by
  simp only [handle, onCmd, closeOps, ho] at h
  split at h <;>
  · simp [perform, Recorder.assign, Write.apply] at h
    subst h
    exact ⟨rfl, ho, rfl, rfl⟩

/-! ## What the callbacks do -/

variable {d : Setup} {path : String}

/-- `fopen`, the blank header and the seek. -/
theorem fatfsOpen_ok {s : Stream} (hpath : d.path = some path)
    (hwav : getType path = .wav) (h : (fatfsOpen d s).2 = true) :
    ∃ f, seekTo s.info ⟨path, wavHeaderSize⟩ = some f ∧
      (fatfsOpen d s).1 = ⟨true, some f, .wav, s.info,
        some (List.replicate wavHeaderSize 0)⟩ := by
  unfold fatfsOpen at h ⊢
  rw [hpath] at h ⊢
  dsimp only at h ⊢
  split at h
  · cases h
  · rename_i hclosed
    rw [if_neg hclosed]
    have hcreate : s.create path = ⟨s.isOpen, some ⟨path, wavHeaderSize⟩,
        .wav, s.info, some (List.replicate wavHeaderSize 0)⟩ := by
      simp only [Stream.create, hwav, placeholder, Stream.fwrite,
        List.length_replicate, Nat.zero_add, Option.map_some]
      rw [show (0 : Nat) = ([] : List UInt8).length from rfl, writeAt_end]
      rfl
    rw [hcreate] at h ⊢
    dsimp only [Option.bind_some] at h ⊢
    split at h
    · cases h
    · rename_i f hf
      exact ⟨f, hf, rfl⟩

/-- `_fatfs_close` puts the header over the first bytes. -/
theorem fatfsClose_file {s : Stream} {f : File} (state : State)
    (hwav : s.wType = .wav) (hfile : s.file = some f) :
    (fatfsClose d state s).isOpen = false ∧
    (fatfsClose d state s).contents = s.contents.map (fun c =>
      writeAt 0 c 0 (d.wavHead (BitVec.ofNat 32 s.info.bytePos))) ∧
    (state = .paused → (fatfsClose d state s).info = s.info) := by
  unfold fatfsClose writeHeader
  rw [hfile, hwav]
  refine ⟨rfl, rfl, ?_⟩
  intro hpaused
  simp [hpaused, Stream.fwrite]

/-- `_fatfs_write` writes where the last operation left off. -/
theorem fatfsWrite_some {s s' : Stream} {bytes : List UInt8}
    (h : fatfsWrite s bytes = some s') :
    ∃ f, s.file = some f ∧ s' = ⟨true, some ⟨f.path, f.pos + bytes.length⟩,
      s.wType, { s.info with bytePos := s.info.bytePos + bytes.length },
      s.contents.map fun c => writeAt 0 c f.pos bytes⟩ := by
  unfold fatfsWrite at h
  split at h
  · rename_i hopen
    obtain ⟨f, hf, rfl⟩ := Option.map_eq_some_iff.1 h
    refine ⟨f, hf, ?_⟩
    rw [← hopen]
    rfl
  · cases h

/-- The balanced remainder makes no natural number larger. -/
theorem bmod_natCast_le (n m : Nat) : Int.bmod n m ≤ n := by
  have hmod : (n : Int) % (m : Int) ≤ n := by
    rw [← Int.natCast_mod]
    exact Int.ofNat_le.2 (Nat.mod_le _ _)
  rw [Int.bmod]
  split
  · exact hmod
  · exact Int.le_trans (Int.sub_le_self _ (Int.natCast_nonneg _)) hmod

/-- A seek to the position of `info` gets no further than it. -/
theorem seekTo_le {info : Info} {f f' : File} (hpos : info.bytePos ≠ 0)
    (h : seekTo info f = some f') : f'.pos ≤ info.bytePos := by
  have hle : toLong info.bytePos ≤ info.bytePos := bmod_natCast_le _ _
  rw [seekTo, if_pos (Nat.pos_of_ne_zero hpos)] at h
  generalize toLong info.bytePos = offset at h hle
  rw [FatfsStream.fseek] at h
  split at h
  · cases h
  · cases h
    exact Int.toNat_le.2 hle

/-! ## The invariant -/

/-- The element runs, and the next byte goes to `pos`. -/
structure Recording (r : Recorder) (pos : Nat) : Prop where
  state : r.el.state = .running
  isOpen : r.el.isOpen = true
  file : ∃ path, r.stream.file = some ⟨path, pos⟩
  wType : r.stream.wType = .wav
  bytePos : r.stream.info.bytePos = r.written.length

/-- The element is paused and the file closed. -/
structure Suspended (r : Recorder) : Prop where
  state : r.el.state = .paused
  isOpen : r.el.isOpen = false
  bytePos : r.stream.info.bytePos = r.written.length

/-- The header of what was written so far. -/
def Setup.header (d : Setup) (r : Recorder) : List UInt8 :=
  d.wavHead (BitVec.ofNat 32 r.written.length)

/-- Everything written is in the file. -/
inductive Kept (d : Setup) (r : Recorder) : Prop where
  | recording (hd : List UInt8) (hlen : hd.length = wavHeaderSize)
      (h : Recording r (wavHeaderSize + r.written.length))
      (hc : r.stream.contents = some (hd ++ r.written))
  | suspended (h : Suspended r)
      (hc : r.stream.contents = some (d.header r ++ r.written))

/-- The file is too short for the header and everything written. -/
structure Lost (r : Recorder) : Prop where
  phase : (∃ pos ≤ r.written.length, Recording r pos) ∨ Suspended r
  short : ∃ c, r.stream.contents = some c ∧
    c.length ≤ max wavHeaderSize r.written.length
  nonempty : r.written ≠ []

theorem Kept.phase {r : Recorder} (h : Kept d r) :
    (∃ pos, Recording r pos) ∨ Suspended r := by
  cases h with
  | recording hd hlen h hc => exact .inl ⟨_, h⟩
  | suspended h hc => exact .inr h

/-- `_fatfs_process` writes into the open file. -/
theorem process_some {r r' : Recorder} {bytes : List UInt8}
    (h : process r bytes = some r') :
    r.el.isOpen = true ∧ r'.el = r.el ∧ r'.written = r.written ++ bytes ∧
      (bytes = [] ∧ r' = r ∨
        fatfsWrite r.stream bytes = some r'.stream) := by
  unfold process at h
  split at h
  · cases h
  · rename_i hguard
    have hopen : r.el.isOpen = true := by
      rw [not_or] at hguard
      simpa using hguard.2
    split at h
    · obtain ⟨stream, hw, rfl⟩ := Option.map_eq_some_iff.1 h
      exact ⟨hopen, rfl, rfl, .inr hw⟩
    · rename_i hlen
      have hnil : bytes = [] := List.eq_nil_of_length_eq_zero (by omega)
      cases h
      exact ⟨hopen, rfl, by rw [hnil, List.append_nil], .inl ⟨hnil, rfl⟩⟩

/-- Where the next byte goes after a write. -/
theorem Recording.write {r r' : Recorder} {pos : Nat} {bytes : List UInt8}
    (hr : Recording r pos) (h : process r bytes = some r') :
    Recording r' (pos + bytes.length) ∧
      r'.written = r.written ++ bytes ∧
      r'.stream.contents = r.stream.contents.map fun c =>
        writeAt 0 c pos bytes := by
  obtain ⟨-, hel, hwritten, ⟨rfl, rfl⟩ | hw⟩ := process_some h
  · refine ⟨hr, hwritten, ?_⟩
    simp
  · obtain ⟨path, hfile⟩ := hr.file
    obtain ⟨f, hf, hs⟩ := fatfsWrite_some hw
    obtain rfl : f = ⟨path, pos⟩ := Option.some.inj (hf.symm.trans hfile)
    refine ⟨⟨hel ▸ hr.state, hel ▸ hr.isOpen, ?_, ?_, ?_⟩, hwritten, ?_⟩
    · exact ⟨path, by rw [hs]⟩
    · rw [hs]
      exact hr.wType
    · rw [hs, hwritten, List.length_append, ← hr.bytePos]
    · rw [hs]

/-- A pause closes the file, with the header of what was written. -/
theorem Recording.pause {r r' : Recorder} {pos : Nat}
    (hr : Recording r pos) (h : handle d r .pause = some r') :
    Suspended r' ∧ r'.written = r.written ∧
      r'.stream.contents = r.stream.contents.map fun c =>
        writeAt 0 c 0 (d.header r) := by
  have hp := handle_pause_open hr.isOpen h
  obtain ⟨path, hfile⟩ := hr.file
  obtain ⟨-, hcontents, hinfo⟩ := fatfsClose_file (d := d) .paused hr.wType hfile
  refine ⟨⟨hp.state, hp.isOpen, ?_⟩, hp.written, ?_⟩
  · rw [hp.stream, hinfo rfl, hp.written]
    exact hr.bytePos
  · rw [hp.stream, hcontents, hr.bytePos]
    rfl

/-- A resume opens the file anew: it is blank, and the next byte goes to
`byte_pos`. -/
theorem Suspended.resume {r r' : Recorder} (hpath : d.path = some path)
    (hwav : getType path = .wav) (hr : Suspended r)
    (h : handle d r .resume = some r') :
    ∃ pos, Recording r' pos ∧ r'.written = r.written ∧
      r'.stream.contents = some (List.replicate wavHeaderSize 0) ∧
      (r.written = [] → pos = wavHeaderSize) ∧
      (r.written ≠ [] → pos ≤ r.written.length) := by
  obtain ⟨hok, hh⟩ := handle_resume_opens (by simp [hr.state]) h
  obtain ⟨f, hf, hopen⟩ := fatfsOpen_ok hpath hwav hok
  have hstream := hh.stream.trans hopen
  refine ⟨f.pos, ⟨hh.state, hh.isOpen, ⟨f.path, by rw [hstream]⟩,
    by rw [hstream], ?_⟩, hh.written, by rw [hstream], ?_, ?_⟩
  · rw [hstream, hh.written]
    exact hr.bytePos
  · intro hnil
    have hzero : ¬r.stream.info.bytePos > 0 := by simp [hr.bytePos, hnil]
    rw [seekTo, if_neg hzero] at hf
    cases hf
    rfl
  · intro hsome
    have hne : r.stream.info.bytePos ≠ 0 := by
      rw [hr.bytePos]
      exact fun hlen => hsome (List.eq_nil_of_length_eq_zero hlen)
    exact hr.bytePos ▸ seekTo_le hne hf

/-! ## The steps -/

/-- Nothing is lost by a step that does not open a file with bytes in it. -/
theorem Kept.step {r r' : Recorder} {a : RecAct}
    (hpath : d.path = some path) (hwav : getType path = .wav)
    (hr : Kept d r) (h : recStep d r a = some r')
    (hok : ReopensEmpty r a) : Kept d r' := by
  cases a with
  | write bytes =>
      cases hr with
      | recording hd hlen hr hc =>
          obtain ⟨hr', hw, hc'⟩ := hr.write h
          have hend : wavHeaderSize + r.written.length =
              (hd ++ r.written).length := by
            rw [List.length_append, hlen]
          refine .recording hd hlen ?_ ?_
          · rw [hw, List.length_append, ← Nat.add_assoc]
            exact hr'
          · rw [hc', hc, Option.map_some, hend, writeAt_end, hw,
              List.append_assoc]
      | suspended hr hc =>
          have hopen := (process_some h).1
          rw [hr.isOpen] at hopen
          cases hopen
  | pause =>
      cases hr with
      | recording hd hlen hr hc =>
          obtain ⟨hr', hw, hc'⟩ := hr.pause h
          have hhead : (d.header r).length = hd.length := by
            rw [hlen, Setup.header, d.length_wavHead]
          refine .suspended hr' ?_
          rw [hc', hc, Option.map_some, writeAt_head 0 _ hhead,
            Setup.header, Setup.header, hw]
      | suspended hr hc =>
          have hp := handle_pause_closed hr.isOpen h
          refine .suspended ⟨hp.state, hp.isOpen, ?_⟩ ?_
          · rw [hp.stream, hp.written]
            exact hr.bytePos
          · rw [hp.stream, hc, Setup.header, Setup.header, hp.written]
  | resume =>
      cases hr with
      | recording hd hlen hr hc =>
          have hp := handle_resume_running hr.state h
          refine .recording hd hlen ⟨hp.state, ?_, ?_, ?_, ?_⟩ ?_
          · exact hp.isOpen.trans hr.isOpen
          · rw [hp.stream, hp.written]
            exact hr.file
          · rw [hp.stream]
            exact hr.wType
          · rw [hp.stream, hp.written]
            exact hr.bytePos
          · rw [hp.stream, hp.written]
            exact hc
      | suspended hr hc =>
          have hnil := hok rfl hr.isOpen
          obtain ⟨pos, hr', hw, hc', hpos, -⟩ := hr.resume hpath hwav h
          rw [hnil] at hw
          refine .recording (List.replicate wavHeaderSize 0)
            List.length_replicate ?_ ?_
          · rw [hw, List.length_nil, Nat.add_zero]
            exact hpos hnil ▸ hr'
          · rw [hc', hw, List.append_nil]

/-- Opening a file with bytes in it loses them. -/
theorem Suspended.lost {r r' : Recorder} (hpath : d.path = some path)
    (hwav : getType path = .wav) (hr : Suspended r)
    (hsome : r.written ≠ []) (h : handle d r .resume = some r') :
    Lost r' := by
  obtain ⟨pos, hr', hw, hc, -, hpos⟩ := hr.resume hpath hwav h
  refine ⟨.inl ⟨pos, ?_, hr'⟩, ⟨_, hc, ?_⟩, hw ▸ hsome⟩
  · rw [hw]
    exact hpos hsome
  · rw [List.length_replicate]
    exact Nat.le_max_left _ _

/-- What is lost does not come back. -/
theorem Lost.step {r r' : Recorder} {a : RecAct}
    (hpath : d.path = some path) (hwav : getType path = .wav)
    (hr : Lost r) (h : recStep d r a = some r') : Lost r' := by
  obtain ⟨c, hc, hshort⟩ := hr.short
  rcases hr.phase with ⟨pos, hpos, hrec⟩ | hsus
  · cases a with
    | write bytes =>
        obtain ⟨hr', hw, hc'⟩ := hrec.write h
        have hlen := length_writeAt_le 0 c pos bytes
        refine ⟨.inl ⟨_, ?_, hr'⟩,
          ⟨writeAt 0 c pos bytes, by rw [hc', hc]; rfl, ?_⟩, ?_⟩
        · rw [hw, List.length_append]
          omega
        · rw [hw, List.length_append]
          omega
        · rw [hw]
          exact List.append_ne_nil_of_left_ne_nil hr.nonempty _
    | pause =>
        obtain ⟨hr', hw, hc'⟩ := hrec.pause h
        have hlen := length_writeAt_le 0 c 0 (d.header r)
        have hhead : (d.header r).length = wavHeaderSize :=
          d.length_wavHead _
        refine ⟨.inr hr', ⟨writeAt 0 c 0 (d.header r),
          by rw [hc', hc]; rfl, ?_⟩, hw ▸ hr.nonempty⟩
        rw [hw]
        omega
    | resume =>
        have hp := handle_resume_running hrec.state h
        refine ⟨.inl ⟨pos, hp.written ▸ hpos, hp.state, ?_, ?_, ?_, ?_⟩, ?_,
          hp.written ▸ hr.nonempty⟩
        · exact hp.isOpen.trans hrec.isOpen
        · rw [hp.stream]
          exact hrec.file
        · rw [hp.stream]
          exact hrec.wType
        · rw [hp.stream, hp.written]
          exact hrec.bytePos
        · rw [hp.stream, hp.written]
          exact hr.short
  · cases a with
    | write bytes =>
        have hopen := (process_some h).1
        rw [hsus.isOpen] at hopen
        cases hopen
    | pause =>
        have hp := handle_pause_closed hsus.isOpen h
        refine ⟨.inr ⟨hp.state, hp.isOpen, ?_⟩, ?_, hp.written ▸ hr.nonempty⟩
        · rw [hp.stream, hp.written]
          exact hsus.bytePos
        · rw [hp.stream, hp.written]
          exact hr.short
    | resume => exact hsus.lost hpath hwav hr.nonempty h

/-! ## The runs -/

/-- Everything is in the file as long as it was opened again only empty. -/
theorem run_kept {r₀ r : Recorder} {acts : List RecAct}
    (hpath : d.path = some path) (hwav : getType path = .wav)
    (h₀ : Kept d r₀) (hrun : (recMachine d).run r₀ acts = some r) :
    (recMachine d).Meets ReopensEmpty r₀ acts ∧ Kept d r ∨
      ¬(recMachine d).Meets ReopensEmpty r₀ acts ∧ Lost r := by
  refine Machine.run_induction (P := fun acts r =>
    (recMachine d).Meets ReopensEmpty r₀ acts ∧ Kept d r ∨
      ¬(recMachine d).Meets ReopensEmpty r₀ acts ∧ Lost r)
    (.inl ⟨trivial, h₀⟩) ?_ hrun
  intro as u a v hu ih hv
  rw [Machine.meets_concat hu]
  rcases ih with ⟨hempty, hkept⟩ | ⟨hempty, hlost⟩
  · by_cases hok : ReopensEmpty u a
    · exact .inl ⟨⟨hempty, hok⟩, hkept.step hpath hwav hv hok⟩
    · refine .inr ⟨fun h => hok h.2, ?_⟩
      simp only [ReopensEmpty, Classical.not_imp] at hok
      obtain ⟨rfl, hclosed, hsome⟩ := hok
      rcases hkept.phase with ⟨pos, hrec⟩ | hsus
      · rw [hrec.isOpen] at hclosed
        cases hclosed
      · exact hsus.lost hpath hwav hsome hv
  · exact .inr ⟨fun h => hempty h.1, hlost.step hpath hwav hv⟩

/-- The final `STOP` writes the header, unless the pause did. -/
theorem Kept.stop {r r' : Recorder} (hr : Kept d r)
    (h : handle d r .stop = some r') :
    r'.written = r.written ∧
      r'.stream.contents = some (d.header r ++ r.written) := by
  cases hr with
  | recording hd hlen hr hc =>
      have hp := handle_stop_open hr.state hr.isOpen h
      obtain ⟨path, hfile⟩ := hr.file
      have hclose := (fatfsClose_file (d := d) .running hr.wType hfile).2.1
      have hhead : (d.header r).length = hd.length := by
        rw [hlen, Setup.header, d.length_wavHead]
      refine ⟨hp.written, ?_⟩
      rw [hp.stream, hclose, hc, hr.bytePos]
      exact congrArg some (writeAt_head 0 _ hhead)
  | suspended hr hc =>
      have hp := handle_stop_closed hr.isOpen h
      exact ⟨hp.written, by rw [hp.stream, hc]⟩

theorem Lost.stop {r r' : Recorder} (hr : Lost r)
    (h : handle d r .stop = some r') : ¬Complete d r' := by
  obtain ⟨c, hc, hshort⟩ := hr.short
  have hpos : 0 < r.written.length := List.length_pos_of_ne_nil hr.nonempty
  have hfinal : r'.written = r.written ∧ ∃ c', r'.stream.contents = some c' ∧
      c'.length ≤ max wavHeaderSize r.written.length := by
    rcases hr.phase with ⟨pos, -, hrec⟩ | hsus
    · have hp := handle_stop_open hrec.state hrec.isOpen h
      obtain ⟨path, hfile⟩ := hrec.file
      have hclose := (fatfsClose_file (d := d) .running hrec.wType hfile).2.1
      refine ⟨hp.written, writeAt 0 c 0
        (d.wavHead (BitVec.ofNat 32 r.stream.info.bytePos)),
        by rw [hp.stream, hclose, hc]; rfl, ?_⟩
      have hlen := length_writeAt_le 0 c 0
        (d.wavHead (BitVec.ofNat 32 r.stream.info.bytePos))
      rw [d.length_wavHead] at hlen
      omega
    · have hp := handle_stop_closed hsus.isOpen h
      exact ⟨hp.written, c, by rw [hp.stream, hc], hshort⟩
  obtain ⟨hw, c', hc', hlen⟩ := hfinal
  rintro ⟨size, -, hfile⟩
  rw [hc', Option.some.injEq] at hfile
  rw [hfile, List.length_append, d.length_wavHead, hw] at hlen
  have : wavHeaderSize = 44 := rfl
  omega

/-- The first `RESUME` creates the file. -/
theorem kept_start {old : Option (List UInt8)} {r₀ : Recorder}
    (hpath : d.path = some path) (hwav : getType path = .wav)
    (h : handle d (.fresh old) .resume = some r₀) : Kept d r₀ := by
  obtain ⟨hok, hh⟩ := handle_resume_opens (by simp [Recorder.fresh,
    Element.start]) h
  obtain ⟨f, hf, hopen⟩ := fatfsOpen_ok hpath hwav hok
  have hstream := hh.stream.trans hopen
  have hwritten : r₀.written = [] := hh.written
  cases hf
  refine .recording (List.replicate wavHeaderSize 0) List.length_replicate
    ⟨hh.state, hh.isOpen, ⟨path, ?_⟩, by rw [hstream], ?_⟩ ?_
  · rw [hstream, hwritten]
    rfl
  · rw [hstream, hwritten]
    rfl
  · rw [hstream, hwritten, List.append_nil]

/-- **A recording is complete** after the final `STOP` exactly when the file
was not opened again with bytes in it, and its size fits the header. -/
theorem recording_complete_iff {old : Option (List UInt8)}
    {r₀ r r' : Recorder} {acts : List RecAct}
    (hpath : d.path = some path) (hwav : getType path = .wav)
    (h₀ : handle d (.fresh old) .resume = some r₀)
    (hrun : (recMachine d).run r₀ acts = some r)
    (hstop : handle d r .stop = some r') :
    Complete d r' ↔
      (recMachine d).Meets ReopensEmpty r₀ acts ∧
        r.written.length < 2 ^ 32 := by
  rcases run_kept hpath hwav (kept_start hpath hwav h₀) hrun with
    ⟨hempty, hkept⟩ | ⟨hempty, hlost⟩
  · obtain ⟨hw, hc⟩ := hkept.stop hstop
    constructor
    · rintro ⟨size, hsize, -⟩
      exact ⟨hempty, hw ▸ hsize ▸ size.isLt⟩
    · rintro ⟨-, hsmall⟩
      refine ⟨BitVec.ofNat 32 r.written.length, ?_, ?_⟩
      · rw [BitVec.toNat_ofNat, Nat.mod_eq_of_lt hsmall, hw]
      · rw [hc, hw, Setup.header]
  · constructor
    · exact fun hcomplete => absurd hcomplete (hlost.stop hstop)
    · exact fun h => absurd h.1 hempty

/-! ## Two recordings -/

/-- The `n` low bytes of `x`, the lowest first. -/
def littleEndian : Nat → Nat → List UInt8
  | 0, _ => []
  | n + 1, x => UInt8.ofNat x :: littleEndian n (x / 256)

theorem length_littleEndian (n x : Nat) :
    (littleEndian n x).length = n := by
  induction n generalizing x with
  | zero => rfl
  | succ n ih => rw [littleEndian, List.length_cons, ih]

/-- Two channels of 16 bits at 44.1 kHz, in a file with a `.wav` path. -/
def stereo : Setup where
  uri := some "/sdcard/a.wav"
  wavHead size :=
    -- "RIFF", "WAVEfmt " and "data"
    [82, 73, 70, 70] ++ littleEndian 4 (size.toNat + 36) ++
      [87, 65, 86, 69, 102, 109, 116, 32] ++ littleEndian 4 16 ++
      littleEndian 2 1 ++ littleEndian 2 2 ++ littleEndian 4 44100 ++
      littleEndian 4 176400 ++ littleEndian 2 4 ++ littleEndian 2 16 ++
      [100, 97, 116, 97] ++ littleEndian 4 size.toNat
  length_wavHead size := by
    simp only [List.length_append, length_littleEndian]
    rfl

/-- A recording from the first `RESUME` to the `STOP`: the bytes written, and
the file. -/
def outcome (d : Setup) (acts : List RecAct) :
    Option (List UInt8 × Option (List UInt8)) :=
  (handle d (.fresh none) .resume).bind fun r₀ =>
    ((recMachine d).run r₀ acts).bind fun r =>
      (handle d r .stop).map fun r' => (r'.written, r'.stream.contents)

/-- A pause before the first byte does no harm. -/
theorem recording_complete_early : ∃ r₀ r r',
    handle stereo (.fresh none) .resume = some r₀ ∧
    (recMachine stereo).run r₀ [.pause, .resume, .write [1, 2]] = some r ∧
    handle stereo r .stop = some r' ∧ r'.written = [1, 2] ∧
    Complete stereo r' ∧
    (recMachine stereo).Meets ReopensEmpty r₀
      [.pause, .resume, .write [1, 2]] := by
  have h : outcome stereo [.pause, .resume, .write [1, 2]] =
      some ([1, 2], some (stereo.wavHead 2 ++ [1, 2])) := by
    decide +kernel
  simp only [outcome, Option.bind_eq_some_iff, Option.map_eq_some_iff,
    Prod.mk.injEq] at h
  obtain ⟨r₀, h₀, r, hrun, r', hstop, hw, hc⟩ := h
  have hcomplete : Complete stereo r' := ⟨2, by rw [hw]; rfl, by rw [hc, hw]⟩
  exact ⟨r₀, r, r', h₀, hrun, hstop, hw, hcomplete,
    ((recording_complete_iff (d := stereo) rfl
      (by decide +kernel) h₀ hrun hstop).1 hcomplete).1⟩

/-- A byte before the pause and one after it: the file is only the header. -/
theorem recording_lost : ∃ r₀ r r',
    handle stereo (.fresh none) .resume = some r₀ ∧
    (recMachine stereo).run r₀ [.write [1], .pause, .resume, .write [2]] =
      some r ∧
    handle stereo r .stop = some r' ∧ r'.written = [1, 2] ∧
    ¬Complete stereo r' := by
  have h : outcome stereo [.write [1], .pause, .resume, .write [2]] =
      some ([1, 2], some (stereo.wavHead 2)) := by
    decide +kernel
  simp only [outcome, Option.bind_eq_some_iff, Option.map_eq_some_iff,
    Prod.mk.injEq] at h
  obtain ⟨r₀, h₀, r, hrun, r', hstop, hw, hc⟩ := h
  refine ⟨r₀, r, r', h₀, hrun, hstop, hw, ?_⟩
  rintro ⟨size, -, hfile⟩
  have hlen := congrArg (Option.map List.length) (hc.symm.trans hfile)
  rw [Option.map_some, Option.map_some, List.length_append,
    stereo.length_wavHead, stereo.length_wavHead, hw] at hlen
  exact absurd hlen (by decide)

end EspAdf.Ports.FatfsWriter
