import EspAdf.Ports.ElementProcess

/-!
# `fatfs_stream.c`: the reader

`_fatfs_open`, `_fatfs_read`, `_fatfs_process` and `_fatfs_close` of a stream
of type `AUDIO_STREAM_READER`, and the element task that calls them.  The
position in the file survives a pause in `info.byte_pos`: `_fatfs_read`
advances it, `_fatfs_open` seeks to it, and `_fatfs_close` clears it unless
the element is in `AEL_STATE_PAUSED` at that moment.

`fopen`, `stat`, `fseek` and `fread` work on the bytes of the files without
errors; `long` has 32 bits on this target.  A `Player` is an element, as in
`ElementProcess`, whose callbacks are the ones of this file.
-/

namespace EspAdf.Ports.FatfsStream

open EspAdf.Verified
open EspAdf.Ports.AudioElement

/-! ## Files -/

/-- What the stream is given: the `uri` of the element, the files, and the
size of the element's buffer. -/
structure Setup where
  uri : Option String
  files : String → Option (List UInt8)
  bufSize : Nat

/-- A stream opened for reading. -/
structure File where
  path : String
  pos : Nat
  deriving DecidableEq, Repr

/-- `strstr` on the characters of the strings. -/
def strstr (needle : List Char) : List Char → Option (List Char)
  | [] => if needle.isEmpty then some [] else none
  | c :: cs =>
      if needle.isPrefixOf (c :: cs) then some (c :: cs) else strstr needle cs

/-- `strstr(uri, "/sdcard")`. -/
def Setup.path (d : Setup) : Option String :=
  d.uri.bind fun uri =>
    (strstr "/sdcard".toList uri.toList).map String.ofList

def Setup.fopen (d : Setup) (path : String) : Option File :=
  (d.files path).map fun _ => ⟨path, 0⟩

/-- `siz.st_size`, zero when `stat` fails. -/
def Setup.size (d : Setup) (path : String) : Nat :=
  ((d.files path).map List.length).getD 0

/-- The conversion to `long`. -/
def toLong (n : Nat) : Int := Int.bmod n (2 ^ 32)

/-- `fseek(file, offset, SEEK_SET)`. -/
def fseek (f : File) (offset : Int) : Option File :=
  if offset < 0 then none else some { f with pos := offset.toNat }

def Setup.fread (d : Setup) (f : File) (len : Nat) : List UInt8 × File :=
  let bytes := (((d.files f.path).getD []).drop f.pos).take len
  (bytes, { f with pos := f.pos + bytes.length })

/-! ## The callbacks -/

/-- `fatfs_stream_t` of a reader; `file` is what `fopen` returned last. -/
structure Fatfs where
  isOpen : Bool
  file : Option File
  deriving DecidableEq, Repr

/-- The fields of `audio_element_info_t` that the stream uses. -/
structure Info where
  bytePos : Nat
  totalBytes : Nat
  deriving DecidableEq, Repr

structure Stream where
  fatfs : Fatfs
  info : Info
  deriving DecidableEq, Repr

/-- `info.byte_pos > 0` and then `fseek(file, info.byte_pos, SEEK_SET)`. -/
def seekTo (info : Info) (f : File) : Option File :=
  if info.bytePos > 0 then fseek f (toLong info.bytePos) else some f

/-- `_fatfs_open`; the flag says that it returns `ESP_OK`. -/
def fatfsOpen (d : Setup) (s : Stream) : Stream × Bool :=
  match d.path with
  | none => (s, false)
  | some path =>
      if s.fatfs.isOpen then (s, false)
      else
        let info := { s.info with totalBytes := d.size path }
        match d.fopen path with
        | none => ({ s with fatfs := ⟨false, none⟩ }, false)
        | some f =>
            match seekTo info f with
            | none => ({ s with fatfs := ⟨false, some f⟩ }, false)
            | some f =>
                -- the same seek again, now that `is_open` is set
                match seekTo info f with
                | none => ({ s with fatfs := ⟨true, some f⟩ }, false)
                | some f => (⟨⟨true, some f⟩, info⟩, true)

/-- `_fatfs_read`: undefined on a stream that is not open. -/
def fatfsRead (d : Setup) (s : Stream) (len : Nat) :
    Option (Stream × List UInt8) :=
  match s.fatfs with
  | ⟨true, some f⟩ =>
      let (bytes, f) := d.fread f len
      some (⟨⟨true, some f⟩,
        { s.info with bytePos := s.info.bytePos + bytes.length }⟩, bytes)
  | _ => none

/-- `_fatfs_close`, in the element's present state. -/
def fatfsClose (state : State) (s : Stream) : Stream where
  fatfs := { s.fatfs with isOpen := false }
  info := if state ≠ .paused then { s.info with bytePos := 0 } else s.info

/-- A seek to the position of `info` gets there, or it fails. -/
theorem seekTo_pos {info : Info} {f f' : File}
    (h : seekTo info f = some f')
    (hlong : 0 ≤ toLong info.bytePos → toLong info.bytePos = info.bytePos)
    (hpos : f.pos = 0 ∨ f.pos = info.bytePos) :
    f' = ⟨f.path, info.bytePos⟩ := by
  unfold seekTo fseek at h
  split at h
  · split at h
    · cases h
    · rename_i hneg
      have hpos' := hlong (by omega)
      cases h
      simp [hpos']
  · rename_i hzero
    cases h
    have hzero : info.bytePos = 0 := by omega
    cases f with
    | mk path pos =>
        rcases hpos with rfl | rfl
        · rw [hzero]
        · rfl

/-- `_fatfs_open` opens the file at the position of `info`. -/
theorem fatfsOpen_ok {d : Setup} {s : Stream}
    (hlong : 0 ≤ toLong s.info.bytePos →
      toLong s.info.bytePos = s.info.bytePos)
    (h : (fatfsOpen d s).2 = true) :
    ∃ path, d.path = some path ∧
      (fatfsOpen d s).1.fatfs = ⟨true, some ⟨path, s.info.bytePos⟩⟩ ∧
      (fatfsOpen d s).1.info.bytePos = s.info.bytePos := by
  unfold fatfsOpen at h ⊢
  split at h
  · cases h
  · rename_i path hpath
    split at h
    · cases h
    · rename_i hclosed
      dsimp only at h
      split at h
      · cases h
      · rename_i f hf
        split at h
        · cases h
        · rename_i f₁ hf₁
          split at h
          · cases h
          · rename_i f₂ hf₂
            have hopen : f.pos = 0 ∧ f.path = path := by
              obtain ⟨_, -, rfl⟩ := Option.map_eq_some_iff.1 hf
              exact ⟨rfl, rfl⟩
            have h₁ := seekTo_pos hf₁ hlong (.inl hopen.1)
            have h₂ := seekTo_pos hf₂ hlong (.inr (by rw [h₁]))
            refine ⟨path, hpath, ?_⟩
            simp only [hclosed, hf₁, hf₂]
            rw [h₂, h₁, hopen.2]
            exact ⟨rfl, rfl⟩

/-- `_fatfs_read` delivers the bytes from the file's position on. -/
theorem fatfsRead_some {d : Setup} {s s' : Stream} {len : Nat}
    {bytes : List UInt8} (h : fatfsRead d s len = some (s', bytes)) :
    ∃ f, s.fatfs = ⟨true, some f⟩ ∧
      bytes = (((d.files f.path).getD []).drop f.pos).take len ∧
      s'.fatfs = ⟨true, some ⟨f.path, f.pos + bytes.length⟩⟩ ∧
      s'.info.bytePos = s.info.bytePos + bytes.length := by
  unfold fatfsRead at h
  split at h
  · rename_i f hf
    cases h
    exact ⟨f, hf, rfl, rfl, rfl⟩
  · cases h

/-- What `audio_element_output` does besides returning `len`. -/
def outputEffect (len : Int) : Option Effect :=
  if len > 0 ∨ len = AEL_IO_DONE ∨ len = AEL_IO_OK then none
  else if len = AEL_IO_ABORT then some .stop
  else if len = AEL_IO_FAIL then some .outputFail
  else some .sendPause

/-! ## The element with these callbacks -/

/-- The element of `fatfs_stream_init`. -/
def fatfsConfig (internalQueueSize : Nat) : Config :=
  ⟨true, true, internalQueueSize⟩

structure Player where
  watched : Watched
  stream : Stream
  /-- What `_fatfs_process` has got from `audio_element_output` and is going
  to return. -/
  result : Option Int
  /-- History: the next `open` starts a session. -/
  fresh : Bool
  /-- History: what `_fatfs_read` delivered in this session. -/
  delivered : List UInt8
  deriving DecidableEq, Repr

def Player.el (p : Player) : Element := p.watched.sys.el

/-- The commands that are delivered. -/
inductive PlayCmd where
  | pause
  | resume
  | stop
  | finish
  deriving DecidableEq, Repr

def PlayCmd.cmd : PlayCmd → Cmd
  | .pause => .pause
  | .resume => .resume
  | .stop => .stop
  | .finish => .finish

inductive PlayAct where
  | deliver (c : PlayCmd)
  /-- The task goes on. -/
  | go
  /-- The allocation of the element's buffer. -/
  | malloc (ok : Bool)
  /-- `_fatfs_process` goes on; `audio_element_output` would return `len`. -/
  | process (len : Int)
  deriving DecidableEq, Repr

/-- `_fatfs_process`: it reads and writes, and then returns. -/
def fatfsProcess (d : Setup) (p : Player) (len : Int) :
    Option (Player × Answer) :=
  match p.result with
  | some n => some ({ p with result := none }, .len n)
  | none =>
      match fatfsRead d p.stream d.bufSize with
      | none => none
      | some (stream, bytes) =>
          let p := { p with
            stream := stream, delivered := p.delivered ++ bytes }
          if bytes.length > 0 then
            match outputEffect len with
            | some e => some ({ p with result := some len }, .effect e)
            | none => some (p, .len len)
          else some (p, .len AEL_IO_OK)

/-- What the task's next operation does to the stream, and the answer of the
callback.  A session ends with a `STOP`, a `FINISH` or the `ERROR` that a
failing output queues. -/
def callbacks (d : Setup) (p : Player) : PlayAct → Option (Player × Answer)
  | .deliver _ => none
  | .go =>
      match p.el.todo.head? with
      | some .callOpen =>
          let (stream, ok) := fatfsOpen d p.stream
          some ({ p with
            stream := stream, fresh := false
            delivered := if p.fresh then [] else p.delivered }, .ok ok)
      | some .callClose =>
          some ({ p with stream := fatfsClose p.el.state p.stream }, .ok true)
      | some .callProcess => none
      | some .recv =>
          some ({ p with
            fresh := p.fresh || p.el.cmds.head?.any (·.cmd.ends) }, .go)
      | _ => some (p, .go)
  | .malloc ok =>
      if p.el.todo.head? = some .mallocBuf then some (p, .ok ok) else none
  | .process len =>
      if p.el.todo.head? = some .callProcess then fatfsProcess d p len
      else none

def playStep (d : Setup) (cfg : Config) (p : Player) :
    PlayAct → Option Player
  | .deliver c =>
      (watchStep cfg p.watched (.deliver c.cmd)).map fun w =>
        { p with watched := w }
  | a => (callbacks d p a).bind fun (p', ans) =>
      (watchStep cfg p.watched (.sys (.task ans))).map fun w =>
        { p' with watched := w }

def playMachine (d : Setup) (internalQueueSize : Nat) :
    Machine Player PlayAct :=
  ⟨playStep d (fatfsConfig internalQueueSize)⟩

def Player.start : Player where
  watched := .start
  stream := ⟨⟨false, none⟩, ⟨0, 0⟩⟩
  result := none
  fresh := true
  delivered := []

end EspAdf.Ports.FatfsStream
