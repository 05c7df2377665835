import EspAdf.Verified.CString
import EspAdf.Verified.Machine

/-!
# `periph_console.c`: the line buffer

The console task reads the UART byte by byte.  `console_get_line` stores a
character at `total_bytes`, takes one back at a backspace, and ends the line
with a zero.  It looks at `total_bytes` after it has stored and counted, and
starts again only when the count is greater than `CONSOLE_BUFFER_SIZE`.  When
it returns `true`, `_console_task` cuts the line into a command and arguments,
and `console_exec` looks the command up.

The count is between 0 and the size of the buffer as long as no character and
no line end comes behind a full buffer.  `line_buffer_iff` says that exactly
then every byte is stored in the buffer.
-/

namespace EspAdf.Ports.PeriphConsole

open EspAdf.Verified
open EspAdf.Verified.CString

/-! ## Data -/

/-- A string without the NUL at its end. -/
abbrev Line := List UInt8

def CONSOLE_BUFFER_SIZE : Nat := 128
def CONSOLE_MAX_ARGUMENTS : Nat := 5

/-- `periph_console_cmd_t`, and whether its `func` is set. -/
structure Cmd where
  cmd : Line
  id : Int
  func : Bool
  deriving DecidableEq, Repr

/-- `periph_console_t`. -/
structure Console where
  buffer : List UInt8
  size : buffer.length = CONSOLE_BUFFER_SIZE
  totalBytes : Int
  run : Bool
  commands : List Cmd
  deriving DecidableEq

/-- `console->buffer[i] = c`. -/
def Console.write (console : Console) (i : Int) (c : UInt8) : Console :=
  { console with
    buffer := console.buffer.set i.toNat c
    size := by rw [List.length_set, console.size] }

/-! ## `console_get_line` -/

/-- What `console_get_line` leaves and returns, what it echoes, and where it
writes into the buffer. -/
structure Got where
  console : Console
  line : Bool
  echo : List UInt8
  writes : List Int
  deriving DecidableEq

/-- `console_get_line`, by what `uart_read_bytes` reads.  A `char` is unsigned
here. -/
def consoleGetLine (console : Console) (maxSize : Nat) : Option UInt8 → Got
  | none => ⟨console, false, [], []⟩
  | some c =>
      if c = 8 ∨ c = 127 then
        if console.totalBytes > 0 then
          ⟨{ console with totalBytes := console.totalBytes - 1 }, false,
            [c, 0x20, c], []⟩
        else ⟨console, false, [], []⟩
      else if c = 10 ∨ c = 13 then
        ⟨console.write console.totalBytes 0, true, [13, 10],
          [console.totalBytes]⟩
      else if c < 0x20 then ⟨console, false, [], []⟩
      else
        let stored := { console.write console.totalBytes c with
          totalBytes := console.totalBytes + 1 }
        -- the comparison is one of unsigned numbers
        if stored.totalBytes % 4294967296 > (maxSize : Int) then
          ⟨{ stored with totalBytes := 0 }, false, [c], [console.totalBytes]⟩
        else ⟨stored, false, [c], [console.totalBytes]⟩

/-! ## `conslole_parse_arguments` -/

def isBlank (c : UInt8) : Bool := c == 0x20 || c == 0x09

def QUOTE : UInt8 := 0x22

/-- `p` behind the white space. -/
def skipBlanks (buffer : List UInt8) (p : Nat) : Nat :=
  p + ((buffer.drop p).takeWhile isBlank).length

/-- `strpbrk`, and `strstr` for a string of one byte: the first byte at `p` or
behind it that is looked for. -/
def strpbrk (buffer : List UInt8) (p : Nat) (accept : UInt8 → Bool) :
    Option Nat :=
  ((cString (buffer.drop p)).findIdx? accept).map (p + ·)

/-- What `conslole_parse_arguments` returns, `*saveptr`, and the buffer. -/
structure Parsed where
  ret : Option Nat
  saveptr : Option Nat
  buffer : List UInt8
  deriving DecidableEq, Repr

/-- The end of `conslole_parse_arguments`: the delimiter is replaced with a
zero. -/
def terminate (buffer : List UInt8) (p : Nat) (saveptr : Option Nat) :
    Parsed :=
  let buffer := match saveptr with
    | some delimiter => buffer.set delimiter 0
    | none => buffer
  ⟨if buffer[p]? = some 0 then none else some p, saveptr.map (· + 1), buffer⟩

/-- `conslole_parse_arguments`; pointers are indices, and `none` is `NULL`. -/
def consloleParseArguments (buffer : List UInt8) (str saveptr : Option Nat) :
    Parsed :=
  match str.or saveptr with
  | none => ⟨none, none, buffer⟩
  | some p =>
      let p := skipBlanks buffer p
      if buffer[p]? = some QUOTE then
        let p := p + 1
        terminate buffer p (strpbrk buffer p fun c => c == QUOTE)
      else terminate buffer p (strpbrk buffer p isBlank)

theorem length_terminate (buffer : List UInt8) (p : Nat)
    (saveptr : Option Nat) :
    (terminate buffer p saveptr).buffer.length = buffer.length := by
  cases saveptr with
  | none => rfl
  | some delimiter => exact List.length_set

theorem length_parseArguments (buffer : List UInt8)
    (str saveptr : Option Nat) :
    (consloleParseArguments buffer str saveptr).buffer.length =
      buffer.length := by
  rw [consloleParseArguments]
  cases str.or saveptr with
  | none => rfl
  | some p =>
      dsimp only
      split <;> exact length_terminate buffer _ _

/-! ## `_console_task` -/

/-- `cmd`, `args` up to `n`, and the buffer. -/
structure Command where
  cmd : Option Nat
  args : List Nat
  buffer : List UInt8
  deriving DecidableEq, Repr

/-- The loop that collects arguments, with `room` for that many. -/
def collectArgs (room : Nat) (cmd tokp : Option Nat) (args : List Nat)
    (buffer : List UInt8) : Command :=
  let parsed := consloleParseArguments buffer none tokp
  match parsed.ret, room with
  | none, _ => ⟨cmd, args, parsed.buffer⟩
  | some _, 0 => ⟨none, args, parsed.buffer⟩
  | some lp, room + 1 =>
      collectArgs room cmd parsed.saveptr (args ++ [lp]) parsed.buffer

theorem length_collectArgs (room : Nat) (cmd tokp : Option Nat)
    (args : List Nat) (buffer : List UInt8) :
    (collectArgs room cmd tokp args buffer).buffer.length =
      buffer.length := by
  induction room generalizing tokp args buffer with
  | zero =>
      unfold collectArgs
      dsimp only
      split
      · exact length_parseArguments buffer none tokp
      · exact length_parseArguments buffer none tokp
      · contradiction
  | succ room ih =>
      unfold collectArgs
      dsimp only
      split
      · exact length_parseArguments buffer none tokp
      · contradiction
      · rename_i h
        obtain rfl := Nat.succ.inj h
        rw [ih, length_parseArguments]

/-- A line is cut into the command and its arguments. -/
def readCommand (buffer : List UInt8) : Command :=
  let parsed := consloleParseArguments buffer (some 0) none
  collectArgs CONSOLE_MAX_ARGUMENTS parsed.ret parsed.saveptr [] parsed.buffer

theorem length_readCommand (buffer : List UInt8) :
    (readCommand buffer).buffer.length = buffer.length := by
  rw [readCommand, length_collectArgs, length_parseArguments]

/-- The string that a pointer points to. -/
def stringAt (buffer : List UInt8) (p : Nat) : Line := cString (buffer.drop p)

/-- A call of `console_exec`: `cmd`, and `argv` of which `argc` is the
length. -/
structure ExecCall where
  cmd : Option Line
  argv : List Line
  deriving DecidableEq, Repr

/-- The call that `_console_task` makes for what it has read. -/
def callOf (command : Command) : ExecCall :=
  ⟨command.cmd.map (stringAt command.buffer),
    command.args.map (stringAt command.buffer)⟩

/-- What one round of the loop of `_console_task` leaves, and its call of
`console_exec`. -/
structure Round where
  console : Console
  exec : Option ExecCall
  deriving DecidableEq

/-- What `_console_task` does with a line. -/
def handleLine (console : Console) : Round :=
  let command := readCommand console.buffer
  let console : Console := { console with
    buffer := command.buffer
    size := by rw [length_readCommand, console.size] }
  if console.totalBytes > 0 then
    ⟨{ console with totalBytes := 0 }, some (callOf command)⟩
  else ⟨console, none⟩

/-- One round of the loop of `_console_task`. -/
def consoleTask (console : Console) (received : Option UInt8) : Round :=
  let got := consoleGetLine console CONSOLE_BUFFER_SIZE received
  if got.line then handleLine got.console else ⟨got.console, none⟩

/-! ## `console_exec` -/

def toLower (c : UInt8) : UInt8 :=
  if 0x41 ≤ c ∧ c ≤ 0x5A then c + 0x20 else c

/-- Whether `strcasecmp` returns zero. -/
def strcasecmp (a b : Line) : Bool := a.map toLower == b.map toLower

/-- What `console_exec` does. -/
inductive Exec where
  /-- `strcasecmp` is called with `NULL`. -/
  | nullDeref
  /-- The `func` of command `i` is called. -/
  | func (i : Nat) (argv : List Line)
  /-- The event is sent. -/
  | event (cmdId : Int) (argv : List Line)
  /-- The help is printed. -/
  | help
  deriving DecidableEq, Repr

/-- `console_exec`. -/
def consoleExec (commands : List Cmd) (call : ExecCall) : Exec :=
  match call.cmd with
  | none => if commands.isEmpty then .help else .nullDeref
  | some cmd =>
      match commands.findIdx? fun command => strcasecmp cmd command.cmd with
      | none => .help
      | some i =>
          match commands[i]? with
          | none => .help
          | some command =>
              if command.func then .func i call.argv
              else .event (if command.id = 0 then i else command.id) call.argv

/-! ## The task and the byte it reads -/

inductive Act where
  | receive (received : Option UInt8)
  /-- `_console_destroy` ends the loop. -/
  | destroy
  deriving DecidableEq, Repr

def step (console : Console) : Act → Option Console
  | .receive received =>
      if console.run then some (consoleTask console received).console else none
  | .destroy => some { console with run := false }

def consoleMachine : Machine Console Act := ⟨step⟩

/-- The task starts; `memory` is what `malloc` returned. -/
def start (memory : Vector UInt8 CONSOLE_BUFFER_SIZE) (commands : List Cmd) :
    Console :=
  ⟨memory.toList, memory.length_toList, 0, true, commands⟩

/-! ## The property and the condition -/

/-- `console_get_line` writes into the buffer only, and the count is not
negative. -/
def InBounds (console : Console) : Act → Prop
  | .receive received =>
      let got := consoleGetLine console CONSOLE_BUFFER_SIZE received
      (∀ i ∈ got.writes, 0 ≤ i ∧ i < CONSOLE_BUFFER_SIZE) ∧
        0 ≤ got.console.totalBytes
  | .destroy => True

/-- A character that is stored, or a line end. -/
def stores (c : UInt8) : Bool :=
  c ≠ 8 && c ≠ 127 && (c = 10 || c = 13 || 0x20 ≤ c)

/-- No character and no line end comes behind a full buffer. -/
def Room (console : Console) : Act → Prop
  | .receive (some c) =>
      console.totalBytes = CONSOLE_BUFFER_SIZE → stores c = false
  | .receive none => True
  | .destroy => True

/-! ## The count -/

/-- The count is between 0 and the size of the buffer. -/
def Counted (console : Console) : Prop :=
  0 ≤ console.totalBytes ∧ console.totalBytes ≤ CONSOLE_BUFFER_SIZE

/-- What `console_get_line` does with a byte. -/
theorem getLine_cases (console : Console) (maxSize : Nat) (c : UInt8) :
    (stores c = false ∧
      (consoleGetLine console maxSize (some c)).line = false ∧
      (consoleGetLine console maxSize (some c)).writes = [] ∧
      ∃ back : Int, (back = 0 ∨ back = 1 ∧ 0 < console.totalBytes) ∧
        (consoleGetLine console maxSize (some c)).console =
          { console with totalBytes := console.totalBytes - back }) ∨
    ((c = 10 ∨ c = 13) ∧ stores c = true ∧
      consoleGetLine console maxSize (some c) =
        ⟨console.write console.totalBytes 0, true, [13, 10],
          [console.totalBytes]⟩) ∨
    (0x20 ≤ c ∧ stores c = true ∧
      consoleGetLine console maxSize (some c) =
        ⟨{ console.write console.totalBytes c with
            totalBytes :=
              if (console.totalBytes + 1) % 4294967296 > (maxSize : Int) then 0
              else console.totalBytes + 1 },
          false, [c], [console.totalBytes]⟩) := by
  by_cases hback : c = 8 ∨ c = 127
  · have hstores : stores c = false := by
      rcases hback with rfl | rfl <;> decide
    refine .inl ⟨hstores, ?_⟩
    simp only [consoleGetLine, if_pos hback]
    split
    · rename_i hpos
      exact ⟨rfl, rfl, 1, .inr ⟨rfl, hpos⟩, rfl⟩
    · exact ⟨rfl, rfl, 0, .inl rfl, by rw [Int.sub_zero]⟩
  · by_cases hend : c = 10 ∨ c = 13
    · have hstores : stores c = true := by
        rcases hend with rfl | rfl <;> decide
      refine .inr (.inl ⟨hend, hstores, ?_⟩)
      simp only [consoleGetLine, if_neg hback, if_pos hend]
    · obtain ⟨h8, h127⟩ := not_or.1 hback
      obtain ⟨h10, h13⟩ := not_or.1 hend
      by_cases hctrl : c < 0x20
      · refine .inl ⟨?_, ?_⟩
        · simp [stores, h8, h127, h10, h13, UInt8.not_le.2 hctrl]
        · rw [consoleGetLine, if_neg hback, if_neg hend, if_pos hctrl]
          exact ⟨rfl, rfl, 0, .inl rfl, by rw [Int.sub_zero]⟩
      · have hle : 0x20 ≤ c := UInt8.not_lt.1 hctrl
        refine .inr (.inr ⟨hle, ?_, ?_⟩)
        · simp [stores, h8, h127, hle]
        · simp only [consoleGetLine, if_neg hback, if_neg hend, if_neg hctrl]
          split <;> rfl

/-- A byte keeps the count if there is room for it. -/
theorem Counted.getLine {console : Console} (h : Counted console)
    {received : Option UInt8} (hroom : Room console (.receive received)) :
    Counted
      (consoleGetLine console CONSOLE_BUFFER_SIZE received).console := by
  cases received with
  | none => exact h
  | some c =>
      obtain ⟨hlow, hhigh⟩ := h
      have hsize : (CONSOLE_BUFFER_SIZE : Int) = 128 := rfl
      rcases getLine_cases console CONSOLE_BUFFER_SIZE c with
        ⟨-, -, -, back, hback, hgot⟩ | ⟨-, -, hgot⟩ | ⟨-, hstores, hgot⟩
      · rw [hgot]
        show 0 ≤ console.totalBytes - back ∧
          console.totalBytes - back ≤ CONSOLE_BUFFER_SIZE
        omega
      · rw [hgot]
        exact ⟨hlow, hhigh⟩
      · have hne : console.totalBytes ≠ CONSOLE_BUFFER_SIZE := fun hfull => by
          rw [hroom hfull] at hstores
          contradiction
        rw [hgot]
        show 0 ≤ ite _ _ _ ∧ ite _ _ _ ≤ (CONSOLE_BUFFER_SIZE : Int)
        split <;> omega

/-- So does a round of the task, which counts from zero behind a command. -/
theorem Counted.task {console : Console} (h : Counted console)
    {received : Option UInt8} (hroom : Room console (.receive received)) :
    Counted (consoleTask console received).console := by
  have hgot := h.getLine hroom
  rw [consoleTask]
  split
  · rw [handleLine]
    dsimp only
    split
    · exact ⟨Int.le_refl 0, Int.natCast_nonneg _⟩
    · exact hgot
  · exact hgot

theorem Counted.step {s t : Console} {a : Act} (h : Counted s)
    (hroom : Room s a) (hs : consoleMachine.step s a = some t) :
    Counted t := by
  cases a with
  | destroy =>
      cases hs
      exact h
  | receive received =>
      obtain ⟨-, hs⟩ := Option.ite_none_right_eq_some.1 hs
      cases hs
      exact h.task hroom

/-- The next byte is stored in the buffer exactly if there is room. -/
theorem inBounds_iff {console : Console} (h : Counted console) (a : Act) :
    InBounds console a ↔ Room console a := by
  cases a with
  | destroy => exact Iff.rfl
  | receive received =>
      cases received with
      | none => exact iff_of_true ⟨nofun, h.1⟩ trivial
      | some c =>
          constructor
          · intro hin hfull
            rcases getLine_cases console CONSOLE_BUFFER_SIZE c with
              ⟨hstores, -⟩ | ⟨-, -, hgot⟩ | ⟨-, -, hgot⟩
            · exact hstores
            · have hlt := hin.1 console.totalBytes
                (by rw [hgot]; exact List.mem_singleton_self _)
              omega
            · have hlt := hin.1 console.totalBytes
                (by rw [hgot]; exact List.mem_singleton_self _)
              omega
          · intro hroom
            refine ⟨fun i hi => ?_, (h.getLine hroom).1⟩
            rcases getLine_cases console CONSOLE_BUFFER_SIZE c with
              ⟨-, -, hwrites, -⟩ | ⟨-, hstores, hgot⟩ | ⟨-, hstores, hgot⟩
            · rw [hwrites] at hi
              contradiction
            all_goals
              rw [hgot] at hi
              obtain rfl := List.mem_singleton.1 hi
              refine ⟨h.1, lt_of_le_of_ne h.2 fun hfull => ?_⟩
              rw [hroom hfull] at hstores
              contradiction

/-! ## The result -/

/-- **`console_get_line` writes into the buffer only**, and the count is never
negative, exactly as long as no character and no line end comes behind a full
buffer. -/
theorem line_buffer_iff (memory : Vector UInt8 CONSOLE_BUFFER_SIZE)
    (commands : List Cmd) (as : List Act) :
    consoleMachine.Meets InBounds (start memory commands) as ↔
      consoleMachine.Meets Room (start memory commands) as :=
  Machine.meets_congr (fun _ a h => inBounds_iff h a)
    (fun _ _ _ h hroom hs => h.step hroom hs)
    (I := Counted) ⟨Int.le_refl 0, Int.natCast_nonneg _⟩ as

/-- The line end behind 128 characters is written behind the buffer. -/
theorem line_buffer_overrun :
    ¬consoleMachine.Meets InBounds (start (Vector.replicate _ 0) [])
      (List.replicate 128 (.receive (some 97)) ++
        [.receive (some 10)]) := by
  have hrun : (consoleMachine.run (start (Vector.replicate _ 0) [])
      (List.replicate 128 (.receive (some 97)))).map Console.totalBytes =
      some 128 := by
    decide +kernel
  obtain ⟨t, ht, htotal⟩ := Option.map_eq_some_iff.1 hrun
  rw [Machine.meets_concat ht]
  rintro ⟨-, hin, -⟩
  have hlt := hin t.totalBytes (List.mem_singleton_self _)
  rw [htotal] at hlt
  exact absurd hlt.2 (by decide)

end EspAdf.Ports.PeriphConsole
