import EspAdf.Ports.PeriphConsole

/-!
# `periph_console.c`: from a line to a command

`conslole_parse_arguments` cuts a line in place: it skips blanks, ends the
argument with a zero, and keeps the pointer behind it.  An argument that
starts with a quote ends at the next one.  An empty argument makes it return
`NULL`, like the end of the line.

`tokens` is the grammar, over strings that nobody overwrites.
`collectArgs_collects` proves that the pointers which `_console_task` collects
stand for its arguments when all of the line is cut.  Where there is no
command, or one argument too many, `cmd` is `NULL`, and `console_exec` is
called nevertheless.
-/

namespace EspAdf.Ports.ConsoleDispatch

open EspAdf.Verified
open EspAdf.Verified.CString
open EspAdf.Ports.PeriphConsole

/-! ## The grammar -/

/-- A string up to a delimiter, and what is behind the delimiter. -/
def cut (delimiter : UInt8 → Bool) : Line → Line × Option Line
  | [] => ([], none)
  | c :: s =>
      if delimiter c then ([], some s)
      else ((cut delimiter s).map (c :: ·) id)

/-- The next argument, and what is behind it. -/
def argument (s : Line) : Line × Option Line :=
  match s.dropWhile isBlank with
  | [] => ([], none)
  | c :: s =>
      if c = QUOTE then cut (fun c => c == QUOTE) s else cut isBlank (c :: s)

theorem cut_lt (delimiter : UInt8 → Bool) {s rest : Line}
    (h : (cut delimiter s).2 = some rest) : rest.length < s.length := by
  induction s with
  | nil => contradiction
  | cons c s ih =>
      rw [cut] at h
      split at h
      · obtain rfl := Option.some.inj h
        exact Nat.lt_succ_self _
      · exact Nat.lt_succ_of_lt (ih h)

theorem argument_lt {s rest : Line} (h : (argument s).2 = some rest) :
    rest.length < s.length := by
  have hle : (s.dropWhile isBlank).length ≤ s.length :=
    (List.dropWhile_suffix isBlank).length_le
  rw [argument] at h
  split at h
  · contradiction
  · rename_i c t hdrop
    rw [hdrop, List.length_cons] at hle
    split at h
    · exact Nat.lt_of_lt_of_le (cut_lt _ h) (by omega)
    · exact Nat.lt_of_lt_of_le (cut_lt _ h) hle

/-- The arguments of a line, up to an empty one. -/
def tokens (s : Line) : List Line :=
  match _h : argument s with
  | ([], _) => []
  | (token, none) => [token]
  | (token, some rest) => token :: tokens rest
termination_by s.length
decreasing_by exact argument_lt (by rw [_h])

/-- The arguments behind a pointer that may be `NULL`. -/
def tokensOf (rest : Option Line) : List Line := (rest.map tokens).getD []

theorem tokens_eq (s : Line) :
    tokens s = if (argument s).1 = [] then []
      else (argument s).1 :: tokensOf (argument s).2 := by
  rw [tokens]
  split
  · rename_i h
    rw [h, if_pos rfl]
  · rename_i hne h
    rw [h, if_neg (fun h0 => hne h0)]
    rfl
  · rename_i hne h
    rw [h, if_neg (fun h0 => hne h0)]
    rfl

/-! ## Pointers into the line -/

/-- A pointer that may be `NULL`, and the string it points to. -/
def Stands (buffer : List UInt8) : Option Nat → Option Line → Prop
  | none, none => True
  | some p, some s => Holds buffer p s
  | _, _ => False

/-- Where a string is cut: not at all, or at the delimiter `c`. -/
theorem cut_cases (delimiter : UInt8 → Bool) (s : Line) :
    cut delimiter s = (s, none) ∧ s.findIdx? delimiter = none ∨
    ∃ a c b, s = a ++ c :: b ∧ cut delimiter s = (a, some b) ∧
      s.findIdx? delimiter = some a.length := by
  induction s with
  | nil => exact .inl ⟨rfl, rfl⟩
  | cons c s ih =>
      rw [cut, List.findIdx?_cons]
      by_cases hc : delimiter c = true
      · rw [if_pos hc, if_pos hc]
        exact .inr ⟨[], c, s, rfl, rfl, rfl⟩
      · rw [if_neg hc, if_neg hc]
        rcases ih with ⟨hcut, hfind⟩ | ⟨a, d, b, rfl, hcut, hfind⟩
        · exact .inl ⟨by rw [hcut]; rfl, by rw [hfind]; rfl⟩
        · exact .inr ⟨c :: a, d, b, rfl, by rw [hcut]; rfl, by rw [hfind]; rfl⟩

/-- The zero behind a string is no blank. -/
theorem takeWhile_isBlank {s : Line} (z : List UInt8) :
    (s ++ 0 :: z).takeWhile isBlank = s.takeWhile isBlank := by
  induction s with
  | nil => rfl
  | cons c s ih =>
      rw [List.cons_append, List.takeWhile_cons, List.takeWhile_cons, ih]

/-- Behind the blanks stands the rest of the string. -/
theorem skipBlanks_holds {buffer : List UInt8} {p : Nat} {s : Line}
    (h : Holds buffer p s) :
    Holds buffer (skipBlanks buffer p) (s.dropWhile isBlank) := by
  have hlength : ((buffer.drop p).takeWhile isBlank).length =
      (s.takeWhile isBlank).length := by
    obtain ⟨-, pre, z, rfl, rfl⟩ := h
    rw [List.drop_left, takeWhile_isBlank]
  rw [skipBlanks, hlength]
  rw [← List.takeWhile_append_dropWhile (p := isBlank) (l := s)] at h
  exact h.tail

/-- What a call returns and leaves: the argument stands where it returns,
unless it is empty, and the rest of the line at `*saveptr`. -/
structure Cuts (buffer : List UInt8) (p : Nat) (parsed : Parsed)
    (token : Line) (rest : Option Line) : Prop where
  ret : ∃ q, p ≤ q ∧ parsed.ret = (if token = [] then none else some q) ∧
    Holds parsed.buffer q token ∧ ∀ r ∈ parsed.saveptr, q + token.length < r
  rest : Stands parsed.buffer parsed.saveptr rest
  before : parsed.buffer.take p = buffer.take p

/-- The delimiter is looked for and overwritten. -/
theorem terminate_cuts {buffer : List UInt8} {p : Nat} {s : Line}
    (h : Holds buffer p s) (delimiter : UInt8 → Bool) :
    Cuts buffer p (terminate buffer p (strpbrk buffer p delimiter))
      (cut delimiter s).1 (cut delimiter s).2 := by
  rw [strpbrk, h.cString]
  rcases cut_cases delimiter s with ⟨hcut, hfind⟩ | ⟨a, c, b, rfl, hcut, hfind⟩
  · rw [hcut, hfind]
    refine ⟨⟨p, Nat.le_refl p, ?_, h, nofun⟩, trivial, rfl⟩
    simp only [terminate, Option.map_none, h.first_zero]
  · rw [hcut, hfind]
    refine ⟨⟨p, Nat.le_refl p, ?_, h.cut, ?_⟩, h.behind, ?_⟩
    · simp only [terminate, Option.map_some, h.cut.first_zero]
    · intro r hr
      obtain rfl := Option.some.inj hr
      exact Nat.lt_succ_self _
    · exact List.take_set_of_le (Nat.le_add_right p a.length)

theorem Cuts.mono {buffer : List UInt8} {p q : Nat} {parsed : Parsed}
    {token : Line} {rest : Option Line} (h : Cuts buffer q parsed token rest)
    (hle : p ≤ q) : Cuts buffer p parsed token rest := by
  obtain ⟨r, hqr, hret⟩ := h.ret
  refine ⟨⟨r, Nat.le_trans hle hqr, hret⟩, h.rest, ?_⟩
  have htake := congrArg (List.take p) h.before
  rwa [List.take_take, List.take_take, Nat.min_eq_left hle] at htake

/-- **One call of `conslole_parse_arguments`** takes the next argument off the
line. -/
theorem parse_cuts {buffer : List UInt8} {p : Nat} {s : Line}
    (h : Holds buffer p s) (str saveptr : Option Nat)
    (hp : str.or saveptr = some p) :
    Cuts buffer p (consloleParseArguments buffer str saveptr) (argument s).1
      (argument s).2 := by
  have hskip := skipBlanks_holds h
  have hle : p ≤ skipBlanks buffer p := Nat.le_add_right _ _
  -- the byte behind the blanks tells which delimiter ends the argument
  have hbyte := hskip.byte (Nat.zero_le _)
  rw [Nat.add_zero] at hbyte
  rw [consloleParseArguments, hp, argument]
  dsimp only
  rw [hbyte]
  cases hdrop : s.dropWhile isBlank with
  | nil =>
      rw [hdrop] at hskip
      rw [if_neg (by decide)]
      exact (terminate_cuts hskip isBlank).mono hle
  | cons c t =>
      rw [hdrop] at hskip
      by_cases hc : c = QUOTE
      · rw [if_pos (by simp [hc])]
        dsimp only
        rw [if_pos hc]
        exact (terminate_cuts (Holds.tail (a := [c]) hskip) _).mono (by omega)
      · rw [if_neg (by simp [hc])]
        dsimp only
        rw [if_neg hc]
        exact (terminate_cuts hskip isBlank).mono hle

/-- Strings that end before the rest of the line are not touched. -/
theorem Cuts.keeps {buffer : List UInt8} {p : Nat} {parsed : Parsed}
    {token : Line} {rest : Option Line} (h : Cuts buffer p parsed token rest)
    {a : Nat} {t : Line} (ht : Holds buffer a t) (hlt : a + t.length < p) :
    Holds parsed.buffer a t :=
  ht.of_take hlt h.before

/-! ## All arguments -/

/-- What the loop leaves: the strings before the rest of the line are as they
were, and the arguments follow those it had, or `cmd` is `NULL`. -/
structure Collects (buffer : List UInt8) (tokp : Option Nat)
    (cmd : Option Nat) (args : List Nat) (room : Nat) (more : List Line)
    (out : Command) : Prop where
  keeps : ∀ a t, Holds buffer a t → (∀ r ∈ tokp, a + t.length < r) →
    Holds out.buffer a t
  args : more.length ≤ room → out.cmd = cmd ∧
    ∃ ptrs, out.args = args ++ ptrs ∧ List.Forall₂ (Holds out.buffer) ptrs more
  many : room < more.length → out.cmd = none

/-- The loop ends where there is no argument. -/
theorem Collects.done {buffer buffer' : List UInt8} {tokp : Option Nat}
    (cmd : Option Nat) (args : List Nat) (room : Nat)
    (hkeeps : ∀ a t, Holds buffer a t → (∀ r ∈ tokp, a + t.length < r) →
      Holds buffer' a t) :
    Collects buffer tokp cmd args room [] ⟨cmd, args, buffer'⟩ := by
  refine ⟨hkeeps, fun _ => ⟨rfl, [], by rw [List.append_nil], .nil⟩, ?_⟩
  intro h
  exact absurd h (Nat.not_lt_zero _)

/-- It ends where there is no room. -/
theorem Collects.full {buffer buffer' : List UInt8} {tokp : Option Nat}
    (cmd : Option Nat) (args : List Nat) (token : Line) (more : List Line)
    (hkeeps : ∀ a t, Holds buffer a t → (∀ r ∈ tokp, a + t.length < r) →
      Holds buffer' a t) :
    Collects buffer tokp cmd args 0 (token :: more) ⟨none, args, buffer'⟩ :=
  ⟨hkeeps, fun h => absurd h (Nat.not_succ_le_zero _), fun _ => rfl⟩

/-- One argument more. -/
theorem Collects.next {buffer : List UInt8} {p q : Nat} {parsed : Parsed}
    {token : Line} {rest : Option Line}
    (hcuts : Cuts buffer p parsed token rest)
    (hpq : p ≤ q) (htoken : Holds parsed.buffer q token)
    (hbehind : ∀ r ∈ parsed.saveptr, q + token.length < r) {cmd : Option Nat}
    {args : List Nat} {room : Nat} {more : List Line} {out : Command}
    (h : Collects parsed.buffer parsed.saveptr cmd (args ++ [q]) room more
      out) :
    Collects buffer (some p) cmd args (room + 1) (token :: more) out := by
  refine ⟨fun a t ht hlt => ?_, fun hle => ?_, fun hlt => ?_⟩
  · have hp := hlt p rfl
    refine h.keeps a t (hcuts.keeps ht hp) fun r hr => ?_
    have hr := hbehind r hr
    omega
  · obtain ⟨hcmd, ptrs, hargs, hptrs⟩ := h.args (Nat.le_of_succ_le_succ hle)
    refine ⟨hcmd, q :: ptrs, by rw [hargs]; simp, .cons ?_ hptrs⟩
    exact h.keeps q token htoken hbehind
  · exact h.many (Nat.lt_of_succ_lt_succ hlt)

/-- A call finds no argument, or the first one of the rest of the line. -/
theorem parse_cases {tokp : Option Nat} {rest : Option Line}
    {buffer : List UInt8} (h : Stands buffer tokp rest) :
    let parsed := consloleParseArguments buffer none tokp
    (parsed.ret = none ∧ tokensOf rest = [] ∧ ∀ a t, Holds buffer a t →
      (∀ r ∈ tokp, a + t.length < r) → Holds parsed.buffer a t) ∨
    ∃ p q token more, tokp = some p ∧ p ≤ q ∧ parsed.ret = some q ∧
      tokensOf rest = token :: tokensOf more ∧
      Cuts buffer p parsed token more ∧ Holds parsed.buffer q token ∧
      ∀ r ∈ parsed.saveptr, q + token.length < r := by
  match tokp, rest, h with
  | none, none, _ => exact .inl ⟨rfl, rfl, fun a t ht _ => ht⟩
  | some p, some s, h =>
      have hcuts := parse_cuts h none (some p) rfl
      obtain ⟨q, hpq, hret, htoken, hbehind⟩ := hcuts.ret
      rw [tokensOf, Option.map_some, Option.getD_some, tokens_eq]
      by_cases hnil : (argument s).1 = []
      · rw [if_pos hnil] at hret ⊢
        exact .inl ⟨hret, rfl, fun a t ht hlt => hcuts.keeps ht (hlt p rfl)⟩
      · rw [if_neg hnil] at hret ⊢
        exact .inr ⟨p, q, _, _, rfl, hpq, hret, rfl, hcuts, htoken, hbehind⟩

/-- **The loop that collects arguments**, by induction on the room: it leaves
pointers to the arguments of the rest of the line, if they are not too
many. -/
theorem collectArgs_collects (room : Nat) {tokp : Option Nat}
    {rest : Option Line} {buffer : List UInt8} (h : Stands buffer tokp rest)
    (cmd : Option Nat) (args : List Nat) :
    Collects buffer tokp cmd args room (tokensOf rest)
      (collectArgs room cmd tokp args buffer) := by
  induction room generalizing tokp rest buffer args with
  | zero =>
      unfold collectArgs
      dsimp only
      rcases parse_cases h with ⟨hret, hnil, hkeeps⟩ |
        ⟨p, q, token, more, rfl, -, hret, hcons, hcuts, -⟩
      · rw [hret, hnil]
        exact .done cmd args 0 hkeeps
      · rw [hret, hcons]
        exact .full cmd args token _ fun a t ht hlt =>
          hcuts.keeps ht (hlt p rfl)
  | succ room ih =>
      unfold collectArgs
      dsimp only
      rcases parse_cases h with ⟨hret, hnil, hkeeps⟩ |
        ⟨p, q, token, more, rfl, hpq, hret, hcons, hcuts, htoken, hbehind⟩
      · rw [hret, hnil]
        exact .done cmd args (room + 1) hkeeps
      · rw [hret, hcons]
        exact .next hcuts hpq htoken hbehind (ih hcuts.rest (args ++ [q]))

/-! ## The line -/

/-- The call that a line asks for, if it has a command and not too many
arguments. -/
def wanted (line : Line) : Option ExecCall :=
  match tokens line with
  | [] => none
  | cmd :: args =>
      if args.length ≤ CONSOLE_MAX_ARGUMENTS then some ⟨some cmd, args⟩
      else none

theorem map_stringAt {buffer : List UInt8} {ptrs : List Nat}
    {strings : List Line} (h : List.Forall₂ (Holds buffer) ptrs strings) :
    ptrs.map (stringAt buffer) = strings := by
  induction h with
  | nil => rfl
  | cons hs _ ih => rw [List.map_cons, ih, stringAt, hs.cString]

/-- What is cut is the call that the line asks for, or `cmd` is `NULL`. -/
theorem readCommand_wanted {buffer : List UInt8} {line : Line}
    (h : Holds buffer 0 line) :
    match wanted line with
    | some call => callOf (readCommand buffer) = call
    | none => (callOf (readCommand buffer)).cmd = none := by
  have hcuts := parse_cuts h (some 0) none rfl
  obtain ⟨q, -, hret, htoken, hbehind⟩ := hcuts.ret
  have hargs := collectArgs_collects CONSOLE_MAX_ARGUMENTS hcuts.rest
    (consloleParseArguments buffer (some 0) none).ret []
  rw [wanted, tokens_eq, readCommand]
  by_cases hnil : (argument line).1 = []
  · rw [if_pos hnil] at hret ⊢
    rw [hret] at hargs ⊢
    rcases Nat.lt_or_ge CONSOLE_MAX_ARGUMENTS
      (tokensOf (argument line).2).length with hmany | hfew
    · simp only [callOf, hargs.many hmany, Option.map_none]
    · simp only [callOf, (hargs.args hfew).1, Option.map_none]
  · rw [if_neg hnil] at hret ⊢
    rw [hret] at hargs ⊢
    dsimp only
    rcases Nat.lt_or_ge CONSOLE_MAX_ARGUMENTS
      (tokensOf (argument line).2).length with hmany | hfew
    · rw [if_neg (Nat.not_le.2 hmany)]
      simp only [callOf, hargs.many hmany, Option.map_none]
    · obtain ⟨hcmd, ptrs, hptrs, hstrings⟩ := hargs.args hfew
      rw [if_pos hfew]
      simp only [callOf, hcmd, hptrs, List.nil_append, Option.map_some,
        map_stringAt hstrings, stringAt,
        (hargs.keeps q _ htoken hbehind).cString]

/-! ## The property and the condition -/

/-- The line was typed: it stands at the beginning of the buffer, which has
room for the zero behind it. -/
structure Typed (console : Console) (line : Line) : Prop where
  stands : line <+: console.buffer
  counted : console.totalBytes = line.length
  noZero : 0 ∉ line
  fits : line.length < CONSOLE_BUFFER_SIZE

/-- `console_exec` is called for the command of the line and its arguments, and
not at all if there is none or if they are too many.  No `NULL` is
dereferenced. -/
structure Dispatched (commands : List Cmd) (line : Line)
    (exec : Option ExecCall) : Prop where
  called : exec = wanted line
  safe : ∀ call ∈ exec, consoleExec commands call ≠ .nullDeref

/-- The line is empty, or it has a command and not too many arguments. -/
def Proper (line : Line) : Prop :=
  line = [] ∨ tokens line ≠ [] ∧
    (tokens line).length ≤ CONSOLE_MAX_ARGUMENTS + 1

theorem wanted_isSome_iff (line : Line) : (wanted line).isSome ↔
    tokens line ≠ [] ∧ (tokens line).length ≤ CONSOLE_MAX_ARGUMENTS + 1 := by
  rw [wanted]
  cases tokens line with
  | nil => simp
  | cons cmd args =>
      dsimp only
      split
      · rename_i hle
        exact iff_of_true rfl ⟨List.cons_ne_nil _ _, Nat.succ_le_succ hle⟩
      · rename_i hlt
        exact iff_of_false Bool.false_ne_true
          fun h => hlt (Nat.le_of_succ_le_succ h.2)

theorem wanted_cmd {line : Line} {call : ExecCall}
    (h : wanted line = some call) : ∃ cmd, call.cmd = some cmd := by
  rw [wanted] at h
  split at h
  · contradiction
  · obtain ⟨-, h⟩ := Option.ite_none_right_eq_some.1 h
    obtain rfl := Option.some.inj h
    exact ⟨_, rfl⟩

/-- A call with a command dereferences no `NULL`. -/
theorem exec_safe {commands : List Cmd} {call : ExecCall} {cmd : Line}
    (h : call.cmd = some cmd) : consoleExec commands call ≠ .nullDeref := by
  rw [consoleExec, h]
  dsimp only
  split
  · exact nofun
  · split
    · exact nofun
    · split <;> exact nofun

/-! ## The result -/

/-- The zero that `console_get_line` writes ends the line. -/
theorem Typed.holds {console : Console} {line : Line} (h : Typed console line) :
    Holds (console.write console.totalBytes 0).buffer 0 line := by
  obtain ⟨z, hz⟩ := h.stands
  have hlt : line.length < console.buffer.length := by
    rw [console.size]
    exact h.fits
  cases z with
  | nil =>
      rw [List.append_nil] at hz
      rw [hz] at hlt
      exact absurd hlt (Nat.lt_irrefl _)
  | cons c z =>
      refine ⟨h.noZero, [], z, ?_, rfl⟩
      show console.buffer.set console.totalBytes.toNat 0 = line ++ 0 :: z
      rw [h.counted, Int.toNat_natCast, ← hz,
        List.set_append_right _ _ (Nat.le_refl _), Nat.sub_self]
      rfl

/-- What `_console_task` calls behind a line. -/
theorem Typed.exec {console : Console} {line : Line} (h : Typed console line)
    {c : UInt8} (hc : c = 10 ∨ c = 13) :
    (consoleTask console (some c)).exec =
      if line = [] then none
      else some (callOf (readCommand
        (console.write console.totalBytes 0).buffer)) := by
  have hback : ¬(c = 8 ∨ c = 127) := by
    rcases hc with rfl | rfl <;> decide
  have hpos : console.totalBytes > 0 ↔ line ≠ [] := by
    rw [h.counted, gt_iff_lt, Int.natCast_pos, List.length_pos_iff]
  have hgot : consoleGetLine console CONSOLE_BUFFER_SIZE (some c) =
      ⟨console.write console.totalBytes 0, true, [13, 10],
        [console.totalBytes]⟩ := by
    rw [consoleGetLine, if_neg hback, if_pos hc]
  rw [consoleTask, hgot]
  dsimp only
  rw [if_pos rfl, handleLine]
  dsimp only
  split
  · rename_i hgt
    rw [if_neg (hpos.1 hgt)]
  · rename_i hle
    rw [if_pos (not_not.1 fun hne => hle (hpos.2 hne))]

/-- What is cut from a line is the right call, or the line is no call. -/
theorem dispatched_iff {commands : List Cmd} {line : Line} {made : ExecCall}
    (hread : match wanted line with
      | some call => made = call
      | none => made.cmd = none) :
    Dispatched commands line (if line = [] then none else some made) ↔
      Proper line := by
  rw [Proper, ← wanted_isSome_iff]
  by_cases hnil : line = []
  · rw [if_pos hnil]
    refine iff_of_true ⟨?_, nofun⟩ (.inl hnil)
    rw [hnil, wanted, tokens_eq]
    rfl
  · rw [if_neg hnil]
    cases hwanted : wanted line with
    | none =>
        refine iff_of_false (fun hright => ?_) ?_
        · have hcalled := hright.called
          rw [hwanted] at hcalled
          contradiction
        · rintro (hempty | hsome)
          · exact hnil hempty
          · contradiction
    | some call =>
        rw [hwanted] at hread
        dsimp only at hread
        rw [hread]
        refine iff_of_true ⟨hwanted.symm, ?_⟩ (.inr rfl)
        intro call' hcall
        obtain rfl := Option.some.inj hcall
        exact exec_safe (wanted_cmd hwanted).choose_spec

/-- A console whose buffer holds `line`. -/
def holding (line : Line) (commands : List Cmd) : Console where
  buffer := (line ++ List.replicate CONSOLE_BUFFER_SIZE 0).take
    CONSOLE_BUFFER_SIZE
  size := by simp
  totalBytes := line.length
  run := true
  commands := commands

theorem holding_typed {line : Line} (hzero : 0 ∉ line)
    (hfits : line.length < CONSOLE_BUFFER_SIZE) (commands : List Cmd) :
    Typed (holding line commands) line := by
  refine ⟨?_, rfl, hzero, hfits⟩
  show line <+: (line ++ _).take CONSOLE_BUFFER_SIZE
  rw [List.take_append, List.take_of_length_le hfits.le]
  exact List.prefix_append _ _

/-- The count is in the buffer, and no zero stands before it. -/
structure Clean (console : Console) : Prop where
  counted : Counted console
  noZero : 0 ∉ console.buffer.take console.totalBytes.toNat

/-- Without a call to come, the buffer holds a line. -/
theorem Clean.typed {console : Console} (h : Clean console)
    (hlt : console.totalBytes < CONSOLE_BUFFER_SIZE) :
    Typed console (console.buffer.take console.totalBytes.toNat) := by
  have hlow := h.counted.1
  have hlength : (console.buffer.take console.totalBytes.toNat).length =
      console.totalBytes.toNat := by
    rw [List.length_take, console.size]
    omega
  refine ⟨List.take_prefix _ _, ?_, h.noZero, ?_⟩
  · rw [hlength]
    omega
  · rw [hlength]
    omega

/-- A character that is stored is no zero. -/
theorem Clean.getLine {console : Console} (h : Clean console)
    {received : Option UInt8} (hroom : Room console (.receive received)) :
    Clean (consoleGetLine console CONSOLE_BUFFER_SIZE received).console := by
  have hcounted := h.counted.getLine hroom
  refine ⟨hcounted, ?_⟩
  cases received with
  | none => exact h.noZero
  | some c =>
      rcases getLine_cases console CONSOLE_BUFFER_SIZE c with
        ⟨-, -, -, back, hback, hgot⟩ | ⟨-, -, hgot⟩ | ⟨hc, -, hgot⟩
      · rw [hgot]
        intro h0
        have hle : (console.totalBytes - back).toNat ≤
            console.totalBytes.toNat := by omega
        exact h.noZero ((List.take_prefix_take_left hle).subset h0)
      · rw [hgot]
        show 0 ∉ (console.buffer.set console.totalBytes.toNat 0).take
          console.totalBytes.toNat
        rw [List.take_set_of_le (Nat.le_refl _)]
        exact h.noZero
      · rw [hgot]
        show 0 ∉ (console.buffer.set console.totalBytes.toNat c).take
          (ite _ _ _ : Int).toNat
        split
        · exact List.not_mem_nil
        · have hlow := h.counted.1
          have hnext : (console.totalBytes + 1).toNat =
              console.totalBytes.toNat + 1 := by omega
          rw [hnext, List.take_add_one, List.take_set_of_le (Nat.le_refl _),
            List.mem_append, not_or]
          refine ⟨h.noZero, fun h0 => ?_⟩
          rw [List.getElem?_set] at h0
          split at h0
          · split at h0
            · have hzero := List.mem_singleton.1 h0
              rw [← hzero] at hc
              exact absurd hc (by decide)
            · contradiction
          · contradiction

/-- Behind a line, the buffer is empty again. -/
theorem handleLine_totalBytes (console : Console) :
    (handleLine console).console.totalBytes ≤ 0 := by
  rw [handleLine]
  dsimp only
  split
  · exact Int.le_refl 0
  · rename_i hle
    exact Int.not_lt.1 hle

/-- A round leaves no zero either. -/
theorem Clean.step {s t : Console} {a : Act} (h : Clean s) (hroom : Room s a)
    (hs : consoleMachine.step s a = some t) : Clean t := by
  cases a with
  | destroy =>
      cases hs
      exact ⟨h.counted, h.noZero⟩
  | receive received =>
      obtain ⟨-, hs⟩ := Option.ite_none_right_eq_some.1 hs
      cases hs
      have hgot := h.getLine hroom
      refine ⟨h.counted.task hroom, ?_⟩
      rw [consoleTask]
      split
      · have hle := handleLine_totalBytes
          (consoleGetLine s CONSOLE_BUFFER_SIZE received).console
        rw [Int.toNat_of_nonpos hle, List.take_zero]
        exact List.not_mem_nil
      · exact hgot.noZero

/-- **Every line that is typed is dispatched right exactly if** it is empty, or
has a command and not too many arguments, in every run in which nothing comes
behind a full buffer. -/
theorem reached_dispatch_iff {memory : Vector UInt8 CONSOLE_BUFFER_SIZE}
    {commands : List Cmd} {s : Console}
    (h : consoleMachine.Reaches Room (start memory commands) s) {c : UInt8}
    (hc : c = 10 ∨ c = 13) (hroom : Room s (.receive (some c))) :
    Dispatched s.commands (s.buffer.take s.totalBytes.toNat)
        (consoleTask s (some c)).exec ↔
      Proper (s.buffer.take s.totalBytes.toNat) := by
  have hclean : Clean s := h.invariant (I := Clean)
    ⟨⟨Int.le_refl 0, Int.natCast_nonneg _⟩, List.not_mem_nil⟩
    fun u a v hu hok hs => hu.step hok hs
  have hstores : stores c = true := by
    rcases hc with rfl | rfl <;> decide
  have hne : s.totalBytes ≠ CONSOLE_BUFFER_SIZE := fun hfull => by
    rw [hroom hfull] at hstores
    contradiction
  have htyped := hclean.typed (lt_of_le_of_ne hclean.counted.2 hne)
  rw [htyped.exec hc]
  exact dispatched_iff (readCommand_wanted htyped.holds)

end EspAdf.Ports.ConsoleDispatch
