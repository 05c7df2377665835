import EspAdf.Verified.Rotation
import EspAdf.Verified.Runs
import EspAdf.Verified.CString

/-!
# `http_stream.c`: the lines of a playlist

`_client_read_line` reads a playlist through a buffer of 128 bytes.
`_get_line_in_buffer` returns the line at `index`, overwrites the line ends
behind it, and leaves `index` at the next line, if the buffer holds one.
Otherwise `remain` becomes 0 and the next call reads on, over the old bytes
and from the beginning of the buffer; `index` stays where it was.  So a line
is cut where the bytes of one read end, and the bytes of the next one are
looked at from the old `index` on, behind them if need be.

What a read finds is therefore determined by a `View`: `index`, and the line
that is still there.  `returns_iff` proves that the code returns the lines
that the views see, and `lines_are_runs_iff` which playlists it reads right.
-/

namespace EspAdf.Ports.HttpPlaylistLines

open EspAdf.Verified

/-! ## Reading lines -/

/-- A string without the NUL at its end. -/
abbrev Line := List UInt8

def MAX_PLAYLIST_LINE_SIZE : Nat := 128

/-- `c == '\r' || c == '\n'`. -/
def isEol (c : UInt8) : Bool := c == 13 || c == 10

/-- The part of `playlist_t` that reading works on. -/
structure Playlist where
  data : List UInt8
  index : Nat
  remain : Nat
  totalRead : Nat
  contentLength : Nat
  deriving DecidableEq, Repr

/-- The loop of `_get_line_in_buffer` from `data[idx]` on: the bytes with the
line ends overwritten, and the distance to the next line if there is one.
Undefined if it runs off the buffer. -/
def scanLine : Bool → List UInt8 → Option (List UInt8 × Option Nat)
  | _, [] => none
  | isEndOfLine, c :: cs =>
      if c = 0 then some (c :: cs, none)
      else if isEol c then
        (scanLine true cs).map fun r => (0 :: r.1, r.2.map (· + 1))
      else if isEndOfLine then some (c :: cs, some 0)
      else (scanLine false cs).map fun r => (c :: r.1, r.2.map (· + 1))

/-- The string that starts with these bytes. -/
def cString (data : List UInt8) : Line := data.takeWhile fun c => c != 0

/-- `_get_line_in_buffer`; no line when it returns `false`. -/
def getLineInBuffer (pl : Playlist) : Option (Playlist × Option Line) :=
  if pl.remain > 0 then
    (scanLine false (pl.data.drop pl.index)).map fun r =>
      let data := pl.data.take pl.index ++ r.1
      match r.2 with
      | some n => ({ pl with
          data := data
          remain := n
          index := pl.index + n }, some (cString r.1))
      | none => ({ pl with data := data, remain := 0 }, some (cString r.1))
  else some (pl, none)

/-- The `memmove` before a read. -/
def moveRemain (pl : Playlist) : Playlist :=
  if pl.remain > 0 then
    { pl with
      data := Rotation.splice pl.data 0
        ((pl.data.drop pl.index).take pl.remain)
      index := 0 }
  else pl

/-- What a read of `chunk` leaves. -/
def receive (pl : Playlist) (chunk : List UInt8) : Playlist :=
  let remain := pl.remain + chunk.length
  { pl with
    data := Rotation.splice (Rotation.splice pl.data pl.remain chunk)
      remain [0]
    remain := remain
    totalRead := pl.totalRead + chunk.length }

/-- `_client_read_line`; `chunks` is what the next reads return, after which
they return nothing. -/
def clientReadLine (pl : Playlist) (chunks : List (List UInt8)) :
    Option (Option Line × Playlist × List (List UInt8)) :=
  match getLineInBuffer pl with
  | none => none
  | some (pl, some line) => some (some line, pl, chunks)
  | some (pl, none) =>
      if pl.totalRead ≥ pl.contentLength then some (none, pl, chunks)
      else if pl.remain < MAX_PLAYLIST_LINE_SIZE then
        match chunks with
        | [] => some (none, moveRemain pl, [])
        | chunk :: chunks =>
            (getLineInBuffer (receive (moveRemain pl) chunk)).map fun r =>
              (r.2, r.1, chunks)
      else some (none, pl, chunks)

/-- The lines up to the first NULL, if it comes within `n` calls. -/
def readLines : Nat → Playlist → List (List UInt8) → Option (List Line)
  | 0, _, _ => none
  | n + 1, pl, chunks =>
      match clientReadLine pl chunks with
      | none => none
      | some (none, _, _) => some []
      | some (some line, pl, chunks) =>
          (readLines n pl chunks).map fun lines => line :: lines

/-- The playlist when `_resolve_playlist` starts to read. -/
def resolveStart (data : List UInt8) (contentLength : Nat) : Playlist :=
  ⟨data, 0, 0, 0, contentLength⟩

/-- `_client_read_line` returns these lines and then NULL. -/
def Returns (data : List UInt8) (chunks : List (List UInt8))
    (lines : List Line) : Prop :=
  ∃ n, readLines n (resolveStart data chunks.flatten.length) chunks =
    some lines

/-- The reads return at least one and at most the requested bytes, and no
NUL. -/
def Chunks (chunks : List (List UInt8)) : Prop :=
  ∀ c ∈ chunks, c ≠ [] ∧ c.length ≤ MAX_PLAYLIST_LINE_SIZE ∧ 0 ∉ c

/-! ## What the reads see -/

/-- Where the last line of a string starts. -/
def lastStart (s : List UInt8) : Nat :=
  ((s.rdropWhile isEol).rdropWhile fun c => !isEol c).length

def lastLine (s : List UInt8) : Line := (s.rdropWhile isEol).drop (lastStart s)

/-- The lines that the buffer yields, the first of which may be empty. -/
def bufferLines (s : List UInt8) : List Line :=
  s.takeWhile (fun c => !isEol c) ::
    runs isEol (s.dropWhile fun c => !isEol c)

/-- `index`, and the line that stands there. -/
structure View where
  index : Nat
  stale : Line
  deriving DecidableEq, Repr

/-- The string at `index` after a read of `c`. -/
def View.see (v : View) (c : List UInt8) : List UInt8 :=
  if v.index < c.length then c.drop v.index
  else if c.length < v.index then v.stale
  else []

def View.next (v : View) (c : List UInt8) : View :=
  ⟨v.index + lastStart (v.see c), lastLine (v.see c)⟩

def View.lines : View → List (List UInt8) → List Line
  | _, [] => []
  | v, c :: cs => bufferLines (v.see c) ++ (v.next c).lines cs

/-- At first `index` is 0. -/
def View.start : View := ⟨0, []⟩

/-! ## Cutting a line -/

/-- A string is cut into a line, the line ends behind it, and the next line,
if there is one. -/
structure Cut (s line eols rest : List UInt8) : Prop where
  eq : s = line ++ (eols ++ rest)
  text : ∀ c ∈ line, isEol c = false
  ends : ∀ c ∈ eols, isEol c = true
  behind : rest ≠ [] → eols ≠ []
  next : ∀ c ∈ rest.head?, isEol c = false

theorem exists_cut (s : List UInt8) : ∃ line eols rest,
    Cut s line eols rest := by
  refine ⟨s.takeWhile fun c => !isEol c,
    (s.dropWhile fun c => !isEol c).takeWhile isEol,
    (s.dropWhile fun c => !isEol c).dropWhile isEol, ?_, ?_, ?_, ?_, ?_⟩
  · rw [List.takeWhile_append_dropWhile, List.takeWhile_append_dropWhile]
  · intro c hc
    simpa using List.mem_takeWhile_imp hc
  · exact fun c hc => List.mem_takeWhile_imp hc
  · intro hrest heols
    have hhead := List.head?_dropWhile_not (fun c => !isEol c) s
    cases hd : s.dropWhile fun c => !isEol c with
    | nil =>
        rw [hd] at hrest
        exact hrest rfl
    | cons c tail =>
        rw [hd] at hhead heols
        have hc : isEol c = true := by simpa using hhead
        rw [List.takeWhile_cons_of_pos hc] at heols
        cases heols
  · intro c hc
    have hhead := List.head?_dropWhile_not isEol
      (s.dropWhile fun c => !isEol c)
    rw [hc] at hhead
    simpa using hhead

namespace Cut

variable {s line eols rest : List UInt8}

theorem length_lt (h : Cut s line eols rest) (hne : rest ≠ []) :
    rest.length < s.length := by
  have heols := List.length_pos_iff.2 (h.behind hne)
  rw [h.eq, List.length_append, List.length_append]
  omega

theorem dropWhile_eq (h : Cut s line eols rest) :
    s.dropWhile (fun c => !isEol c) = eols ++ rest := by
  rw [h.eq, List.dropWhile_append_of_pos fun c hc => by simp [h.text c hc]]
  cases eols with
  | nil =>
      by_cases hne : rest = []
      · rw [hne]
        rfl
      · exact absurd rfl (h.behind hne)
  | cons c eols =>
      rw [List.cons_append, List.dropWhile_cons_of_neg]
      simp [h.ends c List.mem_cons_self]

theorem takeWhile_eq (h : Cut s line eols rest) :
    s.takeWhile (fun c => !isEol c) = line := by
  have hall := List.takeWhile_append_dropWhile (p := fun c => !isEol c)
    (l := s)
  rw [h.dropWhile_eq] at hall
  exact List.append_cancel_right (hall.trans h.eq)

theorem runs_eq (h : Cut s line eols rest) :
    runs isEol (s.dropWhile fun c => !isEol c) = runs isEol rest := by
  rw [h.dropWhile_eq, runs_seps_append h.ends]

theorem bufferLines_eq (h : Cut s line eols rest) :
    bufferLines s = line :: if rest = [] then [] else bufferLines rest := by
  rw [bufferLines, h.takeWhile_eq, h.runs_eq]
  cases rest with
  | nil => rw [runs_nil, if_pos rfl]
  | cons c rest =>
      rw [if_neg (by simp), runs_eq_cons rest (h.next c rfl)]
      rfl

end Cut

theorem rdropWhile_append (p : UInt8 → Bool) (a b : List UInt8) :
    (a ++ b).rdropWhile p =
      if b.rdropWhile p = [] then a.rdropWhile p else a ++ b.rdropWhile p := by
  simp only [List.rdropWhile, List.reverse_append, List.dropWhile_append,
    List.reverse_eq_nil_iff, List.isEmpty_iff]
  split
  · rfl
  · rw [List.reverse_append, List.reverse_reverse]

namespace Cut

variable {s line eols rest : List UInt8}

/-- Without the line ends at its end. -/
theorem rdropWhile_eq (h : Cut s line eols rest) : s.rdropWhile isEol =
    if rest = [] then line else line ++ (eols ++ rest.rdropWhile isEol) := by
  have hline : line.rdropWhile isEol = line := by
    rw [List.rdropWhile_eq_self_iff]
    intro hne
    simp [h.text _ (List.getLast_mem hne)]
  by_cases hne : rest = []
  · subst hne
    rw [h.eq, List.append_nil, rdropWhile_append,
      if_pos (List.rdropWhile_eq_nil_iff.2 h.ends), hline, if_pos rfl]
  · have hrest : rest.rdropWhile isEol ≠ [] := by
      intro hnil
      rcases List.exists_cons_of_ne_nil hne with ⟨c, tail, rfl⟩
      have hc := List.rdropWhile_eq_nil_iff.1 hnil c List.mem_cons_self
      rw [h.next c rfl] at hc
      cases hc
    rw [h.eq, if_neg hne, rdropWhile_append, rdropWhile_append, if_neg hrest,
      if_neg (by simp [hrest])]

theorem lastStart_eq (h : Cut s line eols rest) : lastStart s =
    if rest = [] then 0
    else line.length + eols.length + lastStart rest := by
  rw [lastStart, h.rdropWhile_eq]
  by_cases hne : rest = []
  · rw [if_pos hne, if_pos hne, List.length_eq_zero_iff,
      List.rdropWhile_eq_nil_iff]
    intro c hc
    simp [h.text c hc]
  · rw [if_neg hne, if_neg hne, lastStart, ← List.append_assoc,
      rdropWhile_append]
    have hself : (line ++ eols).rdropWhile (fun c => !isEol c) =
        line ++ eols := by
      rw [List.rdropWhile_eq_self_iff]
      intro hl
      rw [List.getLast_append_of_ne_nil _ (h.behind hne)]
      simp [h.ends _ (List.getLast_mem (h.behind hne))]
    split
    · rename_i hnil
      rw [hself, hnil]
      simp
    · simp only [List.length_append]

theorem lastLine_eq (h : Cut s line eols rest) :
    lastLine s = if rest = [] then line else lastLine rest := by
  rw [lastLine, h.lastStart_eq, h.rdropWhile_eq]
  by_cases hne : rest = []
  · simp only [if_pos hne, List.drop_zero]
  · simp only [if_neg hne]
    rw [lastLine, ← List.append_assoc, ← List.length_append,
      List.drop_length_add_append]

end Cut

/-! ## Scanning -/

/-- Behind a line end the scan overwrites line ends. -/
theorem scanLine_eols {eols rest : List UInt8}
    (heols : ∀ c ∈ eols, isEol c = true)
    (hrest : ∀ c ∈ rest.head?, isEol c = false) (hnul : 0 ∉ rest)
    (z : List UInt8) :
    scanLine true (eols ++ (rest ++ 0 :: z)) =
      some (List.replicate eols.length 0 ++ (rest ++ 0 :: z),
        if rest = [] then none else some eols.length) := by
  induction eols with
  | nil =>
      cases rest with
      | nil => rfl
      | cons c rest =>
          have hc : c ≠ 0 := fun h0 => hnul (h0 ▸ List.mem_cons_self)
          rw [List.nil_append, List.cons_append, scanLine, if_neg hc,
            hrest c rfl]
          rfl
  | cons c eols ih =>
      have hc : isEol c = true := heols c List.mem_cons_self
      have hne : c ≠ 0 := by
        intro h0
        rw [h0] at hc
        exact absurd hc (by decide)
      rw [List.cons_append, scanLine, if_neg hne, if_pos hc,
        ih fun d hd => heols d (List.mem_cons_of_mem c hd)]
      simp only [Option.map_some, List.length_cons, List.replicate_succ,
        List.cons_append]
      split <;> rfl

/-- The scan passes over the line itself. -/
theorem scanLine_text {line : List UInt8}
    (hline : ∀ c ∈ line, isEol c = false) (hnul : 0 ∉ line)
    (tail : List UInt8) :
    scanLine false (line ++ tail) = (scanLine false tail).map fun r =>
      (line ++ r.1, r.2.map (· + line.length)) := by
  induction line with
  | nil =>
      cases h : scanLine false tail with
      | none => rw [List.nil_append, h]; rfl
      | some r => rw [List.nil_append, h]; simp
  | cons c line ih =>
      have hc : c ≠ 0 := fun h0 => hnul (h0 ▸ List.mem_cons_self)
      rw [List.cons_append, scanLine, if_neg hc,
        hline c List.mem_cons_self, if_neg (by simp), if_neg (by simp),
        ih (fun d hd => hline d (List.mem_cons_of_mem c hd))
          fun h0 => hnul (List.mem_cons_of_mem c h0)]
      cases scanLine false tail with
      | none => rfl
      | some r => simp [Function.comp_def, Nat.add_assoc]

/-- What the scan of a string does, in terms of its cut. -/
theorem Cut.scanLine_eq {s line eols rest : List UInt8}
    (h : Cut s line eols rest) (hnul : 0 ∉ s) (z : List UInt8) :
    scanLine false (s ++ 0 :: z) =
      some (line ++ (List.replicate eols.length 0 ++ (rest ++ 0 :: z)),
        if rest = [] then none else some (line.length + eols.length)) := by
  have hline : 0 ∉ line := fun h0 => hnul (h.eq ▸ List.mem_append_left _ h0)
  have hrest : 0 ∉ rest := fun h0 => hnul
    (h.eq ▸ List.mem_append_right _ (List.mem_append_right _ h0))
  have hbehind : scanLine false (eols ++ (rest ++ 0 :: z)) =
      some (List.replicate eols.length 0 ++ (rest ++ 0 :: z),
        if rest = [] then none else some eols.length) := by
    rw [← scanLine_eols h.ends h.next hrest z]
    cases eols with
    | nil =>
        by_cases hne : rest = []
        · rw [hne]
          rfl
        · exact absurd rfl (h.behind hne)
    | cons e eols =>
        have he : isEol e = true := h.ends e List.mem_cons_self
        rw [List.cons_append, scanLine, scanLine, if_pos he, if_pos he]
  rw [h.eq, List.append_assoc, List.append_assoc, scanLine_text h.text hline,
    hbehind, Option.map_some]
  congr 2
  split
  · rfl
  · rw [Option.map_some, Nat.add_comm]

/-! ## The lines in the buffer -/

/-- A string stands at `index`. -/
def Loaded (pl : Playlist) (s : List UInt8) : Prop :=
  ∃ pre z, pl.data = pre ++ (s ++ 0 :: z) ∧ pre.length = pl.index

/-- A NUL follows the line. -/
theorem Cut.nul_behind {s line eols rest : List UInt8}
    (h : Cut s line eols rest) (z : List UInt8) : ∃ z',
    List.replicate eols.length 0 ++ (rest ++ 0 :: z) = 0 :: z' := by
  cases eols with
  | nil =>
      by_cases hne : rest = []
      · exact ⟨z, by rw [hne]; rfl⟩
      · exact absurd rfl (h.behind hne)
  | cons e eols =>
      exact ⟨_, by rw [List.length_cons, List.replicate_succ,
        List.cons_append]⟩

/-- One line is taken from the buffer. -/
theorem getLine_cut {pl : Playlist} {s line eols rest : List UInt8}
    (hs : Loaded pl s) (h : Cut s line eols rest) (hnul : 0 ∉ s)
    (hremain : pl.remain > 0) :
    ∃ pl', getLineInBuffer pl = some (pl', some line) ∧
      pl'.totalRead = pl.totalRead ∧ pl'.contentLength = pl.contentLength ∧
      pl'.data.length = pl.data.length ∧
      if rest = [] then
        pl'.remain = 0 ∧ pl'.index = pl.index ∧ Loaded pl' line
      else
        pl'.remain > 0 ∧ pl'.index = pl.index + (line.length + eols.length) ∧
          Loaded pl' rest := by
  rcases hs with ⟨pre, z, hdata, hpre⟩
  rcases h.nul_behind z with ⟨z', hz'⟩
  have htake : pl.data.take pl.index = pre := by
    rw [hdata, ← hpre, List.take_left]
  have hdrop : pl.data.drop pl.index = s ++ 0 :: z := by
    rw [hdata, ← hpre, List.drop_left]
  have hline : 0 ∉ line := fun h0 => hnul (h.eq ▸ List.mem_append_left _ h0)
  have hstring : cString (line ++
      (List.replicate eols.length 0 ++ (rest ++ 0 :: z))) = line := by
    rw [hz']
    exact CString.cString_append hline z'
  have hlength : (pre ++ (line ++ (List.replicate eols.length 0 ++
      (rest ++ 0 :: z)))).length = pl.data.length := by
    rw [hdata, h.eq]
    simp
  rw [getLineInBuffer, if_pos hremain, hdrop, h.scanLine_eq hnul z, htake]
  by_cases hne : rest = []
  · simp only [if_pos hne, Option.map_some, hstring]
    refine ⟨_, rfl, rfl, rfl, hlength, rfl, rfl, pre, z', ?_, hpre⟩
    rw [hz']
  · simp only [if_neg hne, Option.map_some, hstring]
    refine ⟨_, rfl, rfl, rfl, hlength, ?_, rfl,
      pre ++ (line ++ List.replicate eols.length 0), z, ?_, ?_⟩
    · have heols := List.length_pos_iff.2 (h.behind hne)
      show 0 < line.length + eols.length
      omega
    · simp only [List.append_assoc]
    · simp [hpre]

theorem clientReadLine_loaded {pl pl' : Playlist} {line : Line}
    (h : getLineInBuffer pl = some (pl', some line))
    (chunks : List (List UInt8)) :
    clientReadLine pl chunks = some (some line, pl', chunks) := by
  rw [clientReadLine, h]

/-- The lines of the buffer are returned one after the other. -/
theorem readLines_buffer {pl : Playlist} {s : List UInt8} (hs : Loaded pl s)
    (hnul : 0 ∉ s) (hremain : pl.remain > 0) (chunks : List (List UInt8)) :
    ∃ pl', pl'.remain = 0 ∧ pl'.index = pl.index + lastStart s ∧
      Loaded pl' (lastLine s) ∧ pl'.totalRead = pl.totalRead ∧
      pl'.contentLength = pl.contentLength ∧
      pl'.data.length = pl.data.length ∧
      ∀ n, readLines (n + (bufferLines s).length) pl chunks =
        (readLines n pl' chunks).map (bufferLines s ++ ·) := by
  induction hn : s.length using Nat.strongRecOn generalizing s pl with
  | ind k ih =>
      rcases exists_cut s with ⟨line, eols, rest, h⟩
      rcases getLine_cut hs h hnul hremain with
        ⟨pl₁, hget, htotal, hcontent, hlength, hnext⟩
      have hread := clientReadLine_loaded hget chunks
      rw [h.lastStart_eq, h.lastLine_eq, h.bufferLines_eq]
      by_cases hne : rest = []
      · simp only [if_pos hne] at hnext ⊢
        refine ⟨pl₁, hnext.1, hnext.2.1, hnext.2.2, htotal, hcontent,
          hlength, fun n => ?_⟩
        rw [List.length_singleton, readLines, hread]
        rfl
      · simp only [if_neg hne] at hnext ⊢
        have hrest : 0 ∉ rest := fun h0 => hnul
          (h.eq ▸ List.mem_append_right _ (List.mem_append_right _ h0))
        rcases ih rest.length (hn ▸ h.length_lt hne) hnext.2.2 hrest hnext.1
          rfl with ⟨pl', hzero, hindex, hloaded, ht, hc, hl, hlines⟩
        refine ⟨pl', hzero, ?_, hloaded, ht.trans htotal, hc.trans hcontent,
          hl.trans hlength, fun n => ?_⟩
        · rw [hindex, hnext.2.1, Nat.add_assoc]
        · rw [List.length_cons, ← Nat.add_assoc, readLines, hread]
          simp only [hlines, Option.map_map]
          rfl

/-! ## The reads -/

/-- The buffer is used up, and the view says what is left of it. -/
structure Viewed (pl : Playlist) (v : View) : Prop where
  remain : pl.remain = 0
  index : pl.index = v.index
  size : pl.data.length = MAX_PLAYLIST_LINE_SIZE + 1
  stale : v.index = 0 ∨ Loaded pl v.stale
  nul : 0 ∉ v.stale

/-- A read writes the head of the buffer. -/
theorem receive_data {pl : Playlist} (hremain : pl.remain = 0)
    (c : List UInt8) :
    (receive pl c).data = c ++ 0 :: pl.data.drop (c.length + 1) := by
  simp only [receive, hremain, Nat.zero_add, Rotation.splice, List.take_zero,
    List.nil_append]
  rw [List.take_left, List.length_singleton, List.drop_append,
    List.drop_eq_nil_of_le (Nat.le_succ _), List.nil_append, List.drop_drop,
    List.append_assoc, Nat.add_sub_cancel_left]
  rfl

/-- What stands at `index` after a read. -/
theorem Viewed.receive {pl : Playlist} {v : View} (h : Viewed pl v)
    (c : List UInt8) :
    Loaded (receive pl c) (v.see c) := by
  have hdata := receive_data h.remain c
  have hindex : (HttpPlaylistLines.receive pl c).index = v.index := h.index
  rw [View.see, Loaded, hdata, hindex]
  split
  · rename_i hlt
    refine ⟨c.take v.index, pl.data.drop (c.length + 1), ?_, ?_⟩
    · rw [← List.append_assoc, List.take_append_drop]
    · rw [List.length_take]
      omega
  · rename_i hge
    split
    · rename_i hlt
      rcases h.stale with hzero | ⟨pre, z, hpl, hpre⟩
      · omega
      · refine ⟨c ++ 0 :: pre.drop (c.length + 1), z, ?_, ?_⟩
        · rw [hpl, List.drop_append_of_le_length (by rw [hpre, h.index]; omega)]
          simp only [List.append_assoc, List.cons_append]
        · simp only [List.length_append, List.length_cons, List.length_drop,
            hpre, h.index]
          omega
    · refine ⟨c, pl.data.drop (c.length + 1), rfl, ?_⟩
      omega

theorem View.see_nul {v : View} (hv : 0 ∉ v.stale) {c : List UInt8}
    (hc : 0 ∉ c) : 0 ∉ v.see c := by
  rw [View.see]
  split
  · exact fun h0 => hc (List.mem_of_mem_drop h0)
  · split
    · exact hv
    · exact List.not_mem_nil

theorem lastLine_nul {s : List UInt8} (h : 0 ∉ s) : 0 ∉ lastLine s :=
  fun h0 => h ((List.rdropWhile_prefix isEol s).subset (List.mem_of_mem_drop h0))

/-- A call that finds the buffer used up reads, and then is like one that finds
it loaded. -/
theorem clientReadLine_refill {pl : Playlist} (hremain : pl.remain = 0)
    (hmore : pl.totalRead < pl.contentLength) {c : List UInt8}
    (hc : c ≠ []) {s : List UInt8} (hs : Loaded (receive pl c) s)
    (hnul : 0 ∉ s) (cs : List (List UInt8)) :
    clientReadLine pl (c :: cs) = clientReadLine (receive pl c) cs := by
  have hpos : (receive pl c).remain > 0 := by
    have hlen := List.length_pos_iff.2 hc
    show 0 < pl.remain + c.length
    omega
  rcases exists_cut s with ⟨line, eols, rest, hcut⟩
  rcases getLine_cut hs hcut hnul hpos with ⟨pl', hget, -⟩
  have hnone : getLineInBuffer pl = some (pl, none) := by
    rw [getLineInBuffer, if_neg (by omega)]
  have hmove : moveRemain pl = pl := by
    rw [moveRemain, if_neg (by omega)]
  rw [clientReadLine_loaded hget, clientReadLine, hnone]
  simp only [if_neg (Nat.not_le.2 hmore), hremain, hmove, hget]
  rfl

/-- **What the code returns is what the views see.** -/
theorem readLines_chunks {chunks : List (List UInt8)} (h : Chunks chunks) :
    ∀ {pl : Playlist} {v : View}, Viewed pl v →
      pl.totalRead + chunks.flatten.length = pl.contentLength →
      ∃ n, readLines n pl chunks = some (v.lines chunks) := by
  induction chunks with
  | nil =>
      intro pl v hv htotal
      refine ⟨1, ?_⟩
      have hnone : getLineInBuffer pl = some (pl, none) := by
        rw [getLineInBuffer, if_neg (by rw [hv.remain]; omega)]
      have hend : pl.totalRead ≥ pl.contentLength := by
        rw [← htotal]
        exact Nat.le_refl _
      rw [readLines, clientReadLine, hnone]
      simp only [if_pos hend]
      rfl
  | cons c cs ih =>
      intro pl v hv htotal
      rcases h c List.mem_cons_self with ⟨hne, hlen, hnul⟩
      have hsee := View.see_nul hv.nul hnul
      have hloaded := hv.receive c
      have hpos := List.length_pos_iff.2 hne
      rw [List.flatten_cons, List.length_append] at htotal
      rcases readLines_buffer hloaded hsee (by
          show 0 < pl.remain + c.length
          omega) cs with ⟨pl', hzero, hindex, hlast, ht, hcon, hl, hlines⟩
      have hsize : pl'.data.length = MAX_PLAYLIST_LINE_SIZE + 1 := by
        rw [hl, receive_data hv.remain c, ← hv.size]
        have hmax := hv.size
        simp only [List.length_append, List.length_cons, List.length_drop]
        omega
      have hv' : Viewed pl' (v.next c) :=
        ⟨hzero, hindex.trans (congrArg (· + _) hv.index), hsize, .inr hlast,
          lastLine_nul hsee⟩
      rcases ih (fun d hd => h d (List.mem_cons_of_mem c hd)) hv' (by
          rw [ht, hcon]
          show pl.totalRead + c.length + _ = pl.contentLength
          omega) with ⟨n, hn⟩
      have hmore : pl.totalRead < pl.contentLength := by omega
      have hread := hlines n
      rw [hn] at hread
      refine ⟨n + (bufferLines (v.see c)).length, ?_⟩
      rw [bufferLines, List.length_cons, ← Nat.add_assoc, readLines] at hread ⊢
      rw [clientReadLine_refill hv.remain hmore hne hloaded hsee cs]
      exact hread

/-- The number of calls does not matter, if it is enough. -/
theorem readLines_unique {n m : Nat} {pl : Playlist}
    {chunks : List (List UInt8)} {a b : List Line}
    (ha : readLines n pl chunks = some a)
    (hb : readLines m pl chunks = some b) : a = b := by
  induction n generalizing m pl chunks a b with
  | zero => cases ha
  | succ n ih =>
      cases m with
      | zero => cases hb
      | succ m =>
          rw [readLines] at ha hb
          cases hread : clientReadLine pl chunks with
          | none => rw [hread] at ha; cases ha
          | some r =>
              rcases r with ⟨line, pl', chunks'⟩
              rw [hread] at ha hb
              cases line with
              | none =>
                  cases ha
                  cases hb
                  rfl
              | some line =>
                  rcases Option.map_eq_some_iff.1 ha with ⟨as, has, rfl⟩
                  rcases Option.map_eq_some_iff.1 hb with ⟨bs, hbs, rfl⟩
                  rw [ih has hbs]

theorem returns_iff {data : List UInt8}
    (hdata : data.length = MAX_PLAYLIST_LINE_SIZE + 1)
    {chunks : List (List UInt8)} (h : Chunks chunks) (lines : List Line) :
    Returns data chunks lines ↔ View.start.lines chunks = lines := by
  have hstart : Viewed (resolveStart data chunks.flatten.length) .start :=
    ⟨rfl, rfl, hdata, .inl rfl, List.not_mem_nil⟩
  rcases readLines_chunks h hstart (Nat.zero_add _) with ⟨n, hn⟩
  constructor
  · rintro ⟨m, hm⟩
    exact readLines_unique hn hm
  · rintro rfl
    exact ⟨n, hn⟩

/-! ## Which playlists are read right -/

/-- What the view sees of a read has the runs of what was read: line ends stand
in front of `index`, or the read ends before `index` and contains just what
is left there. -/
def Sees (v : View) (c : List UInt8) : Prop :=
  (v.index < c.length ∧ (∀ b ∈ c.take v.index, isEol b = true) ∧
      ∀ b ∈ (c.drop v.index).head?, isEol b = false) ∨
    (c.length < v.index ∧ runs isEol c = [v.stale])

/-- At every read: it is separated from what was read before by a line end,
and the view sees its lines. -/
def Aligned : List UInt8 → View → List (List UInt8) → Prop
  | _, _, [] => True
  | text, v, c :: cs =>
      (Separated isEol text c ∧ Sees v c) ∧ Aligned (text ++ c) (v.next c) cs

instance (v : View) (c : List UInt8) : Decidable (Sees v c) :=
  inferInstanceAs (Decidable (_ ∧ _ ∨ _ ∧ _))

instance decidableAligned : ∀ text v chunks, Decidable (Aligned text v chunks)
  | _, _, [] => inferInstanceAs (Decidable True)
  | text, v, c :: cs =>
      have := decidableAligned (text ++ c) (v.next c) cs
      inferInstanceAs (Decidable ((Separated isEol text c ∧ Sees v c) ∧ _))

theorem bufferLines_of_text {s : List UInt8} (hne : s ≠ [])
    (h : ∀ b ∈ s.head?, isEol b = false) : bufferLines s = runs isEol s := by
  rcases List.exists_cons_of_ne_nil hne with ⟨b, tail, rfl⟩
  rw [runs_eq_cons tail (h b rfl), bufferLines]

/-- A string that starts with a line end yields an empty line. -/
theorem nil_mem_bufferLines {s : List UInt8}
    (h : ∀ b ∈ s.head?, isEol b = true) : [] ∈ bufferLines s := by
  cases s with
  | nil => exact List.mem_cons_self
  | cons b tail =>
      rw [bufferLines, List.takeWhile_cons_of_neg (by simp [h b rfl])]
      exact List.mem_cons_self

theorem nil_not_mem_runs (l : List UInt8) : [] ∉ runs isEol l :=
  fun h => ne_nil_of_mem_runs h rfl

/-- What is left in the buffer is one line. -/
theorem lastLine_text (s : List UInt8) : ∀ b ∈ lastLine s, isEol b = false := by
  induction hn : s.length using Nat.strongRecOn generalizing s with
  | ind k ih =>
      rcases exists_cut s with ⟨line, eols, rest, h⟩
      rw [h.lastLine_eq]
      by_cases hne : rest = []
      · rw [if_pos hne]
        exact h.text
      · rw [if_neg hne]
        exact ih rest.length (hn ▸ h.length_lt hne) rest rfl

/-- The lines that the view sees are the runs of what was read. -/
theorem sees_iff {v : View} (hv : ∀ b ∈ v.stale, isEol b = false)
    {c : List UInt8} :
    bufferLines (v.see c) = runs isEol c ↔ Sees v c := by
  have hall := List.take_append_drop v.index c
  rcases Nat.lt_trichotomy v.index c.length with hlt | heq | hgt
  · have hne : c.drop v.index ≠ [] := by
      rw [← List.length_pos_iff, List.length_drop]
      omega
    rw [View.see, if_pos hlt, Sees,
      or_iff_left fun h => Nat.lt_asymm hlt h.1, and_iff_right hlt]
    constructor
    · intro h
      have hhead : ∀ b ∈ (c.drop v.index).head?, isEol b = false := by
        intro b hb
        by_contra hb'
        refine nil_not_mem_runs c (h ▸ nil_mem_bufferLines ?_)
        intro d hd
        rw [← Option.mem_unique hb hd]
        simpa using hb'
      refine ⟨?_, hhead⟩
      rw [bufferLines_of_text hne hhead] at h
      have hflat := congrArg List.flatten h
      conv_rhs at hflat => rw [← hall]
      rw [flatten_runs, flatten_runs, List.filter_append] at hflat
      have hnil := List.self_eq_append_left.1 hflat
      intro b hb
      simpa using List.filter_eq_nil_iff.1 hnil b hb
    · rintro ⟨htake, hhead⟩
      rw [bufferLines_of_text hne hhead]
      conv_rhs => rw [← hall]
      exact (runs_seps_append htake _).symm
  · have hnil : v.see c = [] := by
      rw [View.see, if_neg (by omega), if_neg (by omega)]
    rw [hnil, Sees]
    constructor
    · intro h
      exact absurd (h ▸ nil_mem_bufferLines fun _ hb => nomatch hb)
        (nil_not_mem_runs c)
    · rintro (⟨hlt, -⟩ | ⟨hgt, -⟩)
      · omega
      · omega
  · have hstale : bufferLines v.stale = [v.stale] := by
      have htext : ∀ b ∈ v.stale, (!isEol b) = true :=
        fun b hb => by simp [hv b hb]
      rw [bufferLines, List.takeWhile_eq_self_iff.2 htext,
        List.dropWhile_eq_nil_iff.2 htext, runs_nil]
    rw [View.see, if_neg (by omega), if_pos hgt, hstale, Sees,
      or_iff_right fun h => Nat.lt_asymm hgt h.1, and_iff_right hgt]
    exact eq_comm

/-- One read returns what the text needs when it is separated and seen. -/
theorem read_iff (text : List UInt8) {v : View}
    (hv : ∀ b ∈ v.stale, isEol b = false) (c : List UInt8) :
    runs isEol text ++ bufferLines (v.see c) = runs isEol (text ++ c) ↔
      Separated isEol text c ∧ Sees v c := by
  by_cases hsep : Separated isEol text c
  · rw [runs_append hsep, List.append_cancel_left_eq, sees_iff hv,
      and_iff_right hsep]
  · refine iff_of_false (fun h => ?_) fun h => hsep h.1
    rcases runs_merge hsep with ⟨zs, x, y, ws, htext, hy, hmerge⟩
    rw [htext, hmerge, List.append_assoc, List.append_cancel_left_eq] at h
    have hx : x = x ++ y := (List.cons.inj h).1
    exact hy (List.self_eq_append_right.1 hx)

/-- Every part of a playlist is read right when its reads are aligned. -/
theorem aligned_iff (chunks : List (List UInt8)) :
    ∀ (text : List UInt8) {v : View}, (∀ b ∈ v.stale, isEol b = false) →
      ((∀ done, done <+: chunks →
        runs isEol text ++ v.lines done = runs isEol (text ++ done.flatten)) ↔
      Aligned text v chunks) := by
  induction chunks with
  | nil =>
      intro text v _
      refine iff_of_true (fun done hdone => ?_) trivial
      rw [List.prefix_nil.1 hdone, View.lines]
      simp
  | cons c cs ih =>
      intro text v hv
      have hnext := ih (text ++ c) (v := v.next c) (lastLine_text _)
      rw [Aligned, ← read_iff text hv c, ← hnext]
      constructor
      · intro h
        have hfirst := h [c] (List.prefix_cons_iff.2
          (.inr ⟨[], rfl, List.nil_prefix⟩))
        simp only [View.lines, List.append_nil, List.flatten_cons,
          List.flatten_nil] at hfirst
        refine ⟨hfirst, fun done hdone => ?_⟩
        have hall := h (c :: done) ((List.prefix_cons_inj c).2 hdone)
        rw [View.lines, ← List.append_assoc, hfirst, List.flatten_cons,
          ← List.append_assoc] at hall
        exact hall
      · rintro ⟨hfirst, hrest⟩ done hdone
        rcases List.prefix_cons_iff.1 hdone with rfl | ⟨done', rfl, hdone'⟩
        · rw [View.lines]
          simp
        · rw [View.lines, ← List.append_assoc, hfirst, List.flatten_cons,
            ← List.append_assoc]
          exact hrest done' hdone'

/-! ## Reading byte by byte -/

/-- When every read returns one byte, every byte is a line. -/
theorem lines_bytes (text : List UInt8) : ∀ {v : View}, v.index = 0 →
    v.lines (text.map fun b => [b]) =
      text.map fun b => if isEol b = true then [] else [b] := by
  induction text with
  | nil => exact fun _ => rfl
  | cons b text ih =>
      intro v hv
      have hsee : v.see [b] = [b] := by
        rw [View.see, hv]
        rfl
      have hstart : lastStart [b] = 0 := by
        rw [lastStart]
        by_cases hb : isEol b = true
        · simp [List.rdropWhile_singleton, hb]
        · simp [List.rdropWhile_singleton, hb]
      have hline : bufferLines [b] = [if isEol b = true then [] else [b]] := by
        rw [bufferLines]
        cases hb : isEol b with
        | true => simp [hb, runs_cons]
        | false => simp [hb]
      rw [List.map_cons, View.lines, hsee, hline, ih, List.map_cons]
      · rfl
      · rw [View.next, hsee, hstart, hv]

theorem chunks_bytes {text : List UInt8} (h : 0 ∉ text) :
    Chunks (text.map fun b => [b]) := by
  intro c hc
  rcases List.mem_map.1 hc with ⟨b, hb, rfl⟩
  refine ⟨by simp, by simp [MAX_PLAYLIST_LINE_SIZE], ?_⟩
  rw [List.mem_singleton]
  exact fun h0 => h (h0 ▸ hb)

theorem flatten_bytes (text : List UInt8) :
    (text.map fun b => [b]).flatten = text := by
  induction text with
  | nil => rfl
  | cons b text ih => rw [List.map_cons, List.flatten_cons, ih]; rfl

/-- A text that is read right byte by byte is one character at most. -/
theorem short_of_bytes {text : List UInt8}
    (h : (text.map fun b => if isEol b = true then [] else [b]) =
      runs isEol text) :
    text.length ≤ 1 ∧ ∀ b ∈ text, isEol b = false := by
  have hfree : ∀ b ∈ text, isEol b = false := by
    intro b hb
    by_contra hne
    refine nil_not_mem_runs text (h ▸ List.mem_map.2 ⟨b, hb, ?_⟩)
    rw [if_pos (by simpa using hne)]
  refine ⟨?_, hfree⟩
  by_cases hnil : text = []
  · rw [hnil]
    exact Nat.zero_le 1
  · have hlen := congrArg List.length h
    rw [runs_of_free hfree hnil, List.length_map, List.length_singleton] at hlen
    exact Nat.le_of_eq hlen

/-- The only way to read a single character. -/
theorem lines_of_short {chunks : List (List UInt8)} (h : Chunks chunks)
    (hlen : chunks.flatten.length ≤ 1)
    (hfree : ∀ b ∈ chunks.flatten, isEol b = false) :
    View.start.lines chunks = runs isEol chunks.flatten := by
  cases chunks with
  | nil => simp [View.lines]
  | cons c cs =>
      have hc := List.length_pos_iff.2 (h c List.mem_cons_self).1
      have hcs : cs = [] := by
        by_contra hne
        rcases List.exists_cons_of_ne_nil hne with ⟨d, ds, rfl⟩
        have hd := List.length_pos_iff.2
          (h d (List.mem_cons_of_mem c List.mem_cons_self)).1
        simp only [List.flatten_cons, List.length_append] at hlen
        omega
      subst hcs
      simp only [List.flatten_cons, List.flatten_nil, List.append_nil] at *
      have hsee : View.start.see c = c := by
        rw [View.see, View.start, if_pos hc, List.drop_zero]
      rw [View.lines, View.lines, List.append_nil, hsee]
      refine bufferLines_of_text (List.length_pos_iff.1 hc) fun b hb => ?_
      exact hfree b (List.mem_of_mem_head? hb)

/-- **Which playlists are read right.**  In every split, only those of one
character; and in a given split, all that is read is read right as long as the
reads are aligned. -/
theorem lines_are_runs_iff {data : List UInt8}
    (hdata : data.length = MAX_PLAYLIST_LINE_SIZE + 1) :
    (∀ text, 0 ∉ text →
      ((∀ chunks, Chunks chunks → chunks.flatten = text →
        Returns data chunks (runs isEol text)) ↔
      text.length ≤ 1 ∧ ∀ b ∈ text, isEol b = false)) ∧
    ∀ chunks, Chunks chunks →
      ((∀ done, done <+: chunks →
        Returns data done (runs isEol done.flatten)) ↔
      Aligned [] .start chunks) := by
  constructor
  · intro text hnul
    constructor
    · intro h
      have hbytes := (returns_iff hdata (chunks_bytes hnul) _).1
        (h _ (chunks_bytes hnul) (flatten_bytes text))
      rw [lines_bytes text rfl] at hbytes
      exact short_of_bytes hbytes
    · rintro ⟨hlen, hfree⟩ chunks hchunks rfl
      exact (returns_iff hdata hchunks _).2
        (lines_of_short hchunks hlen hfree)
  · intro chunks hchunks
    rw [← aligned_iff chunks [] (v := .start) (fun b hb => nomatch hb)]
    simp only [runs_nil, List.nil_append]
    refine forall_congr' fun done => forall_congr' fun hdone => ?_
    exact returns_iff hdata
      (fun c hc => hchunks c (hdone.subset hc)) _

/-! ## One playlist in two splits -/

def buffer : List UInt8 := List.replicate (MAX_PLAYLIST_LINE_SIZE + 1) 0

theorem buffer_size : buffer.length = MAX_PLAYLIST_LINE_SIZE + 1 :=
  List.length_replicate

/-- `#EXTM3U`. -/
def header : Line := [35, 69, 88, 84, 77, 51, 85]

/-- `http`. -/
def scheme : Line := [104, 116, 116, 112]

/-- `://a/1`. -/
def path : Line := [58, 47, 47, 97, 47, 49]

/-- The reads end where the lines do. -/
theorem lines_by_line : Returns buffer
    [header ++ [10], scheme ++ path ++ [10]] [header, scheme ++ path] := by
  have hchunks : Chunks [header ++ [10], scheme ++ path ++ [10]] := by
    intro c hc
    simp only [List.mem_cons, List.not_mem_nil, or_false] at hc
    rcases hc with rfl | rfl <;> decide
  have haligned : Aligned [] .start
      [header ++ [10], scheme ++ path ++ [10]] := by
    decide +kernel
  have hruns : runs isEol [header ++ [10], scheme ++ path ++ [10]].flatten =
      [header, scheme ++ path] := by
    decide +kernel
  rw [← hruns]
  exact ((lines_are_runs_iff buffer_size).2 _ hchunks).2 haligned _
    List.prefix_rfl

/-- The first read ends within the URI: its beginning is returned twice, and
the rest of it never. -/
theorem lines_torn :
    Chunks [header ++ [10] ++ scheme, path ++ [10]] ∧
    Returns buffer [header ++ [10] ++ scheme, path ++ [10]]
      [header, scheme, scheme] ∧
    runs isEol [header ++ [10] ++ scheme, path ++ [10]].flatten =
      [header, scheme ++ path] ∧
    ¬Returns buffer [header ++ [10] ++ scheme, path ++ [10]]
      (runs isEol [header ++ [10] ++ scheme, path ++ [10]].flatten) := by
  have hchunks : Chunks [header ++ [10] ++ scheme, path ++ [10]] := by
    intro c hc
    simp only [List.mem_cons, List.not_mem_nil, or_false] at hc
    rcases hc with rfl | rfl <;> decide
  have hlines : View.start.lines
      [header ++ [10] ++ scheme, path ++ [10]] = [header, scheme, scheme] := by
    decide +kernel
  have hruns : runs isEol [header ++ [10] ++ scheme, path ++ [10]].flatten =
      [header, scheme ++ path] := by
    decide +kernel
  refine ⟨hchunks, (returns_iff buffer_size hchunks _).2 hlines, hruns, ?_⟩
  rw [returns_iff buffer_size hchunks, hlines, hruns]
  decide

end EspAdf.Ports.HttpPlaylistLines
