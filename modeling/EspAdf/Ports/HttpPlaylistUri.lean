import EspAdf.Ports.HttpPlaylist
import EspAdf.Verified.UriReference

/-!
# `http_stream.c`: the URIs of playlist entries

`_insert_to_playlist` tells the kinds of an entry apart by its first
characters, and cuts the playlist's URI at the first `/` behind the first `//`
or at its last `/`.  A playlist's URI may lack a path, and may have slashes in
its query; an entry in the playlist's directory may start with `http`; schemes
may be written in capitals.  When a copy of the playlist's URI cannot be
allocated or cut, the new track is lost.

`uri_resolved_iff` says for which URIs, entries and allocations the track gets
the target of the entry and nothing is lost.
-/

namespace EspAdf.Ports.HttpPlaylistUri

open EspAdf.Verified.Uri (Reference lower)
open EspAdf.Ports.HttpPlaylist
open EspAdf.Ports.HttpPlaylistLines (Line rdropWhile_append)

/-! ## Inserting, with the blocks that are allocated -/

/-- What `_insert_to_playlist` allocates. -/
inductive Block where
  | track
  /-- `track->uri`. -/
  | uri
  /-- `url`, the copy of the playlist's URI. -/
  | url
  deriving DecidableEq, Repr

/-- The allocation that fails, if it is made: `calloc`, `strdup` or
`asprintf`. -/
inductive Alloc where
  | ok
  | noTrack
  | noUrl
  | noUri
  deriving DecidableEq, Repr

/-- What a call leaves: the playlist, `track->uri`, and what became of the
blocks. -/
structure Insertion where
  playlist : Playlist
  uri : Option Line
  allocated : List Block
  freed : List Block
  linked : List Block
  deriving DecidableEq, Repr

/-- The blocks that nothing refers to any more. -/
def Insertion.leaked (i : Insertion) : List Block :=
  (i.allocated.diff i.freed).diff i.linked

/-- From `asprintf` on, with the blocks allocated and freed so far; `freed`
includes what is freed right behind `asprintf`. -/
def insertUri (playlist : Playlist) (u : Line) (alloc : Alloc)
    (allocated freed : List Block) : Insertion :=
  if alloc = .noUri then
    ⟨playlist, none, allocated, freed ++ [.track], []⟩
  else if playlist.tracks.any fun find => find.uri == u then
    ⟨playlist, some u, allocated ++ [.uri], freed ++ [.uri, .track], []⟩
  else
    ⟨⟨playlist.tracks ++ [⟨u, false⟩], playlist.totalTracks + 1⟩, some u,
      allocated ++ [.uri], freed, [.track, .uri]⟩

/-- An entry that needs a part of the playlist's URI, `url`. -/
def insertUrl (playlist : Playlist) (url : Option Line) (trackUri : Line)
    (alloc : Alloc) : Insertion :=
  if alloc = .noUrl then ⟨playlist, none, [.track], [], []⟩
  else
    match url with
    | none => ⟨playlist, none, [.track, .url], [.url], []⟩
    | some url =>
        insertUri playlist (url ++ trackUri) alloc [.track, .url] [.url]

/-- `_insert_to_playlist`. -/
def insertBlocks (uri : Line) (playlist : Playlist) (trackUri : Line)
    (alloc : Alloc) : Insertion :=
  let playlist := playlist.evicted
  if alloc = .noTrack then ⟨playlist, none, [], [], []⟩
  else if startsWith HTTP trackUri then
    insertUri playlist trackUri alloc [.track] []
  else if startsWith [SLASH, SLASH] trackUri then
    if startsWith (HTTP ++ S) uri then
      insertUri playlist (HTTP ++ S ++ COLON ++ trackUri) alloc [.track] []
    else insertUri playlist (HTTP ++ COLON ++ trackUri) alloc [.track] []
  else if startsWith [SLASH] trackUri then
    insertUrl playlist (root uri) trackUri alloc
  else insertUrl playlist (directory uri) trackUri alloc

/-- Whether `url` is used. -/
def usesUrl (trackUri : Line) : Bool :=
  !startsWith HTTP trackUri && !startsWith [SLASH, SLASH] trackUri

/-- The failures that `insertToPlaylist` tells apart. -/
def Alloc.mem (alloc : Alloc) (trackUri : Line) : Mem :=
  match alloc with
  | .ok => .ok
  | .noTrack => .noTrack
  | .noUrl => if usesUrl trackUri then .noUri else .ok
  | .noUri => .noUri

/-! ## URIs and entries -/

/-- `http` or `https`, in any case. -/
def IsHttp (scheme : Line) : Prop :=
  scheme.map lower = HTTP ∨ scheme.map lower = HTTP ++ S

/-- An absolute `http` or `https` URI. -/
structure HttpBase (base : Reference) : Prop where
  wf : base.WF
  scheme : ∃ s, base.scheme = some s ∧ IsHttp s
  authority : base.authority.isSome
  fragment : base.fragment = none

/-- The kinds of entries. -/
inductive Entry (r : Reference) : Prop where
  | full (s : Line) (hs : r.scheme = some s) (hhttp : IsHttp s)
      (ha : r.authority.isSome)
  | schemeRelative (a : Line) (hs : r.scheme = none) (ha : r.authority = some a)
  | rootRelative (hs : r.scheme = none) (ha : r.authority = none)
      (hp : r.path.head? = some SLASH)
  | pathRelative (hs : r.scheme = none) (ha : r.authority = none)
      (hne : r.path ≠ []) (hp : r.path.head? ≠ some SLASH)

/-- `u` is a text of the target. -/
def IsTarget (base r : Reference) (u : Line) : Prop :=
  ∃ t : Reference, t.SameUri (base.target r) ∧ t.text = u

/-! ## The property and the condition -/

/-- The track gets the target as its URI and is in the list then, or no track
is added; nothing is leaked. -/
structure Resolved (base r : Reference) (playlist : Playlist) (i : Insertion) :
    Prop where
  stored : ∀ u, i.uri = some u →
    IsTarget base r u ∧ u ∈ i.playlist.tracks.map Track.uri
  notFormed : i.uri = none → i.playlist = playlist.evicted
  leaked : i.leaked = []

/-- The condition on the playlist's URI and the entry. -/
def UriOk (base r : Reference) : Prop :=
  match r.scheme, r.authority with
  | some s, _ => HTTP <+: s
  | none, some _ => ∀ s ∈ base.scheme,
      s.map lower = HTTP ++ S → s = HTTP ++ S
  | none, none => base.path ≠ [] ∧ (r.path.head? ≠ some SLASH →
      ¬HTTP <+: r.text ∧ SLASH ∉ base.queryText)

/-- The condition on a call. -/
def CallOk (base r : Reference) : Alloc → Prop
  | .ok => UriOk base r
  | .noTrack => True
  | .noUrl => UriOk base r ∧ usesUrl r.text = false
  | .noUri => r.scheme = none → r.authority = none →
      r.path.head? = some SLASH → SLASH ∈ base.path ++ base.queryText

/-! ## What a call does -/

/-- What `insertUri` leaves when `asprintf` is as `alloc` says, if the blocks
before it are accounted for. -/
theorem insertUri_outcome (playlist : Playlist) (u : Line) (alloc : Alloc)
    {allocated freed : List Block}
    (h : allocated = [.track] ∧ freed = [] ∨
      allocated = [.track, .url] ∧ freed = [.url]) :
    (insertUri playlist u alloc allocated freed).leaked = [] ∧
      if alloc = .noUri then
        (insertUri playlist u alloc allocated freed).uri = none ∧
          (insertUri playlist u alloc allocated freed).playlist = playlist
      else
        (insertUri playlist u alloc allocated freed).uri = some u ∧
          u ∈ (insertUri playlist u alloc allocated freed).playlist.tracks.map
            Track.uri := by
  rw [insertUri]
  by_cases halloc : alloc = .noUri
  · simp only [if_pos halloc]
    refine ⟨?_, trivial, trivial⟩
    rcases h with ⟨rfl, rfl⟩ | ⟨rfl, rfl⟩
    · rfl
    · rfl
  · simp only [if_neg halloc]
    by_cases hany : (playlist.tracks.any fun find => find.uri == u) = true
    · simp only [if_pos hany]
      refine ⟨?_, trivial, ?_⟩
      · rcases h with ⟨rfl, rfl⟩ | ⟨rfl, rfl⟩
        · rfl
        · rfl
      · obtain ⟨find, hfind, heq⟩ := List.any_eq_true.1 hany
        exact List.mem_map.2 ⟨find, hfind, by simpa using heq⟩
    · simp only [if_neg hany]
      refine ⟨?_, trivial, by simp⟩
      rcases h with ⟨rfl, rfl⟩ | ⟨rfl, rfl⟩
      · rfl
      · rfl

theorem insertUri_playlist (playlist : Playlist) (u : Line) (alloc : Alloc)
    (allocated freed : List Block) :
    (insertUri playlist u alloc allocated freed).playlist =
      if alloc = .noUri then playlist
      else if playlist.tracks.any fun find => find.uri == u then playlist
      else ⟨playlist.tracks ++ [⟨u, false⟩], playlist.totalTracks + 1⟩ := by
  rw [insertUri]
  split
  · rfl
  · split
    · rfl
    · rfl

/-- A call by what `fullUri` makes of the entry. -/
theorem insertBlocks_eq (uri : Line) (playlist : Playlist) (trackUri : Line)
    {alloc : Alloc} (halloc : alloc ≠ .noTrack) :
    insertBlocks uri playlist trackUri alloc =
      if usesUrl trackUri then
        if alloc = .noUrl then ⟨playlist.evicted, none, [.track], [], []⟩
        else
          match fullUri trackUri uri with
          | none => ⟨playlist.evicted, none, [.track, .url], [.url], []⟩
          | some u =>
              insertUri playlist.evicted u alloc [.track, .url] [.url]
      else
        match fullUri trackUri uri with
        | none => ⟨playlist.evicted, none, [.track, .url], [.url], []⟩
        | some u => insertUri playlist.evicted u alloc [.track] [] := by
  unfold insertBlocks fullUri usesUrl insertUrl
  by_cases hfull : startsWith HTTP trackUri = true
  · simp [halloc, hfull]
  by_cases hrel : startsWith [SLASH, SLASH] trackUri = true
  · by_cases hs : startsWith (HTTP ++ S) uri = true
    · simp [halloc, hfull, hrel, hs]
    · simp [halloc, hfull, hrel, hs]
  by_cases hroot : startsWith [SLASH] trackUri = true
  · cases hr : root uri with
    | none => simp [halloc, hfull, hrel, hroot]
    | some url => simp [halloc, hfull, hrel, hroot]
  · cases hd : directory uri with
    | none => simp [halloc, hfull, hrel, hroot]
    | some url => simp [halloc, hfull, hrel, hroot]

/-- An entry whose URI is formed without `url` always has one. -/
theorem fullUri_of_not_usesUrl {trackUri : Line}
    (h : usesUrl trackUri = false) (uri : Line) :
    ∃ u, fullUri trackUri uri = some u := by
  unfold fullUri
  by_cases hfull : startsWith HTTP trackUri = true
  · exact ⟨trackUri, if_pos hfull⟩
  · have hrel : startsWith [SLASH, SLASH] trackUri = true := by
      simpa [usesUrl, hfull] using h
    rw [if_neg hfull, if_pos hrel]
    split
    · exact ⟨_, rfl⟩
    · exact ⟨_, rfl⟩

/-- The blocks do not change what the playlist becomes. -/
theorem insertBlocks_playlist (uri : Line) (playlist : Playlist)
    (trackUri : Line) (alloc : Alloc) :
    (insertBlocks uri playlist trackUri alloc).playlist =
      insertToPlaylist uri playlist trackUri (alloc.mem trackUri) := by
  by_cases halloc : alloc = .noTrack
  · subst halloc
    rfl
  rw [insertBlocks_eq uri playlist trackUri halloc, insertToPlaylist]
  cases hu : fullUri trackUri uri with
  | none =>
      have huses : usesUrl trackUri = true := by
        by_contra hnot
        obtain ⟨u, hsome⟩ :=
          fullUri_of_not_usesUrl (by simpa using hnot) uri
        rw [hu] at hsome
        contradiction
      simp only [huses, if_true, ite_self]
      split
      · rfl
      · rfl
  | some u =>
      cases alloc with
      | noTrack => exact absurd rfl halloc
      | ok =>
          cases usesUrl trackUri <;>
            simp only [Alloc.mem, reduceCtorEq, if_false, if_true,
              Bool.false_eq_true, insertUri_playlist]
      | noUri =>
          cases usesUrl trackUri <;>
            simp only [Alloc.mem, reduceCtorEq, if_false, if_true,
              Bool.false_eq_true, insertUri_playlist]
      | noUrl =>
          cases huses : usesUrl trackUri <;>
            simp only [Alloc.mem, huses, reduceCtorEq, if_false, if_true,
              Bool.false_eq_true, insertUri_playlist]

/-- A call that forms a URI is right exactly when the URI is. -/
theorem resolved_insertUri {base r : Reference} {playlist : Playlist}
    {u : Line} {alloc : Alloc} {allocated freed : List Block}
    (h : allocated = [.track] ∧ freed = [] ∨
      allocated = [.track, .url] ∧ freed = [.url]) :
    Resolved base r playlist
        (insertUri playlist.evicted u alloc allocated freed) ↔
      (alloc ≠ .noUri → IsTarget base r u) := by
  obtain ⟨hleaked, hrest⟩ := insertUri_outcome playlist.evicted u alloc h
  by_cases halloc : alloc = .noUri
  · rw [if_pos halloc] at hrest
    refine iff_of_true ⟨fun v hv => ?_, fun _ => hrest.2, hleaked⟩
      (absurd halloc)
    rw [hrest.1] at hv
    contradiction
  · rw [if_neg halloc] at hrest
    constructor
    · exact fun hres _ => (hres.stored u hrest.1).1
    · intro htarget
      refine ⟨fun v hv => ?_, fun hnone => ?_, hleaked⟩
      · obtain rfl := Option.some.inj (hrest.1.symm.trans hv)
        exact ⟨htarget halloc, hrest.2⟩
      · rw [hrest.1] at hnone
        contradiction

/-- A track that is lost is not accounted for. -/
theorem not_resolved_leaked {base r : Reference} {playlist : Playlist}
    {i : Insertion} (h : i.leaked = [.track]) :
    ¬Resolved base r playlist i := by
  intro hres
  have hnil := hres.leaked
  rw [h] at hnil
  contradiction

theorem resolved_noTrack (base r : Reference) (playlist : Playlist) :
    Resolved base r playlist
      (insertBlocks base.text playlist r.text .noTrack) where
  stored := nofun
  notFormed _ := rfl
  leaked := rfl

theorem resolved_of_formed {base r : Reference} {u : Line}
    (hu : fullUri r.text base.text = some u) (playlist : Playlist)
    {alloc : Alloc} (halloc : alloc ≠ .noTrack) :
    Resolved base r playlist (insertBlocks base.text playlist r.text alloc) ↔
      (alloc = .noUrl → usesUrl r.text = false) ∧
        (alloc ≠ .noUri → IsTarget base r u) := by
  rw [insertBlocks_eq _ _ _ halloc, hu]
  cases huses : usesUrl r.text with
  | false =>
      rw [if_neg (by simp)]
      exact (resolved_insertUri (.inl ⟨rfl, rfl⟩)).trans
        (and_iff_right fun _ => rfl).symm
  | true =>
      rw [if_pos rfl]
      by_cases hurl : alloc = .noUrl
      · rw [if_pos hurl]
        refine iff_of_false (not_resolved_leaked rfl) fun h => ?_
        exact absurd (h.1 hurl) (by simp)
      · rw [if_neg hurl]
        exact (resolved_insertUri (.inr ⟨rfl, rfl⟩)).trans
          (and_iff_right fun h => absurd h hurl).symm

theorem resolved_of_not_formed {base r : Reference}
    (hu : fullUri r.text base.text = none) (playlist : Playlist)
    {alloc : Alloc} (halloc : alloc ≠ .noTrack) :
    ¬Resolved base r playlist
      (insertBlocks base.text playlist r.text alloc) := by
  refine not_resolved_leaked ?_
  rw [insertBlocks_eq _ _ _ halloc, hu]
  split
  · split
    · rfl
    · rfl
  · rfl

/-! ## Cutting the playlist's URI -/

theorem startsWith_iff {pre s : Line} : startsWith pre s = true ↔ pre <+: s :=
  List.isPrefixOf_iff_prefix

/-- The first `//` ends the scheme. -/
theorem splitHost_scheme {s : Line} (hs : SLASH ∉ s) (host : Line) :
    splitHost (s ++ SLASH :: SLASH :: host) =
      some (s ++ [SLASH, SLASH], host) := by
  induction s with
  | nil => simp [splitHost, startsWith]
  | cons c s ih =>
      simp only [List.mem_cons, not_or] at hs
      have hc : startsWith [SLASH, SLASH]
          (c :: (s ++ SLASH :: SLASH :: host)) = false := by
        rw [startsWith, List.isPrefixOf, beq_eq_false_iff_ne.2 hs.1,
          Bool.false_and]
      simp [splitHost, hc, ih hs.2]

theorem rdropWhile_slash_eq_nil {l : Line} :
    (l.rdropWhile fun c => c != SLASH) = [] ↔ SLASH ∉ l := by
  rw [List.rdropWhile_eq_nil_iff]
  constructor
  · exact fun h hin => absurd (h _ hin) (by simp)
  · intro h c hc
    rw [bne_iff_ne]
    rintro rfl
    exact h hc

/-- A URI with these components. -/
structure Parts (base : Reference) (s a : Line) : Prop where
  wf : base.WF
  scheme : base.scheme = some s
  authority : base.authority = some a
  fragment : base.fragment = none

namespace Parts

variable {base r : Reference} {s a : Line}

theorem schemeText (h : Parts base s a) :
    base.schemeText = s ++ COLON := by
  rw [Reference.schemeText, h.scheme]
  rfl

theorem authorityText (h : Parts base s a) :
    base.authorityText = SLASH :: SLASH :: a := by
  rw [Reference.authorityText, h.authority]
  rfl

theorem text (h : Parts base s a) :
    base.text = (s ++ COLON) ++ SLASH :: SLASH ::
      (a ++ (base.path ++ base.queryText)) := by
  simp [Reference.text, h.schemeText, h.authorityText, Reference.fragmentText,
    h.fragment]

theorem slash_scheme (h : Parts base s a) : SLASH ∉ s ++ COLON := by
  intro hin
  rcases List.mem_append.1 hin with hin | hin
  · exact (((h.wf.scheme s h.scheme).2 _ hin).2.1) rfl
  · revert hin
    decide

theorem slash_authority (h : Parts base s a) : SLASH ∉ a :=
  fun hin => (h.wf.authority a h.authority _ hin).1 rfl

theorem path_cases (h : Parts base s a) :
    base.path = [] ∨ ∃ p, base.path = SLASH :: p := by
  rcases h.wf.pathAbempty (by rw [h.authority]; rfl) with hnil | hhead
  · exact .inl hnil
  · exact .inr (List.head?_eq_some_iff.1 hhead)

/-- What the code takes for the scheme and the host. -/
theorem root_eq (h : Parts base s a) :
    root base.text =
      if SLASH ∈ base.path ++ base.queryText then
        some (base.schemeText ++ (base.authorityText ++
          (base.path ++ base.queryText).takeWhile fun c => c != SLASH))
      else none := by
  have hfree : ∀ c ∈ a, (c != SLASH) = true := by
    intro c hc
    rw [bne_iff_ne]
    rintro rfl
    exact h.slash_authority hc
  rw [root, h.text, splitHost_scheme h.slash_scheme, h.schemeText,
    h.authorityText]
  simp only [List.mem_append, h.slash_authority, false_or,
    List.takeWhile_append_of_pos hfree]
  simp

/-- What it takes for the directory. -/
theorem directory_eq (h : Parts base s a) :
    directory base.text =
      some (base.schemeText ++ ([SLASH, SLASH] ++
        if SLASH ∈ base.path ++ base.queryText then
          a ++ (base.path ++ base.queryText).rdropWhile fun c => c != SLASH
        else [])) := by
  have htext : base.text = (base.schemeText ++ [SLASH, SLASH]) ++
      (a ++ (base.path ++ base.queryText)) := by
    rw [h.text, h.schemeText]
    simp
  have hin : SLASH ∈ base.text := by
    rw [htext]
    simp
  rw [directory, if_pos hin, htext, rdropWhile_append,
    rdropWhile_append _ a (base.path ++ base.queryText)]
  by_cases hslash : SLASH ∈ base.path ++ base.queryText
  · have hne := mt rdropWhile_slash_eq_nil.1 (not_not.2 hslash)
    rw [if_neg hne, if_neg (by simp [hne]), if_pos hslash, List.append_assoc]
  · have hlast : (base.schemeText ++ [SLASH, SLASH]).rdropWhile
        (fun c => c != SLASH) = base.schemeText ++ [SLASH, SLASH] := by
      rw [List.append_cons, List.rdropWhile_concat_neg _ _ _ (by simp)]
    rw [if_pos (rdropWhile_slash_eq_nil.2 hslash),
      if_pos (rdropWhile_slash_eq_nil.2 h.slash_authority), if_neg hslash,
      hlast, List.append_nil]

end Parts

/-! ## The kinds of entries by their first characters -/

section Kinds

variable {line : Line} (uri : Line)

theorem fullUri_of_http (h : HTTP <+: line) : fullUri line uri = some line :=
  if_pos (startsWith_iff.2 h)

theorem fullUri_of_name (h : ¬HTTP <+: line) (hhead : line.head? ≠ some SLASH) :
    fullUri line uri = (directory uri).map fun url => url ++ line := by
  have hslash : ∀ pre, startsWith (SLASH :: pre) line = false := by
    intro pre
    rw [Bool.eq_false_iff, Ne, startsWith_iff]
    rintro ⟨t, rfl⟩
    exact hhead rfl
  rw [fullUri, if_neg (mt startsWith_iff.1 h), hslash, hslash, if_neg (by simp),
    if_neg (by simp)]

theorem not_http_of_slash (h : line.head? = some SLASH) : ¬HTTP <+: line := by
  rintro ⟨t, rfl⟩
  have hhead : some (104 : UInt8) = some 47 := h
  revert hhead
  decide

theorem fullUri_of_rooted (hhead : line.head? = some SLASH)
    (h : ¬[SLASH, SLASH] <+: line) :
    fullUri line uri = (root uri).map fun url => url ++ line := by
  have hslash : startsWith [SLASH] line = true := by
    obtain ⟨t, rfl⟩ := List.head?_eq_some_iff.1 hhead
    exact startsWith_iff.2 ⟨t, rfl⟩
  rw [fullUri, if_neg (mt startsWith_iff.1 (not_http_of_slash hhead)),
    if_neg (mt startsWith_iff.1 h), if_pos hslash]

theorem fullUri_of_host (h : [SLASH, SLASH] <+: line) :
    fullUri line uri = some (if HTTP ++ S <+: uri
      then HTTP ++ S ++ COLON ++ line else HTTP ++ COLON ++ line) := by
  have hhead : line.head? = some SLASH := by
    obtain ⟨t, rfl⟩ := h
    rfl
  rw [fullUri, if_neg (mt startsWith_iff.1 (not_http_of_slash hhead)),
    if_pos (startsWith_iff.2 h)]
  by_cases hs : HTTP ++ S <+: uri
  · rw [if_pos hs, if_pos (startsWith_iff.2 hs)]
  · rw [if_neg hs, if_neg (mt startsWith_iff.1 hs)]

end Kinds

/-! ## Which URIs are targets -/

theorem IsTarget.length {base r : Reference} {u : Line}
    (h : IsTarget base r u) : u.length = (base.target r).text.length := by
  obtain ⟨t, ht, rfl⟩ := h
  exact ht.length_text

theorem isTarget_text (base r : Reference) :
    IsTarget base r (base.target r).text :=
  ⟨base.target r, .refl _, rfl⟩

/-- The code forms a target of the entry. -/
def Formed (base r : Reference) : Prop :=
  ∃ u, fullUri r.text base.text = some u ∧ IsTarget base r u

theorem formed_iff {base r : Reference} {u : Line}
    (hu : fullUri r.text base.text = some u) :
    Formed base r ↔ IsTarget base r u := by
  constructor
  · rintro ⟨v, hv, htarget⟩
    obtain rfl := Option.some.inj (hu.symm.trans hv)
    exact htarget
  · exact fun htarget => ⟨u, hu, htarget⟩

section Targets

variable {base r : Reference} {s a : Line}

/-- The text of an entry that is a path. -/
theorem text_path (hs : r.scheme = none) (ha : r.authority = none) :
    r.text = r.path ++ (r.queryText ++ r.fragmentText) := by
  simp [Reference.text, Reference.schemeText, Reference.authorityText, hs, ha]

theorem text_authority (hs : r.scheme = none) (ha : r.authority = some a) :
    r.text = [SLASH, SLASH] ++ (a ++ (r.path ++
      (r.queryText ++ r.fragmentText))) := by
  simp [Reference.text, Reference.schemeText, Reference.authorityText, hs, ha]
  rfl

theorem text_scheme (hs : r.scheme = some s) :
    r.text = s ++ (COLON ++ (r.authorityText ++ (r.path ++
      (r.queryText ++ r.fragmentText)))) := by
  simp [Reference.text, Reference.schemeText, hs]
  rfl

/-- What follows a path is not a `/`. -/
theorem suffix_head (r : Reference) :
    (r.queryText ++ r.fragmentText).head? ≠ some SLASH := by
  unfold Reference.queryText Reference.fragmentText
  cases r.query with
  | some q => simp [Verified.Uri.QUESTION, SLASH]
  | none =>
      cases r.fragment with
      | some f => simp [Verified.Uri.HASH, SLASH]
      | none => simp

theorem IsHttp.length {scheme : Line} (h : IsHttp scheme) :
    scheme.length = if scheme.map lower = HTTP then 4 else 5 := by
  rcases h with heq | heq
  · rw [if_pos heq, ← List.length_map lower, heq]
    rfl
  · rw [if_neg (by rw [heq]; decide), ← List.length_map lower, heq]
    rfl

theorem prefix_append_iff {pre l : Line} (h : pre.length ≤ l.length)
    (rest : Line) : pre <+: l ++ rest ↔ pre <+: l :=
  ⟨fun hpre => List.prefix_of_prefix_length_le hpre (List.prefix_append l rest) h,
    fun hpre => hpre.trans (List.prefix_append l rest)⟩

/-- A full URI is taken as it is, or taken for a name in the directory. -/
theorem full_formed_iff (h : Parts base s a) (hr : r.WF) {s' : Line}
    (hs : r.scheme = some s') (hhttp : IsHttp s') :
    Formed base r ↔ HTTP <+: s' := by
  have htext := text_scheme hs
  have hfour : HTTP.length ≤ s'.length := by
    rw [hhttp.length]
    split <;> decide
  have hpre : HTTP <+: r.text ↔ HTTP <+: s' := by
    rw [htext, prefix_append_iff hfour]
  by_cases hok : HTTP <+: s'
  · have htarget := isTarget_text base r
    rw [Reference.target_of_scheme base hs] at htarget
    rw [formed_iff (fullUri_of_http base.text (hpre.2 hok))]
    exact iff_of_true htarget hok
  · obtain ⟨hne, hfree⟩ := hr.scheme s' hs
    have hhead : r.text.head? ≠ some SLASH := by
      obtain ⟨c, cs, rfl⟩ := List.exists_cons_of_ne_nil hne
      rw [htext]
      intro heq
      exact (hfree c List.mem_cons_self).2.1 (Option.some.inj heq)
    have hu := fullUri_of_name base.text (mt hpre.1 hok) hhead
    rw [h.directory_eq] at hu
    rw [formed_iff hu]
    refine iff_of_false (fun htarget => ?_) hok
    -- The directory comes in front of it.
    have hlength := htarget.length
    rw [Reference.target_of_scheme base hs] at hlength
    simp only [List.length_append, List.length_cons] at hlength
    omega

/-! ### Entries with a host -/

/-- The code sees `https` only in small letters. -/
theorem startsWith_https_iff (h : Parts base s a) (hhttp : IsHttp s) :
    HTTP ++ S <+: base.text ↔ s = HTTP ++ S := by
  have htext : base.text = (s ++ COLON) ++ (SLASH :: SLASH ::
      (a ++ (base.path ++ base.queryText))) := h.text
  have hlen := hhttp.length
  have hfive : (HTTP ++ S).length = 5 := rfl
  constructor
  · intro hpre
    split at hlen
    · -- The fifth character is the colon.
      rw [htext, prefix_append_iff (by simp [hlen, COLON, HTTP, S])] at hpre
      have heq := hpre.eq_of_length (by simp [hlen, COLON, HTTP, S])
      have hlast : S = COLON := List.append_inj_right' heq rfl
      exact absurd hlast (by decide)
    · rw [htext, List.append_assoc, prefix_append_iff (by omega)] at hpre
      exact (hpre.eq_of_length (by omega)).symm
  · rintro rfl
    rw [htext, List.append_assoc]
    exact List.prefix_append _ _

/-- An entry with a host gets the scheme `http`, or `https` if the playlist's
URI starts with it. -/
theorem schemeRelative_formed_iff (h : Parts base s a) (hhttp : IsHttp s)
    {a' : Line} (hs : r.scheme = none) (ha : r.authority = some a') :
    Formed base r ↔ (s.map lower = HTTP ++ S → s = HTTP ++ S) := by
  have hu := fullUri_of_host base.text
    (show [SLASH, SLASH] <+: r.text by
      rw [text_authority hs ha]
      exact List.prefix_append _ _)
  have htarget := Reference.target_text_authority base hs ha
  rw [h.schemeText] at htarget
  rw [formed_iff hu]
  by_cases hsmall : s = HTTP ++ S
  · rw [if_pos ((startsWith_https_iff h hhttp).2 hsmall), ← hsmall, ← htarget]
    exact iff_of_true (isTarget_text base r) fun _ => rfl
  · rw [if_neg (mt (startsWith_https_iff h hhttp).1 hsmall)]
    by_cases hlower : s.map lower = HTTP ++ S
    · refine iff_of_false (fun ht => ?_) fun himp => hsmall (himp hlower)
      -- It lacks the `s`.
      have hlength := ht.length
      rw [htarget] at hlength
      simp only [List.length_append, hhttp.length, hlower] at hlength
      revert hlength
      simp [HTTP, S]
    · refine iff_of_true ?_ fun heq => absurd heq hlower
      -- Written with a small `http`, the target has this text.
      refine ⟨Reference.target { base with scheme := some HTTP } r, ?_, ?_⟩
      · have hhead : s.map lower = HTTP := hhttp.resolve_right hlower
        have hsame : HTTP.map lower = HTTP := by decide
        constructor
        · simp [Reference.target, hs, ha, h.scheme, hhead, hsame]
        · simp [Reference.target, hs, ha]
        · simp [Reference.target, hs, ha]
        · simp [Reference.target, hs, ha]
        · simp [Reference.target, hs, ha]
      · rw [Reference.target_text_authority _ hs ha]
        rfl

/-! ### Rooted paths -/

/-- A rooted path is not taken for a host. -/
theorem rooted_not_host (hr : r.WF) (hs : r.scheme = none)
    (ha : r.authority = none) (hp : r.path.head? = some SLASH) :
    ¬[SLASH, SLASH] <+: r.text := by
  obtain ⟨p, hpath⟩ := List.head?_eq_some_iff.1 hp
  have habsolute := hr.pathAbsolute ha
  rw [hpath] at habsolute
  rw [text_path hs ha, hpath]
  rintro ⟨t, ht⟩
  have htail : SLASH :: t = p ++ (r.queryText ++ r.fragmentText) :=
    List.tail_eq_of_cons_eq ht
  cases p with
  | nil =>
      refine suffix_head r ?_
      rw [List.nil_append] at htail
      rw [← htail]
      rfl
  | cons c p =>
      have hc : SLASH = c := List.head_eq_of_cons_eq htail
      exact habsolute ⟨p, by rw [← hc]; rfl⟩

/-- A rooted path is put behind the host, if the code finds the end of the
host. -/
theorem rootRelative_formed_iff (h : Parts base s a) (hr : r.WF)
    (hs : r.scheme = none) (ha : r.authority = none)
    (hp : r.path.head? = some SLASH) : Formed base r ↔ base.path ≠ [] := by
  have hhead : r.text.head? = some SLASH := by
    obtain ⟨p, hpath⟩ := List.head?_eq_some_iff.1 hp
    rw [text_path hs ha, hpath]
    rfl
  have hu := fullUri_of_rooted base.text hhead
    (rooted_not_host hr hs ha hp)
  have htarget := Reference.target_text_rooted base hs ha hp
  rw [h.root_eq] at hu
  by_cases hslash : SLASH ∈ base.path ++ base.queryText
  · rw [if_pos hslash, Option.map_some] at hu
    rw [formed_iff hu]
    rcases h.path_cases with hnil | ⟨p, hpath⟩
    · refine iff_of_false (fun ht => ?_) fun hne => hne hnil
      -- It has the query's first characters.
      have hlength := ht.length
      rw [htarget] at hlength
      simp only [List.length_append] at hlength
      have hzero : ((base.path ++ base.queryText).takeWhile
          fun c => c != SLASH) = [] := List.length_eq_zero_iff.1 (by omega)
      rw [hnil, List.nil_append] at hzero hslash
      revert hzero hslash
      unfold Reference.queryText
      cases base.query with
      | none => simp
      | some q => simp [Verified.Uri.QUESTION, SLASH]
    · refine iff_of_true ?_ (by simp [hpath])
      have hnone : ((base.path ++ base.queryText).takeWhile
          fun c => c != SLASH) = [] := by
        rw [hpath]
        simp
      rw [hnone, List.append_nil, List.append_assoc, ← htarget]
      exact isTarget_text base r
  · rw [if_neg hslash, Option.map_none] at hu
    refine iff_of_false ?_ fun hne => ?_
    · rintro ⟨u, hsome, -⟩
      rw [hu] at hsome
      contradiction
    · obtain ⟨p, hpath⟩ := h.path_cases.resolve_left hne
      rw [hpath] at hslash
      simp at hslash

/-! ### Names -/

/-- The directory of a query with a slash is longer than a `/`. -/
theorem two_le_query_directory (hslash : SLASH ∈ base.queryText) :
    2 ≤ (base.queryText.rdropWhile fun c => c != SLASH).length := by
  unfold Reference.queryText at hslash ⊢
  cases hq : base.query with
  | none => simp [hq] at hslash
  | some q =>
      simp only [hq, List.mem_cons] at hslash ⊢
      have hin : SLASH ∈ q := hslash.resolve_left (by decide)
      have hne : (q.rdropWhile fun c => c != SLASH) ≠ [] :=
        mt rdropWhile_slash_eq_nil.1 (not_not.2 hin)
      have happ := rdropWhile_append (fun c => c != SLASH)
        [Verified.Uri.QUESTION] q
      rw [if_neg hne, List.singleton_append, List.singleton_append] at happ
      rw [happ, List.length_cons]
      have := List.length_pos_iff.2 hne
      omega

/-- What the code takes for the directory, behind the scheme. -/
def hostDirectory (base : Reference) (a : Line) : Line :=
  [SLASH, SLASH] ++
    if SLASH ∈ base.path ++ base.queryText then
      a ++ (base.path ++ base.queryText).rdropWhile fun c => c != SLASH
    else []

theorem directory_cases (h : Parts base s a) :
    base.directory =
      if base.path = [] then [SLASH]
      else base.path.rdropWhile fun c => c != SLASH := by
  simp [Reference.directory, h.authority]
  rfl

/-- It is the directory if the last slash is one of the path. -/
theorem hostDirectory_of_path (h : Parts base s a) (hpath : base.path ≠ [])
    (hquery : SLASH ∉ base.queryText) :
    hostDirectory base a = base.authorityText ++ base.directory := by
  obtain ⟨p, hp⟩ := h.path_cases.resolve_left hpath
  have hin : SLASH ∈ base.path ++ base.queryText := by
    rw [hp]
    simp
  rw [hostDirectory, if_pos hin, rdropWhile_append,
    if_pos (rdropWhile_slash_eq_nil.2 hquery), directory_cases h,
    if_neg hpath, h.authorityText]
  rfl

/-- Otherwise it is shorter or longer. -/
theorem hostDirectory_length_ne (h : Parts base s a)
    (hnot : base.path = [] ∨ SLASH ∈ base.queryText) :
    (hostDirectory base a).length ≠
      base.authorityText.length + base.directory.length := by
  rw [hostDirectory, directory_cases h, h.authorityText]
  by_cases hquery : SLASH ∈ base.queryText
  · have hin : SLASH ∈ base.path ++ base.queryText :=
      List.mem_append_right _ hquery
    have htwo := two_le_query_directory hquery
    have hne : (base.queryText.rdropWhile fun c => c != SLASH) ≠ [] :=
      mt rdropWhile_slash_eq_nil.1 (not_not.2 hquery)
    have hpath := (List.rdropWhile_prefix (fun c => c != SLASH)
      base.path).length_le
    rw [if_pos hin, rdropWhile_append, if_neg hne]
    simp only [List.length_append, List.length_cons, List.length_nil]
    split
    · simp only [List.length_singleton]
      omega
    · omega
  · have hnil := hnot.resolve_right hquery
    rw [if_neg (by simpa [hnil] using hquery), if_pos hnil]
    simp only [List.length_append, List.length_cons, List.length_nil]
    omega

/-- A name is put behind the last slash, if that is one of the path. -/
theorem pathRelative_formed_iff (h : Parts base s a) (hs : r.scheme = none)
    (ha : r.authority = none) (hne : r.path ≠ [])
    (hp : r.path.head? ≠ some SLASH) :
    Formed base r ↔
      base.path ≠ [] ∧ ¬HTTP <+: r.text ∧ SLASH ∉ base.queryText := by
  have htarget := Reference.target_text_relative base hs ha hne hp
  by_cases hhttp : HTTP <+: r.text
  · rw [formed_iff (fullUri_of_http base.text hhttp)]
    refine iff_of_false (fun ht => ?_) fun hok => hok.2.1 hhttp
    -- It lacks what the target takes from the playlist's URI.
    have hlength := ht.length
    rw [htarget, h.schemeText] at hlength
    simp only [List.length_append, COLON, List.length_singleton] at hlength
    omega
  have hhead : r.text.head? ≠ some SLASH := by
    obtain ⟨c, p, hpath⟩ := List.exists_cons_of_ne_nil hne
    rw [text_path hs ha, hpath]
    rwa [hpath] at hp
  have hu := fullUri_of_name base.text hhttp hhead
  rw [h.directory_eq, Option.map_some] at hu
  rw [formed_iff hu]
  change IsTarget base r (base.schemeText ++ hostDirectory base a ++ r.text) ↔ _
  by_cases hok : base.path ≠ [] ∧ SLASH ∉ base.queryText
  · rw [hostDirectory_of_path h hok.1 hok.2]
    refine iff_of_true ?_ ⟨hok.1, hhttp, hok.2⟩
    rw [List.append_assoc, List.append_assoc, ← htarget]
    exact isTarget_text base r
  · refine iff_of_false (fun ht => ?_) fun hall => hok ⟨hall.1, hall.2.2⟩
    have hlength := ht.length
    rw [htarget] at hlength
    simp only [List.length_append] at hlength
    have hlong := hostDirectory_length_ne h (by
      by_contra hnot
      rw [not_or] at hnot
      exact hok hnot)
    omega

end Targets

/-! ## Every URI, entry and allocation -/

section Entries

variable {base r : Reference}

theorem HttpBase.parts (h : HttpBase base) :
    ∃ s a, IsHttp s ∧ Parts base s a := by
  obtain ⟨s, hs, hhttp⟩ := h.scheme
  obtain ⟨a, ha⟩ := Option.isSome_iff_exists.1 h.authority
  exact ⟨s, a, hhttp, h.wf, hs, ha, h.fragment⟩

/-- The code forms a target exactly under the condition. -/
theorem formed_iff_uriOk (hbase : HttpBase base) (hr : r.WF)
    (hentry : Entry r) : Formed base r ↔ UriOk base r := by
  obtain ⟨s, a, hhttp, h⟩ := hbase.parts
  cases hentry with
  | full s' hs hhttp' ha =>
      rw [full_formed_iff h hr hs hhttp', UriOk, hs]
  | schemeRelative a' hs ha =>
      rw [schemeRelative_formed_iff h hhttp hs ha, UriOk, hs, ha, h.scheme]
      simp
  | rootRelative hs ha hp =>
      rw [rootRelative_formed_iff h hr hs ha hp, UriOk, hs, ha]
      exact (and_iff_left (absurd hp)).symm
  | pathRelative hs ha hne hp =>
      rw [pathRelative_formed_iff h hs ha hne hp, UriOk, hs, ha]
      exact and_congr_right fun _ => ⟨fun hok _ => hok, fun hok => hok hp⟩

/-- The code forms no URI exactly when it finds no end of the host. -/
theorem not_formed_iff (hbase : HttpBase base) (hr : r.WF) (hentry : Entry r) :
    fullUri r.text base.text = none ↔
      r.scheme = none ∧ r.authority = none ∧ r.path.head? = some SLASH ∧
        SLASH ∉ base.path ++ base.queryText := by
  obtain ⟨s, a, -, h⟩ := hbase.parts
  have hname : (¬HTTP <+: r.text → r.text.head? ≠ some SLASH) →
      fullUri r.text base.text ≠ none := by
    intro hhead
    by_cases hhttp : HTTP <+: r.text
    · rw [fullUri_of_http base.text hhttp]
      simp
    · rw [fullUri_of_name base.text hhttp (hhead hhttp), h.directory_eq]
      simp
  cases hentry with
  | full s' hs hhttp' ha =>
      refine iff_of_false (hname fun _ => ?_) fun hnone => ?_
      · obtain ⟨hne, hfree⟩ := hr.scheme s' hs
        obtain ⟨c, cs, rfl⟩ := List.exists_cons_of_ne_nil hne
        rw [text_scheme hs]
        intro heq
        exact (hfree c List.mem_cons_self).2.1 (Option.some.inj heq)
      · rw [hs] at hnone
        exact nomatch hnone.1
  | schemeRelative a' hs ha =>
      refine iff_of_false ?_ fun hnone => ?_
      · rw [fullUri_of_host base.text (by
          rw [text_authority hs ha]
          exact List.prefix_append _ _)]
        simp
      · rw [ha] at hnone
        exact nomatch hnone.2.1
  | rootRelative hs ha hp =>
      have hhead : r.text.head? = some SLASH := by
        obtain ⟨p, hpath⟩ := List.head?_eq_some_iff.1 hp
        rw [text_path hs ha, hpath]
        rfl
      rw [fullUri_of_rooted base.text hhead (rooted_not_host hr hs ha hp), h.root_eq]
      simp [hs, ha, hp]
  | pathRelative hs ha hne hp =>
      refine iff_of_false (hname fun _ => ?_) fun hnone => hp hnone.2.2.1
      obtain ⟨c, p, hpath⟩ := List.exists_cons_of_ne_nil hne
      rw [text_path hs ha, hpath]
      rwa [hpath] at hp

/-- **A call gives the new track the target of the entry, and leaks nothing,**
exactly when the playlist's URI and the entry are of the kinds that the code
tells apart and cuts right, and the copy of the URI is allocated if it is
used. -/
theorem uri_resolved_iff (hbase : HttpBase base) (hr : r.WF)
    (hentry : Entry r) (playlist : Playlist) (alloc : Alloc) :
    Resolved base r playlist
        (insertBlocks base.text playlist r.text alloc) ↔
      CallOk base r alloc := by
  by_cases halloc : alloc = .noTrack
  · subst halloc
    exact iff_of_true (resolved_noTrack base r playlist) trivial
  have hformed := formed_iff_uriOk hbase hr hentry
  have hnone := not_formed_iff hbase hr hentry
  cases hu : fullUri r.text base.text with
  | none =>
      obtain ⟨hs, ha, hp, hslash⟩ := hnone.1 hu
      have hbad : ¬UriOk base r := by
        rw [← hformed]
        rintro ⟨u, hsome, -⟩
        rw [hu] at hsome
        contradiction
      refine iff_of_false (resolved_of_not_formed hu playlist halloc) ?_
      cases alloc with
      | ok => exact hbad
      | noTrack => exact absurd rfl halloc
      | noUrl => exact fun hok => hbad hok.1
      | noUri => exact fun hok => hslash (hok hs ha hp)
  | some u =>
      rw [resolved_of_formed hu playlist halloc, ← formed_iff hu, hformed]
      cases alloc with
      | ok => simp [CallOk]
      | noTrack => exact absurd rfl halloc
      | noUrl => simp [CallOk, and_comm]
      | noUri =>
          refine iff_of_true (by simp) fun hs ha hp => ?_
          by_contra hslash
          rw [hnone.2 ⟨hs, ha, hp, hslash⟩] at hu
          contradiction

end Entries

/-! ## Three playlists -/

/-- `http://h` with a path and no query. -/
def hostUri (path : Line) : Reference :=
  ⟨some HTTP, some [104], path, none, none⟩

/-- A path as an entry. -/
def pathEntry (path : Line) : Reference := ⟨none, none, path, none, none⟩

theorem hostUri_base {path : Line}
    (hpath : ∀ c ∈ path, c ≠ Verified.Uri.QUESTION ∧ c ≠ Verified.Uri.HASH)
    (habempty : path = [] ∨ path.head? = some Verified.Uri.SLASH) :
    HttpBase (hostUri path) where
  wf :=
    { scheme := by simp only [hostUri]; decide +kernel
      authority := by simp only [hostUri]; decide +kernel
      path := hpath
      query := by simp [hostUri]
      pathAbempty := fun _ => habempty
      pathAbsolute := by simp [hostUri]
      pathNoscheme := by simp [hostUri] }
  scheme := ⟨HTTP, rfl, .inl (by decide)⟩
  authority := rfl
  fragment := rfl

theorem pathEntry_wf {path : Line}
    (hpath : ∀ c ∈ path, c ≠ Verified.Uri.QUESTION ∧ c ≠ Verified.Uri.HASH)
    (habsolute : ¬[Verified.Uri.SLASH, Verified.Uri.SLASH] <+: path)
    (hnoscheme : Verified.Uri.COLON ∉
      path.takeWhile fun c => c != Verified.Uri.SLASH) :
    (pathEntry path).WF where
  scheme := by simp [pathEntry]
  authority := by simp [pathEntry]
  path := hpath
  query := by simp [pathEntry]
  pathAbempty := by simp [pathEntry]
  pathAbsolute := fun _ => habsolute
  pathNoscheme := fun _ _ => hnoscheme

/-- `x` in `http://h/a/b` is `http://h/a/x`. -/
theorem uri_resolved_name :
    Resolved (hostUri [47, 97, 47, 98]) (pathEntry [120]) ⟨[], 0⟩
      (insertBlocks (hostUri [47, 97, 47, 98]).text ⟨[], 0⟩
        (pathEntry [120]).text .ok) :=
  (uri_resolved_iff (hostUri_base (by decide +kernel) (by decide +kernel))
    (pathEntry_wf (by decide +kernel) (by decide +kernel) (by decide +kernel))
    (.pathRelative rfl rfl (by decide +kernel) (by decide +kernel)) ⟨[], 0⟩ .ok).2
    ⟨by decide +kernel, fun _ => ⟨by decide +kernel, by decide +kernel⟩⟩

/-- `/x` in `http://h` is lost, and `httpx` in `http://h/` gets `httpx` as its
URI. -/
theorem uri_not_resolved :
    (insertBlocks (hostUri []).text ⟨[], 0⟩ (pathEntry [47, 120]).text
        .ok).leaked = [.track] ∧
      (insertBlocks (hostUri [47]).text ⟨[], 0⟩
        (pathEntry (HTTP ++ [120])).text .ok).uri = some (HTTP ++ [120]) ∧
      ((hostUri [47]).target (pathEntry (HTTP ++ [120]))).text =
        HTTP ++ COLON ++ [47, 47, 104, 47] ++ HTTP ++ [120] := by
  decide +kernel

end EspAdf.Ports.HttpPlaylistUri
