import EspAdf.Ports.HttpPlaylistLines
import EspAdf.Verified.Machine

/-!
# `http_stream.c`: the tracks of a live playlist

`_resolve_playlist` inserts the URIs of a playlist into `tracks`, unless they
are there, and `http_stream_next_track` marks the first track that is not
played as played.  So what was played is remembered by its track alone.  But
`_insert_to_playlist` drops the oldest tracks when there are more than 20, and
`http_stream_next_track` drops the very track it has marked when there are
more than 18.  If the playlist still lists it, the next refresh inserts it
again.

The history variable `due` holds the URIs that `http_stream_next_track` marked
and that every refresh since has listed.  `no_replay` proves that none of them
is played again as long as no refresh lists a URI of `due` whose track was
dropped.
-/

namespace EspAdf.Ports.HttpPlaylist

open EspAdf.Verified
open EspAdf.Ports.HttpPlaylistLines (Line)

/-! ## Data -/

def MAX_PLAYLIST_TRACK : Nat := 20

def MAX_PLAYLIST_KEEP_TRACK : Nat := 18

/-- `track_t`. -/
structure Track where
  uri : Line
  isPlayed : Bool
  deriving DecidableEq, Repr

/-- The part of `playlist_t` that keeps the tracks. -/
structure Playlist where
  tracks : List Track
  totalTracks : Nat
  deriving DecidableEq, Repr

/-! ## URIs -/

/-- `http`. -/
def HTTP : Line := [104, 116, 116, 112]

/-- `s`, which makes `https`. -/
def S : Line := [115]

/-- `:`. -/
def COLON : Line := [58]

def SLASH : UInt8 := 47

/-- `strstr(s, pre) == s`. -/
def startsWith (pre s : Line) : Bool := pre.isPrefixOf s

/-- `strstr(url, "//")`: what precedes the first `//` with it, and what
follows it. -/
def splitHost : Line → Option (Line × Line)
  | [] => none
  | c :: cs =>
      if startsWith [SLASH, SLASH] (c :: cs) then
        some ([SLASH, SLASH], cs.drop 1)
      else (splitHost cs).map fun r => (c :: r.1, r.2)

/-- The scheme and the host of a URI, if a path follows them. -/
def root (uri : Line) : Option Line :=
  match splitHost uri with
  | none => none
  | some (pre, host) =>
      if SLASH ∈ host then some (pre ++ host.takeWhile fun c => c != SLASH)
      else none

/-- A URI up to its last `/`. -/
def directory (uri : Line) : Option Line :=
  if SLASH ∈ uri then some (uri.rdropWhile fun c => c != SLASH) else none

/-- The URI that `_insert_to_playlist` makes of an entry of the playlist
`uri`. -/
def fullUri (trackUri uri : Line) : Option Line :=
  if startsWith HTTP trackUri then some trackUri
  else if startsWith [SLASH, SLASH] trackUri then
    if startsWith (HTTP ++ S) uri then some (HTTP ++ S ++ COLON ++ trackUri)
    else some (HTTP ++ COLON ++ trackUri)
  else if startsWith [SLASH] trackUri then
    (root uri).map fun url => url ++ trackUri
  else (directory uri).map fun url => url ++ trackUri

/-! ## Inserting -/

/-- `STAILQ_REMOVE` of the first track while there are too many. -/
def evict : List Track → Nat → Playlist
  | [], total => ⟨[], total⟩
  | track :: tracks, total =>
      if total > MAX_PLAYLIST_TRACK then evict tracks (total - 1)
      else ⟨track :: tracks, total⟩

/-- The tracks before the new one is inserted. -/
def Playlist.evicted (playlist : Playlist) : Playlist :=
  evict playlist.tracks playlist.totalTracks

/-- What the allocations of `_insert_to_playlist` do. -/
inductive Mem where
  | ok
  | noTrack
  | noUri
  deriving DecidableEq, Repr

/-- `_insert_to_playlist`. -/
def insertToPlaylist (uri : Line) (playlist : Playlist) (trackUri : Line)
    (mem : Mem) : Playlist :=
  let playlist := playlist.evicted
  if mem = .noTrack then playlist
  else
    match fullUri trackUri uri with
    | none => playlist
    | some u =>
        if mem = .noUri then playlist
        else if playlist.tracks.any fun find => find.uri == u then playlist
        else ⟨playlist.tracks ++ [⟨u, false⟩], playlist.totalTracks + 1⟩

/-! ## Resolving -/

/-- `#`. -/
def HASH : Line := [35]

/-- `#EXTM3U`. -/
def EXTM3U : Line := HASH ++ [69, 88, 84, 77, 51, 85]

/-- `#EXTINF`. -/
def EXTINF : Line := HASH ++ [69, 88, 84, 73, 78, 70]

/-- `#EXT-X-STREAM-INF`. -/
def EXT_X_STREAM_INF : Line :=
  HASH ++ [69, 88, 84, 45, 88, 45, 83, 84, 82, 69, 65, 77, 45, 73, 78, 70]

/-- The loop of `_resolve_playlist`: the lines that it inserts, and
`valid_playlist` behind it. -/
def entries (validPlaylist isPlaylistUri : Bool) :
    List Line → List Line × Bool
  | [] => ([], validPlaylist)
  | line :: lines =>
      if !validPlaylist && line == EXTM3U then
        entries true isPlaylistUri lines
      else if startsWith HTTP line then
        let rest := entries true isPlaylistUri lines
        (line :: rest.1, rest.2)
      else if !validPlaylist then ([], validPlaylist)
      else if !isPlaylistUri && startsWith EXTINF line then
        entries validPlaylist true lines
      else if !isPlaylistUri && startsWith EXT_X_STREAM_INF line then
        entries validPlaylist true lines
      else if startsWith HASH line then
        entries validPlaylist isPlaylistUri lines
      else if !isPlaylistUri then entries validPlaylist isPlaylistUri lines
      else
        let rest := entries validPlaylist false lines
        (line :: rest.1, rest.2)

/-- The entries are inserted one after the other. -/
def insertAll (uri : Line) (mem : Nat → Mem) :
    List Line → Nat → Playlist → Playlist
  | [], _, playlist => playlist
  | line :: lines, i, playlist =>
      insertAll uri mem lines (i + 1)
        (insertToPlaylist uri playlist line (mem i))

/-! ## The stream -/

/-- A stream that parses playlists. -/
structure Sys where
  playlist : Playlist
  isPlaylistResolved : Bool
  /-- History: the URIs that were marked as played, and that every refresh
  since then has listed. -/
  due : List Line
  deriving DecidableEq, Repr

/-- `_playlist_get_next_track`. -/
def getNextTrack (s : Sys) : Option Track :=
  if s.isPlaylistResolved then
    s.playlist.tracks.find? fun track => !track.isPlayed
  else none

/-- Mark the first track that is not played, and remove it if asked to. -/
def markFirst (remove : Bool) : List Track → List Track
  | [] => []
  | track :: tracks =>
      if track.isPlayed then track :: markFirst remove tracks
      else if remove then tracks
      else { track with isPlayed := true } :: tracks

/-- `http_stream_next_track`. -/
def nextTrack (s : Sys) : Sys :=
  match getNextTrack s with
  | none => s
  | some track =>
      let remove := decide
        (s.playlist.totalTracks > MAX_PLAYLIST_KEEP_TRACK)
      { s with
        playlist := ⟨markFirst remove s.playlist.tracks,
          if remove then s.playlist.totalTracks - 1
          else s.playlist.totalTracks⟩
        due := track.uri :: s.due }

/-- `http_stream_restart`. -/
def restart (s : Sys) : Sys := { s with isPlaylistResolved := false }

/-- The URIs that a playlist lists. -/
def listed (uri : Line) (lines : List Line) : List Line :=
  (entries false false lines).1.filterMap fun line => fullUri line uri

/-- `_resolve_playlist` for the playlist `uri`, whose lines are `lines`. -/
def resolvePlaylist (uri : Line) (lines : List Line) (mem : Nat → Mem)
    (s : Sys) : Sys :=
  if s.isPlaylistResolved then s
  else
    let found := entries false false lines
    { playlist := insertAll uri mem found.1 0 s.playlist
      isPlaylistResolved := found.2
      due := if found.2 then s.due.filter fun u => u ∈ listed uri lines
        else s.due }

inductive Call where
  | restart
  | resolve (uri : Line) (lines : List Line) (mem : Nat → Mem)
  | nextTrack

def Sys.exec (s : Sys) : Call → Sys
  | .restart => HttpPlaylist.restart s
  | .resolve uri lines mem => resolvePlaylist uri lines mem s
  | .nextTrack => HttpPlaylist.nextTrack s

def playlistMachine : Machine Sys Call := ⟨fun s c => some (s.exec c)⟩

/-- The stream after `http_stream_init`. -/
def start : Sys := ⟨⟨[], 0⟩, false, []⟩

/-! ## The condition -/

/-- Each entry that is due still has its track when it is inserted. -/
def Remembered (due : List Line) (uri : Line) (mem : Nat → Mem) :
    List Line → Nat → Playlist → Prop
  | [], _, _ => True
  | line :: lines, i, playlist =>
      (∀ u ∈ fullUri line uri, mem i = .ok → u ∈ due →
        u ∈ playlist.evicted.tracks.map Track.uri) ∧
      Remembered due uri mem lines (i + 1)
        (insertToPlaylist uri playlist line (mem i))

/-- The condition on a call: a refresh lists no URI that is due and whose track
was dropped. -/
def CallOk (s : Sys) : Call → Prop
  | .resolve uri lines mem => s.isPlaylistResolved = false →
      Remembered s.due uri mem (entries false false lines).1 0 s.playlist
  | .restart => True
  | .nextTrack => True

instance decidableRemembered (due : List Line) (uri : Line)
    (mem : Nat → Mem) : ∀ lines i playlist,
      Decidable (Remembered due uri mem lines i playlist)
  | [], _, _ => inferInstanceAs (Decidable True)
  | line :: lines, i, playlist =>
      have := decidableRemembered due uri mem lines (i + 1)
        (insertToPlaylist uri playlist line (mem i))
      inferInstanceAs (Decidable ((∀ u ∈ fullUri line uri, _) ∧ _))

instance (s : Sys) (c : Call) : Decidable (CallOk s c) :=
  match c with
  | .resolve uri lines mem => inferInstanceAs (Decidable
      (s.isPlaylistResolved = false → Remembered s.due uri mem
        (entries false false lines).1 0 s.playlist))
  | .restart => inferInstanceAs (Decidable True)
  | .nextTrack => inferInstanceAs (Decidable True)

/-! ## What is waiting -/

/-- No two tracks have the same URI, and none that is due waits to be
played. -/
structure Clean (playlist : Playlist) (due : List Line) : Prop where
  nodup : (playlist.tracks.map Track.uri).Nodup
  waiting : ∀ track ∈ playlist.tracks, track.isPlayed = false →
    track.uri ∉ due

theorem Clean.mono {playlist : Playlist} {due due' : List Line}
    (h : Clean playlist due) (hsub : ∀ u ∈ due', u ∈ due) :
    Clean playlist due' :=
  ⟨h.nodup, fun track ht hp hu => h.waiting track ht hp (hsub _ hu)⟩

theorem Clean.sublist {playlist playlist' : Playlist} {due : List Line}
    (h : Clean playlist due)
    (hsub : playlist'.tracks.Sublist playlist.tracks) :
    Clean playlist' due :=
  ⟨h.nodup.sublist (hsub.map Track.uri),
    fun track ht => h.waiting track (hsub.subset ht)⟩

/-- Evicting drops the oldest tracks. -/
theorem evict_sublist (tracks : List Track) (total : Nat) :
    (evict tracks total).tracks.Sublist tracks := by
  induction tracks generalizing total with
  | nil => exact List.Sublist.refl []
  | cons track tracks ih =>
      rw [evict]
      split
      · exact (ih (total - 1)).cons track
      · exact List.Sublist.refl _

/-- An insertion leaves no track waiting that is due exactly when such a track
was there before. -/
theorem insert_clean_iff {playlist : Playlist} {due : List Line}
    (h : Clean playlist due) (uri line : Line) (mem : Mem) :
    Clean (insertToPlaylist uri playlist line mem) due ↔
      ∀ u ∈ fullUri line uri, mem = .ok → u ∈ due →
        u ∈ playlist.evicted.tracks.map Track.uri := by
  have hevicted : Clean playlist.evicted due :=
    h.sublist (evict_sublist _ _)
  rw [insertToPlaylist]
  generalize playlist.evicted = evicted at hevicted ⊢
  cases hu : fullUri line uri with
  | none =>
      refine iff_of_true ?_ fun u hu => nomatch hu
      simp only [ite_self]
      exact hevicted
  | some u =>
      have hfound : (evicted.tracks.any fun find => find.uri == u) = true ↔
          u ∈ evicted.tracks.map Track.uri := by
        simp only [List.any_eq_true, beq_iff_eq, List.mem_map]
      by_cases hmem : mem = .ok
      · simp only [hmem, reduceCtorEq, if_false, hfound]
        by_cases hin : u ∈ evicted.tracks.map Track.uri
        · rw [if_pos hin]
          refine iff_of_true hevicted fun u' hu' _ _ => ?_
          rwa [Option.mem_some.1 hu'] at hin
        · rw [if_neg hin]
          constructor
          · intro hclean u' hu' _ hdue
            rw [← Option.mem_some.1 hu'] at hdue
            exact absurd hdue (hclean.waiting ⟨u, false⟩
              (List.mem_append_right _ List.mem_cons_self) rfl)
          · intro hok
            refine ⟨?_, fun track ht hp => ?_⟩
            · rw [List.map_append, List.map_singleton, List.nodup_append]
              refine ⟨hevicted.nodup, List.nodup_singleton u, ?_⟩
              intro a ha b hb hab
              rw [List.mem_singleton.1 hb] at hab
              rw [hab] at ha
              exact hin ha
            · rcases List.mem_append.1 ht with ht | ht
              · exact hevicted.waiting track ht hp
              · rw [List.mem_singleton.1 ht]
                exact fun hdue => hin (hok u rfl trivial hdue)
      · refine iff_of_true ?_ fun _ _ hok => absurd hok hmem
        cases mem with
        | ok => exact absurd rfl hmem
        | noTrack => exact hevicted
        | noUri => exact hevicted

theorem insertAll_clean {due : List Line} (uri : Line) (mem : Nat → Mem)
    {lines : List Line} : ∀ {i : Nat} {playlist : Playlist},
      Clean playlist due → Remembered due uri mem lines i playlist →
      Clean (insertAll uri mem lines i playlist) due := by
  induction lines with
  | nil => exact fun h _ => h
  | cons line lines ih =>
      intro i playlist h hok
      exact ih ((insert_clean_iff h uri line (mem i)).2 hok.1) hok.2

/-- What is left to be played after the first track was marked. -/
theorem markFirst_waiting {tracks : List Track} {first : Track}
    (hnodup : (tracks.map Track.uri).Nodup)
    (hfirst : tracks.find? (fun track => !track.isPlayed) = some first)
    (remove : Bool) {track : Track} (h : track ∈ markFirst remove tracks)
    (hp : track.isPlayed = false) :
    track ∈ tracks ∧ track.uri ≠ first.uri := by
  induction tracks with
  | nil => cases h
  | cons t tracks ih =>
      rw [List.map_cons, List.nodup_cons] at hnodup
      cases hplayed : t.isPlayed with
      | true =>
          rw [List.find?_cons_of_neg (by simp [hplayed])] at hfirst
          rw [markFirst, if_pos hplayed] at h
          rcases List.mem_cons.1 h with rfl | h
          · rw [hplayed] at hp
            cases hp
          · rcases ih hnodup.2 hfirst h with ⟨hin, hne⟩
            exact ⟨List.mem_cons_of_mem t hin, hne⟩
      | false =>
          rw [List.find?_cons_of_pos (by simp [hplayed])] at hfirst
          cases hfirst
          rw [markFirst, if_neg (by simp [hplayed])] at h
          have hin : track ∈ tracks := by
            cases remove with
            | true => exact h
            | false =>
                rcases List.mem_cons.1 h with rfl | h
                · cases hp
                · exact h
          refine ⟨List.mem_cons_of_mem _ hin, fun heq => hnodup.1 ?_⟩
          rw [← heq]
          exact List.mem_map_of_mem hin

theorem markFirst_uris (remove : Bool) (tracks : List Track) :
    ((markFirst remove tracks).map Track.uri).Sublist
      (tracks.map Track.uri) := by
  induction tracks with
  | nil => exact List.Sublist.refl []
  | cons t tracks ih =>
      rw [markFirst]
      split
      · exact ih.cons_cons t.uri
      · split
        · exact (List.Sublist.refl _).cons t.uri
        · exact List.Sublist.refl _

/-! ## The calls -/

/-- The next track is the first one that waits. -/
theorem getNextTrack_find {s : Sys} {first : Track}
    (h : getNextTrack s = some first) :
    s.playlist.tracks.find? (fun track => !track.isPlayed) = some first := by
  rw [getNextTrack] at h
  split at h
  · exact h
  · contradiction

theorem nextTrack_clean {s : Sys} (h : Clean s.playlist s.due) :
    Clean (nextTrack s).playlist (nextTrack s).due := by
  unfold nextTrack
  split
  · exact h
  · rename_i first hfirst
    have hfind := getNextTrack_find hfirst
    refine ⟨h.nodup.sublist (markFirst_uris _ _), fun track ht hp hdue => ?_⟩
    rcases markFirst_waiting h.nodup hfind _ ht hp with ⟨hin, hne⟩
    rcases List.mem_cons.1 hdue with heq | hdue
    · exact hne heq
    · exact h.waiting track hin hp hdue

theorem resolve_clean {s : Sys} (h : Clean s.playlist s.due) {uri : Line}
    {lines : List Line} {mem : Nat → Mem}
    (hok : CallOk s (.resolve uri lines mem)) :
    Clean (resolvePlaylist uri lines mem s).playlist
      (resolvePlaylist uri lines mem s).due := by
  unfold resolvePlaylist
  split
  · exact h
  · rename_i hresolved
    refine (insertAll_clean uri mem h
      (hok (by simpa using hresolved))).mono fun u hu => ?_
    simp only at hu
    split at hu
    · exact (List.mem_filter.1 hu).1
    · exact hu

theorem exec_clean {s : Sys} (h : Clean s.playlist s.due) {c : Call}
    (hok : CallOk s c) : Clean (s.exec c).playlist (s.exec c).due := by
  cases c with
  | restart => exact h
  | resolve uri lines mem => exact resolve_clean h hok
  | nextTrack => exact nextTrack_clean h

theorem start_clean : Clean start.playlist start.due :=
  ⟨List.nodup_nil, fun _ ht => nomatch ht⟩

/-- **What is due is not played again**, as long as no refresh lists a URI that
is due and whose track was dropped. -/
theorem no_replay {s : Sys} (h : playlistMachine.Reaches CallOk start s) :
    ∀ track, getNextTrack s = some track → track.uri ∉ s.due := by
  have hclean : Clean s.playlist s.due := by
    refine Machine.Reaches.invariant (I := fun s => Clean s.playlist s.due) h
      start_clean fun u c v hu hok hs => ?_
    cases hs
    exact exec_clean hu hok
  intro track ht
  have hfind := getNextTrack_find ht
  exact hclean.waiting track (List.mem_of_find?_eq_some hfind)
    (by simpa using List.find?_some hfind)

/-! ## What is waiting is played -/

/-- Marking takes one track off those that wait. -/
theorem markFirst_count {tracks : List Track} {first : Track}
    (hfirst : tracks.find? (fun track => !track.isPlayed) = some first)
    (remove : Bool) :
    (markFirst remove tracks).countP (fun track => !track.isPlayed) + 1 =
      tracks.countP fun track => !track.isPlayed := by
  induction tracks with
  | nil => cases hfirst
  | cons t tracks ih =>
      cases hplayed : t.isPlayed with
      | true =>
          rw [List.find?_cons_of_neg (by simp [hplayed])] at hfirst
          rw [markFirst, if_pos hplayed,
            List.countP_cons_of_neg (by simp [hplayed]),
            List.countP_cons_of_neg (by simp [hplayed]), ih hfirst]
      | false =>
          rw [markFirst, if_neg (by simp [hplayed]),
            List.countP_cons_of_pos (by simp [hplayed])]
          cases remove with
          | true => rfl
          | false =>
              rw [if_neg (by simp), List.countP_cons_of_neg (by simp)]

/-- The other tracks go on waiting. -/
theorem mem_markFirst {tracks : List Track} {first : Track}
    (hfirst : tracks.find? (fun track => !track.isPlayed) = some first)
    (remove : Bool) {track : Track} (h : track ∈ tracks)
    (hne : track ≠ first) : track ∈ markFirst remove tracks := by
  induction tracks with
  | nil => cases h
  | cons t tracks ih =>
      cases hplayed : t.isPlayed with
      | true =>
          rw [List.find?_cons_of_neg (by simp [hplayed])] at hfirst
          rw [markFirst, if_pos hplayed]
          rcases List.mem_cons.1 h with rfl | h
          · exact List.mem_cons_self
          · exact List.mem_cons_of_mem t (ih hfirst h)
      | false =>
          rw [List.find?_cons_of_pos (by simp [hplayed])] at hfirst
          cases hfirst
          rw [markFirst, if_neg (by simp [hplayed])]
          have hin := (List.mem_cons.1 h).resolve_left hne
          cases remove with
          | true => exact hin
          | false => exact List.mem_cons_of_mem _ hin

theorem nextTrack_of_found {s : Sys} {first : Track}
    (h : getNextTrack s = some first) :
    (nextTrack s).isPlaylistResolved = s.isPlaylistResolved ∧
      (nextTrack s).playlist.tracks = markFirst (decide
        (s.playlist.totalTracks > MAX_PLAYLIST_KEEP_TRACK))
        s.playlist.tracks := by
  rw [nextTrack, h]
  exact ⟨rfl, rfl⟩

/-- A track that waits is played in the end, if nothing else happens. -/
theorem waiting_is_played {track : Track} (hp : track.isPlayed = false)
    {s : Sys} (hresolved : s.isPlaylistResolved = true)
    (h : track ∈ s.playlist.tracks) :
    ∃ n, getNextTrack (nextTrack^[n] s) = some track := by
  induction hn : s.playlist.tracks.countP (fun track => !track.isPlayed)
    generalizing s with
  | zero =>
      have hall := List.countP_eq_zero.1 hn track h
      rw [hp] at hall
      exact absurd rfl hall
  | succ n ih =>
      have hnext : getNextTrack s =
          s.playlist.tracks.find? fun track => !track.isPlayed := by
        rw [getNextTrack, if_pos hresolved]
      cases hfirst : s.playlist.tracks.find? fun track => !track.isPlayed with
      | none =>
          have hnone := List.find?_eq_none.1 hfirst track h
          rw [hp] at hnone
          exact absurd rfl hnone
      | some first =>
          rw [hfirst] at hnext
          by_cases heq : track = first
          · exact ⟨0, by rw [heq]; exact hnext⟩
          · rcases nextTrack_of_found hnext with ⟨hkeeps, htracks⟩
            have hmem := mem_markFirst hfirst (decide
              (s.playlist.totalTracks > MAX_PLAYLIST_KEEP_TRACK)) h heq
            have hcount := markFirst_count hfirst (decide
              (s.playlist.totalTracks > MAX_PLAYLIST_KEEP_TRACK))
            rw [← htracks] at hmem hcount
            rcases ih (hkeeps.trans hresolved) hmem (by omega) with ⟨m, hm⟩
            exact ⟨m + 1, hm⟩

/-! ## A short and a long playlist -/

/-- `http`, followed by one more character. -/
def segment (k : Nat) : Line := HTTP ++ [UInt8.ofNat (65 + k)]

/-- A refresh that lists `n` segments. -/
def refresh (n : Nat) : List Call :=
  [.restart, .resolve HTTP (EXTM3U :: (List.range n).map segment)
    fun _ => .ok]

/-- The second refresh lists the segment that was played again. -/
theorem no_replay_short : ∃ s,
    playlistMachine.run start (refresh 2 ++ [.nextTrack] ++ refresh 2) =
      some s ∧ s.due = [segment 0] ∧
    ∀ track, getNextTrack s = some track → track.uri ∉ s.due := by
  have h : (playlistMachine.runIf CallOk start
      (refresh 2 ++ [.nextTrack] ++ refresh 2)).map Sys.due =
      some [segment 0] := by
    decide +kernel
  rcases Option.map_eq_some_iff.1 h with ⟨s, hs, hdue⟩
  exact ⟨s, (Machine.meets_of_runIf hs).1, hdue,
    no_replay (Machine.reaches_of_runIf hs)⟩

/-- With 19 segments the first one is dropped when it is played, and inserted
again by the second refresh: it is due, and comes up after the others. -/
theorem replay_long : ∃ s,
    playlistMachine.run start (refresh 19 ++ [.nextTrack] ++ refresh 19 ++
      List.replicate 18 .nextTrack) = some s ∧
    getNextTrack s = some ⟨segment 0, false⟩ ∧ segment 0 ∈ s.due := by
  have h : (playlistMachine.run start (refresh 19 ++ [.nextTrack] ++
      refresh 19 ++ List.replicate 18 .nextTrack)).map (fun s =>
        (getNextTrack s, decide (segment 0 ∈ s.due))) =
      some (some ⟨segment 0, false⟩, true) := by
    decide +kernel
  simp only [Option.map_eq_some_iff, Prod.mk.injEq, decide_eq_true_eq] at h
  exact h

end EspAdf.Ports.HttpPlaylist
