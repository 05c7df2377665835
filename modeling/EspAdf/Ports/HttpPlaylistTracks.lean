import EspAdf.Ports.HttpPlaylist

/-!
# `http_stream.c`: the track list and its counter

`_insert_to_playlist` and `http_stream_next_track` adjust `total_tracks` with
every track they add or remove.  `_playlist_clear` removes all tracks and
leaves the counter as it is.  Since `_insert_to_playlist` evicts by the
counter, every close and every HTTP error makes later lists shorter, in the end
down to one track.  It also evicts before it looks for the URI, so at 21 tracks
the insertion of a listed URI drops the oldest track, which may be the one
with that URI.

`tracks_accurate_iff` says exactly which sequences of operations keep the list
bounded and counted: those that clear no counted track, and that insert a
listed URI only while nothing is evicted for it.
-/

namespace EspAdf.Ports.HttpPlaylistTracks

open EspAdf.Verified
open EspAdf.Ports.HttpPlaylist
open EspAdf.Ports.HttpPlaylistLines (Line)

/-! ## The operations -/

/-- `_playlist_clear`. -/
def playlistClear (s : Sys) : Sys :=
  { s with playlist := ⟨[], s.playlist.totalTracks⟩ }

inductive Op where
  /-- `_insert_to_playlist` of an entry of the playlist `uri`. -/
  | insert (uri trackUri : Line)
  | nextTrack
  | clear
  /-- The other functions set `is_playlist_resolved`. -/
  | resolved (isPlaylistResolved : Bool)
  deriving DecidableEq, Repr

def exec (s : Sys) : Op → Sys
  | .insert uri trackUri =>
      { s with playlist := insertToPlaylist uri s.playlist trackUri .ok }
  | .nextTrack => HttpPlaylist.nextTrack s
  | .clear => playlistClear s
  | .resolved b => { s with isPlaylistResolved := b }

def tracksMachine : Machine Sys Op := ⟨fun s op => some (exec s op)⟩

/-! ## The property and the condition -/

/-- The list is bounded, counted, and without duplicates. -/
structure Counted (playlist : Playlist) : Prop where
  total : playlist.totalTracks = playlist.tracks.length
  bounded : playlist.tracks.length ≤ MAX_PLAYLIST_TRACK + 1
  nodup : (playlist.tracks.map Track.uri).Nodup

/-- An operation leaves the list bounded and counted, and the insertion of a
listed URI leaves the tracks as `same` says. -/
def Accurate (same : List Track → List Track → Prop) (s : Sys) (op : Op) :
    Prop :=
  Counted (exec s op).playlist ∧
    ∀ uri trackUri, op = .insert uri trackUri →
      ∀ u ∈ fullUri trackUri uri, u ∈ s.playlist.tracks.map Track.uri →
        same (exec s op).playlist.tracks s.playlist.tracks

/-- Nothing is evicted. -/
def NoEviction (playlist : Playlist) (_ : Line) : Prop :=
  playlist.totalTracks ≤ MAX_PLAYLIST_TRACK

/-- The track of `u` is not evicted. -/
def Spared (playlist : Playlist) (u : Line) : Prop :=
  playlist.totalTracks ≤ MAX_PLAYLIST_TRACK ∨
    u ∈ playlist.tracks.tail.map Track.uri

/-- The condition on an operation: no counted track is cleared, and a listed
URI is inserted only as `spared` says. -/
def OpOk (spared : Playlist → Line → Prop) (s : Sys) : Op → Prop
  | .insert uri trackUri => ∀ u ∈ fullUri trackUri uri,
      u ∈ s.playlist.tracks.map Track.uri → spared s.playlist u
  | .clear => s.playlist.totalTracks = 0
  | .nextTrack => True
  | .resolved _ => True

/-! ## Eviction -/

theorem evict_of_le (tracks : List Track) {total : Nat}
    (h : total ≤ MAX_PLAYLIST_TRACK) :
    evict tracks total = ⟨tracks, total⟩ := by
  cases tracks with
  | nil => rfl
  | cons track tracks => rw [evict, if_neg (by omega)]

/-- A full list loses its oldest track. -/
theorem evicted_of_full {playlist : Playlist} (h : Counted playlist)
    (hfull : MAX_PLAYLIST_TRACK < playlist.totalTracks) :
    playlist.evicted = ⟨playlist.tracks.tail, MAX_PLAYLIST_TRACK⟩ := by
  have htotal := h.total
  have hbounded := h.bounded
  cases htracks : playlist.tracks with
  | nil => simp [htracks] at htotal; omega
  | cons track tracks =>
      have hlast : playlist.totalTracks - 1 = MAX_PLAYLIST_TRACK := by omega
      rw [Playlist.evicted, htracks, evict, if_pos hfull, hlast,
        evict_of_le tracks (Nat.le_refl _)]
      rfl

/-- Eviction keeps the count and makes room for one more track. -/
theorem evicted_counted {playlist : Playlist} (h : Counted playlist) :
    playlist.evicted.totalTracks = playlist.evicted.tracks.length ∧
      playlist.evicted.totalTracks ≤ MAX_PLAYLIST_TRACK := by
  have htotal := h.total
  have hbounded := h.bounded
  by_cases hfull : MAX_PLAYLIST_TRACK < playlist.totalTracks
  · rw [evicted_of_full h hfull]
    refine ⟨?_, Nat.le_refl _⟩
    show MAX_PLAYLIST_TRACK = playlist.tracks.tail.length
    rw [List.length_tail]
    omega
  · rw [Playlist.evicted, evict_of_le _ (Nat.not_lt.1 hfull)]
    exact ⟨htotal, Nat.not_lt.1 hfull⟩

/-! ## Insertion -/

theorem insert_counted {playlist : Playlist} (h : Counted playlist)
    (uri trackUri : Line) :
    Counted (insertToPlaylist uri playlist trackUri .ok) := by
  have hclean : Clean playlist [] :=
    ⟨h.nodup, fun _ _ _ => List.not_mem_nil⟩
  have hnodup := ((insert_clean_iff hclean uri trackUri .ok).2
    fun _ _ _ hdue => absurd hdue List.not_mem_nil).nodup
  obtain ⟨htotal, hroom⟩ := evicted_counted h
  have hcount : (insertToPlaylist uri playlist trackUri .ok).totalTracks =
        (insertToPlaylist uri playlist trackUri .ok).tracks.length ∧
      (insertToPlaylist uri playlist trackUri .ok).totalTracks ≤
        MAX_PLAYLIST_TRACK + 1 := by
    unfold insertToPlaylist
    generalize playlist.evicted = evicted at htotal hroom
    simp only [reduceCtorEq, if_false]
    split
    · exact ⟨htotal, by omega⟩
    · split
      · exact ⟨htotal, by omega⟩
      · simp only [List.length_append, List.length_singleton]
        omega
  exact ⟨hcount.1, hcount.1 ▸ hcount.2, hnodup⟩

/-- A URI whose track was not evicted is not inserted again. -/
theorem insert_found {playlist : Playlist} {uri trackUri u : Line}
    (hu : fullUri trackUri uri = some u)
    (hin : u ∈ playlist.evicted.tracks.map Track.uri) :
    insertToPlaylist uri playlist trackUri .ok = playlist.evicted := by
  obtain ⟨find, hfind, rfl⟩ := List.mem_map.1 hin
  have hany : playlist.evicted.tracks.any (fun f => f.uri == find.uri) = true :=
    List.any_eq_true.2 ⟨find, hfind, beq_self_eq_true find.uri⟩
  simp only [insertToPlaylist, hu, hany, reduceCtorEq, if_false, if_true]

theorem insert_not_found {playlist : Playlist} {uri trackUri u : Line}
    (hu : fullUri trackUri uri = some u)
    (hout : u ∉ playlist.evicted.tracks.map Track.uri) :
    (insertToPlaylist uri playlist trackUri .ok).tracks =
      playlist.evicted.tracks ++ [⟨u, false⟩] := by
  have hany : playlist.evicted.tracks.any (fun f => f.uri == u) = false := by
    rw [List.any_eq_false]
    intro find hfind heq
    exact hout (List.mem_map.2 ⟨find, hfind, by simpa using heq⟩)
  simp [insertToPlaylist, hu, hany]

section Listed

variable {playlist : Playlist} {uri trackUri u : Line}

/-- Without eviction the insertion of a listed URI changes nothing. -/
theorem insert_noEviction (hu : fullUri trackUri uri = some u)
    (hin : u ∈ playlist.tracks.map Track.uri)
    (hroom : playlist.totalTracks ≤ MAX_PLAYLIST_TRACK) :
    insertToPlaylist uri playlist trackUri .ok = playlist := by
  have hevicted : playlist.evicted = playlist := evict_of_le _ hroom
  rw [insert_found hu (hevicted.symm ▸ hin), hevicted]

/-- In a full list it replaces the oldest track by a track of that URI, or
drops the oldest track. -/
theorem insert_full (h : Counted playlist)
    (hu : fullUri trackUri uri = some u)
    (hfull : MAX_PLAYLIST_TRACK < playlist.totalTracks) :
    (insertToPlaylist uri playlist trackUri .ok).tracks =
      if u ∈ playlist.tracks.tail.map Track.uri then playlist.tracks.tail
      else playlist.tracks.tail ++ [⟨u, false⟩] := by
  have hevicted := evicted_of_full h hfull
  by_cases hin : u ∈ playlist.tracks.tail.map Track.uri
  · rw [if_pos hin, insert_found hu (hevicted.symm ▸ hin), hevicted]
  · rw [if_neg hin, insert_not_found hu (hevicted.symm ▸ hin), hevicted]

/-- The new track is not the last of the old ones. -/
theorem tail_append_not_sublist {tracks : List Track} {u : Line}
    (hlong : 1 < tracks.length) (hout : u ∉ tracks.tail.map Track.uri) :
    ¬List.Sublist (tracks.tail ++ [⟨u, false⟩]) tracks := by
  intro hsub
  have heq : tracks.tail ++ [⟨u, false⟩] = tracks := by
    refine hsub.eq_of_length ?_
    rw [List.length_append, List.length_tail, List.length_singleton]
    omega
  have hlast : tracks.getLast? = some ⟨u, false⟩ := by
    rw [← heq, List.getLast?_concat]
  have htail : tracks.tail.getLast? = some ⟨u, false⟩ := by
    rw [List.getLast?_tail, if_neg (by omega), hlast]
  exact hout (List.mem_map_of_mem (List.mem_of_getLast? htail))

theorem insert_sublist_iff (h : Counted playlist)
    (hu : fullUri trackUri uri = some u)
    (hin : u ∈ playlist.tracks.map Track.uri) :
    (insertToPlaylist uri playlist trackUri .ok).tracks.Sublist
        playlist.tracks ↔ Spared playlist u := by
  by_cases hroom : playlist.totalTracks ≤ MAX_PLAYLIST_TRACK
  · rw [insert_noEviction hu hin hroom]
    exact iff_of_true (List.Sublist.refl _) (.inl hroom)
  · have hlong : 1 < playlist.tracks.length := by
      rw [← h.total]
      exact lt_trans (by decide) (Nat.not_le.1 hroom)
    rw [insert_full h hu (Nat.not_le.1 hroom), Spared, or_iff_right hroom]
    by_cases htail : u ∈ playlist.tracks.tail.map Track.uri
    · rw [if_pos htail]
      exact iff_of_true (List.tail_sublist _) htail
    · rw [if_neg htail]
      exact iff_of_false (tail_append_not_sublist hlong htail) htail

theorem insert_eq_iff (h : Counted playlist)
    (hu : fullUri trackUri uri = some u)
    (hin : u ∈ playlist.tracks.map Track.uri) :
    (insertToPlaylist uri playlist trackUri .ok).tracks = playlist.tracks ↔
      NoEviction playlist u := by
  constructor
  · intro heq
    by_contra hroom
    -- The tracks would be spared, so the list would be one shorter.
    have hspared : Spared playlist u :=
      (insert_sublist_iff h hu hin).1 (heq ▸ List.Sublist.refl _)
    have hfull := Nat.not_le.1 hroom
    rw [insert_full h hu hfull, if_pos (hspared.resolve_left hroom)] at heq
    have hlength := congrArg List.length heq
    rw [List.length_tail, ← h.total] at hlength
    omega
  · intro hroom
    rw [insert_noEviction hu hin hroom]

end Listed

/-! ## The other operations -/

theorem markFirst_length {tracks : List Track} {first : Track}
    (hfirst : tracks.find? (fun track => !track.isPlayed) = some first)
    (remove : Bool) :
    (markFirst remove tracks).length =
      if remove then tracks.length - 1 else tracks.length := by
  induction tracks with
  | nil => cases hfirst
  | cons t tracks ih =>
      cases hplayed : t.isPlayed with
      | true =>
          rw [List.find?_cons_of_neg (by simp [hplayed])] at hfirst
          have hpos := List.length_pos_of_mem (List.mem_of_find?_eq_some hfirst)
          rw [markFirst, if_pos hplayed, List.length_cons, ih hfirst,
            List.length_cons]
          cases remove with
          | true =>
              show tracks.length - 1 + 1 = tracks.length + 1 - 1
              omega
          | false => rfl
      | false =>
          rw [markFirst, if_neg (by simp [hplayed])]
          cases remove with
          | true => rfl
          | false => rfl

theorem nextTrack_counted {s : Sys} (h : Counted s.playlist) :
    Counted (HttpPlaylist.nextTrack s).playlist := by
  unfold HttpPlaylist.nextTrack
  split
  · exact h
  · rename_i first hfirst
    have hfind := getNextTrack_find hfirst
    have htotal := h.total
    have hbounded := h.bounded
    have hlength := markFirst_length hfind
      (decide (s.playlist.totalTracks > MAX_PLAYLIST_KEEP_TRACK))
    refine ⟨?_, ?_, h.nodup.sublist (markFirst_uris _ _)⟩
    · rw [hlength, ← htotal]
    · rw [hlength]
      split <;> omega

theorem clear_counted_iff {s : Sys} :
    Counted (playlistClear s).playlist ↔ s.playlist.totalTracks = 0 := by
  constructor
  · exact fun h => h.total
  · exact fun h => ⟨h, Nat.zero_le _, List.nodup_nil⟩

/-! ## Every sequence -/

/-- One operation keeps the list as it should be exactly when it meets the
condition. -/
theorem accurate_iff {same : List Track → List Track → Prop}
    {spared : Playlist → Line → Prop}
    (hsame : ∀ {playlist uri trackUri u}, Counted playlist →
      fullUri trackUri uri = some u → u ∈ playlist.tracks.map Track.uri →
      (same (insertToPlaylist uri playlist trackUri .ok).tracks
        playlist.tracks ↔ spared playlist u))
    {s : Sys} (h : Counted s.playlist) (op : Op) :
    Accurate same s op ↔ OpOk spared s op := by
  cases op with
  | insert uri trackUri =>
      refine (and_iff_right (insert_counted h uri trackUri)).trans ?_
      constructor
      · intro hall u hu hin
        exact (hsame h hu hin).1 (hall uri trackUri rfl u hu hin)
      · intro hok uri' trackUri' heq u hu hin
        cases heq
        exact (hsame h hu hin).2 (hok u hu hin)
  | nextTrack => exact iff_of_true ⟨nextTrack_counted h, nofun⟩ trivial
  | clear => exact (and_iff_left nofun).trans clear_counted_iff
  | resolved b => exact iff_of_true ⟨h, nofun⟩ trivial

theorem meets_accurate_iff {same : List Track → List Track → Prop}
    {spared : Playlist → Line → Prop}
    (hsame : ∀ {playlist uri trackUri u}, Counted playlist →
      fullUri trackUri uri = some u → u ∈ playlist.tracks.map Track.uri →
      (same (insertToPlaylist uri playlist trackUri .ok).tracks
        playlist.tracks ↔ spared playlist u)) (ops : List Op) :
    tracksMachine.Meets (Accurate same) HttpPlaylist.start ops ↔
      tracksMachine.Meets (OpOk spared) HttpPlaylist.start ops := by
  have hstart : Counted HttpPlaylist.start.playlist :=
    ⟨rfl, Nat.zero_le _, List.nodup_nil⟩
  refine Machine.meets_congr (I := fun s => Counted s.playlist)
    (fun s op h => accurate_iff hsame h op) ?_ hstart ops
  intro s op t h hok hs
  cases hs
  exact ((accurate_iff hsame h op).2 hok).1

/-- **Every operation of a sequence leaves the list bounded, counted and
without duplicates, and inserting a listed URI changes nothing**, exactly when
no counted track is cleared and no listed URI is inserted into a full list.
If dropping the oldest track is no change to the others, it is exactly when no
counted track is cleared and no URI is inserted into a full list whose oldest
track it is. -/
theorem tracks_accurate_iff (ops : List Op) :
    (tracksMachine.Meets (Accurate Eq) HttpPlaylist.start ops ↔
        tracksMachine.Meets (OpOk NoEviction) HttpPlaylist.start ops) ∧
      (tracksMachine.Meets (Accurate List.Sublist) HttpPlaylist.start ops ↔
        tracksMachine.Meets (OpOk Spared) HttpPlaylist.start ops) :=
  ⟨meets_accurate_iff insert_eq_iff ops,
    meets_accurate_iff insert_sublist_iff ops⟩

/-- After 21 tracks were cleared the list never holds more than one. -/
theorem cleared_tracks_shrink : ∃ s,
    tracksMachine.run HttpPlaylist.start
      ((List.range 21).map (fun k => Op.insert HTTP (segment k)) ++
        [.clear] ++ (List.range 3).map fun k => Op.insert HTTP (segment k)) =
      some s ∧
    s.playlist.totalTracks = 22 ∧ s.playlist.tracks = [⟨segment 2, false⟩] := by
  have h : (tracksMachine.run HttpPlaylist.start
      ((List.range 21).map (fun k => Op.insert HTTP (segment k)) ++
        [.clear] ++
        (List.range 3).map fun k => Op.insert HTTP (segment k))).map
      (fun s => (s.playlist.totalTracks, s.playlist.tracks)) =
      some (22, [⟨segment 2, false⟩]) := by
    decide +kernel
  simp only [Option.map_eq_some_iff, Prod.mk.injEq] at h
  exact h

end EspAdf.Ports.HttpPlaylistTracks
