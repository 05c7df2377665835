import EspAdf.Ports.HttpPlaylist

/-!
# `http_stream.c`: opening a stream

`_http_open` requests the URI of the element, follows redirections, and reads
the response as a playlist if its content type or its URI says that it is one.
Then it begins again, with the first track that is not played.

`http_stream_init` allocates `playlist` only if `enable_playlist_parser` is
set.  `_playlist_get_next_track` and the two callers of `_playlist_clear` test
the flag, `_resolve_playlist` does not.  `open_playlist_iff` says which replies
of the server make it use a playlist that is not there.

The client, the hook and the server are what they answer: a `Reply` holds the
answers that one step of `_http_open` asks for.
-/

namespace EspAdf.Ports.HttpOpen

open EspAdf.Verified
open EspAdf.Ports.HttpPlaylistLines (Line MAX_PLAYLIST_LINE_SIZE)
open EspAdf.Ports.HttpPlaylist (Track Mem startsWith insertToPlaylist HTTP HASH
  EXTM3U EXTINF EXT_X_STREAM_INF)

def ESP_OK : Int := 0
def ESP_FAIL : Int := -1
def ESP_ERR_NO_MEM : Int := 257

/-! ## Playlists by type and by name -/

def ascii (s : String) : Line := s.toUTF8.toList

def tolower (c : UInt8) : UInt8 := if 65 ≤ c ∧ c ≤ 90 then c + 32 else c

/-- `strcasecmp(a, b) == 0`. -/
def strcasecmp (a b : Line) : Bool := a.map tolower == b.map tolower

/-- `strrchr`. -/
def strrchr (s : Line) (c : UInt8) : Option Line :=
  if c ∈ s then some (c :: s.rtakeWhile fun b => b != c) else none

/-- `audio_codec_t`. -/
inductive AudioCodec where
  | none
  | raw
  | wav
  | mp3
  | aac
  | opus
  | playlist
  deriving DecidableEq, Repr

def getAudioType (contentType : Line) : AudioCodec :=
  let is := fun name => strcasecmp contentType (ascii name)
  if is "mp3" || is "audio/mp3" || is "audio/mpeg" ||
      is "binary/octet-stream" || is "application/octet-stream" then .mp3
  else if is "audio/aac" || is "audio/x-aac" || is "audio/mp4" ||
      is "audio/aacp" || is "video/MP2T" then .aac
  else if is "audio/wav" then .wav
  else if is "audio/opus" then .opus
  else if is "application/vnd.apple.mpegurl" || is "vnd.apple.mpegURL" then
    .playlist
  else .none

/-- The part of `audio_element_info_t` that opening works with. -/
structure Info where
  totalBytes : Int
  uri : Option Line
  codecFmt : AudioCodec
  deriving DecidableEq, Repr

/-- `_is_playlist`. -/
def isPlaylist (info : Info) (uri : Line) : Bool :=
  info.codecFmt = .playlist ||
    match strrchr uri 46 with
    | some dot =>
        strcasecmp dot (ascii ".m3u") || strcasecmp dot (ascii ".m3u8")
    | none => false

/-! ## The stream -/

/-- `audio_stream_type_t`. -/
inductive StreamType where
  | none
  | reader
  | writer
  deriving DecidableEq, Repr

/-- `playlist_t`: its tracks, and the buffer that lines are read into. -/
structure Playlist where
  tracks : HttpPlaylist.Playlist
  lines : HttpPlaylistLines.Playlist
  deriving DecidableEq, Repr

/-- `http_stream_t`, and the `info` of its element. -/
structure HttpStream where
  streamType : StreamType
  /-- Whether there is a hook. -/
  hook : Bool
  enablePlaylistParser : Bool
  isPlaylistResolved : Bool
  isOpen : Bool
  /-- Whether the client reports to the `info` of the call in progress, or to
  that of an earlier call. -/
  client : Option Bool
  playlist : Option Playlist
  info : Info
  /-- History: the playlist was used when it was NULL. -/
  nullUsed : Bool
  deriving DecidableEq, Repr

/-- `http_stream_cfg_t`. -/
structure Config where
  type : StreamType
  eventHandle : Bool
  enablePlaylistParser : Bool
  deriving DecidableEq, Repr

/-- The playlist after `calloc` and `STAILQ_INIT`. -/
def emptyPlaylist : Playlist :=
  ⟨⟨[], 0⟩, ⟨List.replicate (MAX_PLAYLIST_LINE_SIZE + 1) 0, 0, 0, 0, 0⟩⟩

/-- `http_stream_init`, and what `audio_element_init` leaves in `info`. -/
def httpStreamInit (config : Config) : HttpStream where
  streamType := config.type
  hook := config.eventHandle
  enablePlaylistParser := config.enablePlaylistParser
  isPlaylistResolved := false
  isOpen := false
  client := none
  playlist := if config.enablePlaylistParser then some emptyPlaylist else none
  info := ⟨0, none, .none⟩
  nullUsed := false

namespace HttpStream

/-- `http->playlist->...`. -/
def usePlaylist (s : HttpStream) : HttpStream :=
  { s with nullUsed := s.nullUsed || s.playlist.isNone }

def mapTracks (s : HttpStream)
    (f : HttpPlaylist.Playlist → HttpPlaylist.Playlist) : HttpStream :=
  { s with playlist := s.playlist.map fun p => { p with tracks := f p.tracks } }

/-- `_playlist_get_next_track`. -/
def playlistGetNextTrack (s : HttpStream) : HttpStream × Option Track :=
  if s.enablePlaylistParser && s.isPlaylistResolved then
    (s.usePlaylist,
      s.playlist.bind fun p => HttpPlaylist.getNextTrack ⟨p.tracks, true, []⟩)
  else (s, none)

/-- `_playlist_clear`. -/
def playlistClear (s : HttpStream) : HttpStream :=
  s.usePlaylist.mapTracks fun p => ⟨[], p.totalTracks⟩

/-- `http_stream_next_track`. -/
def nextTrack (s : HttpStream) : HttpStream :=
  match s.playlistGetNextTrack with
  | (s, none) => s
  | (s, some _) =>
      let s := s.mapTracks fun p =>
        (HttpPlaylist.nextTrack ⟨p, true, []⟩).playlist
      { s with info := { s.info with totalBytes := 0 }, isOpen := false }

/-- `http_stream_restart`. -/
def restart (s : HttpStream) : HttpStream :=
  { s with isPlaylistResolved := false }

end HttpStream

/-! ## The hook -/

/-- What a hook can do to the stream. -/
inductive HookCall where
  | nextTrack
  | restart
  /-- `audio_element_set_uri`. -/
  | setUri (uri : Option Line)
  deriving DecidableEq, Repr

def HttpStream.call (s : HttpStream) : HookCall → HttpStream
  | .nextTrack => s.nextTrack
  | .restart => s.restart
  | .setUri uri => { s with info := { s.info with uri := uri } }

/-- One call of the hook. -/
structure HookRun where
  calls : List HookCall
  ret : Int
  deriving DecidableEq, Repr

/-- `dispatch_hook`. -/
def dispatchHook (s : HttpStream) (run : HookRun) : HttpStream × Int :=
  if s.hook then (run.calls.foldl HttpStream.call s, run.ret) else (s, ESP_OK)

/-! ## Opening -/

/-- What the hook, the client and the server answer. -/
structure Reply where
  /-- The calls of the hook. -/
  finishPlaylist : HookRun
  preRequest : HookRun
  onRequest : HookRun
  postRequest : HookRun
  /-- `esp_http_client_init` succeeds. -/
  clientInit : Bool
  /-- `esp_http_client_get_post_field`: the length, if there is post data. -/
  postField : Option Int
  /-- `esp_http_client_open`. -/
  clientOpen : Int
  /-- `esp_http_client_write`. -/
  clientWrite : Int
  /-- `esp_http_client_fetch_headers`, which returns an `int`. -/
  totalBytes : Int
  /-- `esp_http_client_get_status_code`. -/
  statusCode : Int
  /-- The `Content-Type` header. -/
  contentType : Option Line
  /-- The `info` of this call stands where that of the earlier one was. -/
  sameInfo : Bool
  /-- `esp_http_client_read`: nothing if it fails. -/
  chunk : List UInt8
  /-- The allocations of `_insert_to_playlist`. -/
  mem : Mem
  deriving DecidableEq, Repr

/-- Where `_http_open` stands. -/
inductive Pc where
  /-- `_stream_open_begin`. -/
  | begin (info : Info)
  /-- `_stream_redirect`. -/
  | redirect (info : Info) (uri : Line) (postField : Option Int)
  /-- The loop of `_resolve_playlist`. -/
  | resolve (info : Info) (uri : Line) (validPlaylist isPlaylistUri : Bool)
  /-- Nowhere: the last call, if there was one, has returned. -/
  | returned (err : Int)
  /-- NULL was dereferenced, or a line runs off the buffer. -/
  | crashed
  deriving DecidableEq, Repr

structure Sys where
  http : HttpStream
  pc : Pc
  deriving DecidableEq, Repr

/-- `_http_event_handle`: the content type of a response. -/
def httpEventHandle (info : Info) (client : Option Bool) (r : Reply) : Info :=
  match r.contentType with
  | some value =>
      if client = some true || r.sameInfo then
        { info with codecFmt := getAudioType value }
      else info
  | none => info

/-- `info` when the headers are fetched. -/
def fetchHeaders (info : Info) (client : Option Bool) (r : Reply) : Info :=
  { httpEventHandle info client r with totalBytes := r.totalBytes }

def isRedirection (statusCode : Int) : Bool :=
  statusCode = 301 || statusCode = 302

def isSuccess (statusCode : Int) : Bool :=
  statusCode = 200 || statusCode = 206

/-- The post data is sent, if there is any and the hook leaves it to
`_http_open`. -/
def sendsPost (postField : Option Int) (wrlen : Int) : Bool :=
  match postField with
  | some postLen => decide (postLen ≠ 0) && decide (wrlen = 0)
  | none => false

/-- A request up to its headers; the error if it fails before them. -/
def request (s : HttpStream) (postField : Option Int) (r : Reply) :
    HttpStream × Option Int :=
  if r.clientOpen ≠ ESP_OK then (s, some r.clientOpen)
  else
    match dispatchHook s r.onRequest with
    | (s, wrlen) =>
        if wrlen < 0 then (s, some ESP_FAIL)
        else if sendsPost postField wrlen && decide (r.clientWrite ≤ 0) then
          (s, some ESP_FAIL)
        else
          match dispatchHook s r.postRequest with
          | (s, err) => if err < 0 then (s, some ESP_FAIL) else (s, none)

/-- The end of `_http_open`. -/
def opened (s : HttpStream) : Sys :=
  ⟨{ s with isOpen := true }, .returned ESP_OK⟩

/-- `_resolve_playlist` up to its loop. -/
def resolvePlaylist (s : HttpStream) (info : Info) (uri : Line) : Sys :=
  if !isPlaylist s.info uri then opened s
  else if s.isPlaylistResolved then opened s
  else
    match s.playlist with
    | none => ⟨s.usePlaylist, .crashed⟩
    | some p =>
        let lines := HttpPlaylistLines.resolveStart p.lines.data
          s.info.totalBytes.toNat
        ⟨{ s with playlist := some { p with lines := lines } },
          .resolve info uri false false⟩

/-- From `_stream_redirect` on. -/
def openRedirect (s : HttpStream) (info : Info) (uri : Line)
    (postField : Option Int) (r : Reply) : Sys :=
  match request s postField r with
  | (s, some err) => ⟨s, .returned err⟩
  | (s, none) =>
      let info := fetchHeaders info s.client r
      if isRedirection r.statusCode then ⟨s, .redirect info uri postField⟩
      else if !isSuccess r.statusCode && s.enablePlaylistParser then
        ⟨s.playlistClear.restart, .returned ESP_FAIL⟩
      else resolvePlaylist { s with info := info } info uri

/-- `esp_http_client_init`, or `esp_http_client_set_url` for a client that is
there. -/
def initClient (s : HttpStream) (r : Reply) : Option HttpStream :=
  if s.client.isSome then some s
  else if r.clientInit then some { s with client := some true }
  else none

/-- From the choice of the URI to `_stream_redirect`. -/
def openUri (s : HttpStream) (info : Info) (uri : Option Line) (r : Reply) :
    Sys :=
  match uri with
  | none => ⟨s, .returned ESP_FAIL⟩
  | some uri =>
      match initClient s r with
      | none => ⟨s, .returned ESP_ERR_NO_MEM⟩
      | some s =>
          match dispatchHook s r.preRequest with
          | (s, err) =>
              if err ≠ ESP_OK then ⟨s, .returned ESP_FAIL⟩
              else if s.streamType = .writer then
                ⟨{ s with isOpen := s.isOpen || decide (r.clientOpen = ESP_OK) },
                  .returned r.clientOpen⟩
              else ⟨s, .redirect info uri r.postField⟩

/-- From `_stream_open_begin` on. -/
def openBegin (s : HttpStream) (info : Info) (r : Reply) : Sys :=
  match s.playlistGetNextTrack with
  | (s, some track) => openUri s info (some track.uri) r
  | (s, none) =>
      if s.isPlaylistResolved && s.enablePlaylistParser then
        match dispatchHook s r.finishPlaylist with
        | (s, err) =>
            if err ≠ ESP_OK then ⟨s, .returned ESP_FAIL⟩ else ⟨s, .begin info⟩
      else openUri s info s.info.uri r

/-- Behind the loop of `_resolve_playlist`. -/
def resolved (s : HttpStream) (info : Info) (validPlaylist : Bool) : Sys :=
  if validPlaylist then ⟨{ s with isPlaylistResolved := true }, .begin info⟩
  else opened s

/-- The body of the loop for a line. -/
def resolveLine (s : HttpStream) (info : Info) (uri : Line)
    (validPlaylist isPlaylistUri : Bool) (line : Line) (mem : Mem) : Sys :=
  let inserted := s.mapTracks fun p => insertToPlaylist uri p line mem
  if !validPlaylist && line == EXTM3U then
    ⟨s, .resolve info uri true isPlaylistUri⟩
  else if startsWith HTTP line then
    ⟨inserted, .resolve info uri true isPlaylistUri⟩
  else if !validPlaylist then resolved s info validPlaylist
  else if !isPlaylistUri && startsWith EXTINF line then
    ⟨s, .resolve info uri validPlaylist true⟩
  else if !isPlaylistUri && startsWith EXT_X_STREAM_INF line then
    ⟨s, .resolve info uri validPlaylist true⟩
  else if startsWith HASH line then
    ⟨s, .resolve info uri validPlaylist isPlaylistUri⟩
  else if !isPlaylistUri then
    ⟨s, .resolve info uri validPlaylist isPlaylistUri⟩
  else ⟨inserted, .resolve info uri validPlaylist false⟩

/-- What `_client_read_line` reads, if it does: no more than it asks for. -/
def chunks (r : Reply) : List (List UInt8) :=
  if r.chunk = [] then [] else [r.chunk.take MAX_PLAYLIST_LINE_SIZE]

/-- The loop of `_resolve_playlist`. -/
def openResolve (s : HttpStream) (info : Info) (uri : Line)
    (validPlaylist isPlaylistUri : Bool) (r : Reply) : Sys :=
  match s.playlist with
  | none => ⟨s.usePlaylist, .crashed⟩
  | some p =>
      match HttpPlaylistLines.clientReadLine p.lines (chunks r) with
      | none => ⟨s, .crashed⟩
      | some (line, lines, _) =>
          let s := { s with playlist := some { p with lines := lines } }
          match line with
          | none => resolved s info validPlaylist
          | some line =>
              resolveLine s info uri validPlaylist isPlaylistUri line r.mem

/-- `_http_open` goes on, with what it is answered. -/
def openStep (s : Sys) (r : Reply) : Sys :=
  match s.pc with
  | .begin info => openBegin s.http info r
  | .redirect info uri postField => openRedirect s.http info uri postField r
  | .resolve info uri validPlaylist isPlaylistUri =>
      openResolve s.http info uri validPlaylist isPlaylistUri r
  | .returned _ => s
  | .crashed => s

/-- `_http_open` is called. -/
def httpOpen (s : HttpStream) : Sys :=
  if s.isOpen then ⟨s, .returned ESP_FAIL⟩
  else ⟨{ s with client := s.client.map fun _ => false }, .begin s.info⟩

/-! ## The calls of a stream -/

/-- `_http_close`, in which a writer calls the hook twice. -/
def httpClose (s : HttpStream) (postRequest finishRequest : HookRun) :
    HttpStream :=
  let closed := { s with isOpen := false }
  let s :=
    if s.isOpen && s.streamType = .writer then
      match dispatchHook closed postRequest with
      | (s, err) => if err < 0 then s else (dispatchHook s finishRequest).1
    else closed
  let s := if s.enablePlaylistParser then s.playlistClear.restart else s
  { s with client := none }

inductive Act where
  /-- `audio_element_setinfo` and `audio_element_set_uri`. -/
  | setInfo (info : Info)
  | open
  | reply (r : Reply)
  | close (postRequest finishRequest : HookRun)
  /-- `http_stream_next_track`, `http_stream_restart`. -/
  | call (c : HookCall)
  deriving DecidableEq, Repr

/-- No call of `_http_open` is in progress. -/
def Pc.atRest : Pc → Bool
  | .returned _ => true
  | _ => false

def move (s : Sys) : Act → Option Sys
  | .reply r => if s.pc.atRest then none else some (openStep s r)
  | .setInfo info =>
      if s.pc.atRest then some { s with http := { s.http with info := info } }
      else none
  | .open => if s.pc.atRest then some (httpOpen s.http) else none
  | .close postRequest finishRequest =>
      if s.pc.atRest then
        some ⟨httpClose s.http postRequest finishRequest, .returned ESP_OK⟩
      else none
  | .call c =>
      if s.pc.atRest then some { s with http := s.http.call c } else none

def httpMachine : Machine Sys Act := ⟨move⟩

def start (config : Config) : Sys := ⟨httpStreamInit config, .returned ESP_OK⟩

/-! ## The condition -/

/-- What `dispatch_hook` returns. -/
def hookRet (hook : Bool) (run : HookRun) : Int :=
  if hook then run.ret else ESP_OK

/-- The answers with which a request gets to its headers. -/
def completes (hook : Bool) (postField : Option Int) (r : Reply) : Bool :=
  r.clientOpen = ESP_OK && decide (0 ≤ hookRet hook r.onRequest) &&
    !(sendsPost postField (hookRet hook r.onRequest) &&
      decide (r.clientWrite ≤ 0)) &&
    decide (0 ≤ hookRet hook r.postRequest)

/-- A response that is no redirection and looks like a playlist. -/
def playlistArrives (s : Sys) (r : Reply) : Bool :=
  match s.pc with
  | .redirect info uri postField =>
      completes s.http.hook postField r && !isRedirection r.statusCode &&
        isPlaylist (fetchHeaders info s.http.client r) uri
  | _ => false

/-- A response that looks like a playlist comes only if playlists are
parsed. -/
def Parsed (s : Sys) : Act → Prop
  | .reply r => playlistArrives s r = true → s.http.enablePlaylistParser = true
  | _ => True

instance (s : Sys) (a : Act) : Decidable (Parsed s a) :=
  match a with
  | .reply _ => inferInstanceAs (Decidable (_ → _))
  | .setInfo _ => .isTrue trivial
  | .open => .isTrue trivial
  | .close _ _ => .isTrue trivial
  | .call _ => .isTrue trivial

/-! ## The line buffer -/

/-- `data` ends with a NUL, and `index` is not behind it. -/
structure Buffered (pl : HttpPlaylistLines.Playlist) : Prop where
  size : pl.data.length = MAX_PLAYLIST_LINE_SIZE + 1
  nul : pl.data[MAX_PLAYLIST_LINE_SIZE]? = some 0
  index : pl.index ≤ MAX_PLAYLIST_LINE_SIZE

/-- How much there is still to read: bytes of the response, then bytes of the
buffer. -/
def unread (pl : HttpPlaylistLines.Playlist) : Nat :=
  (pl.contentLength - pl.totalRead) * (MAX_PLAYLIST_LINE_SIZE + 2) +
    if pl.remain > 0 then MAX_PLAYLIST_LINE_SIZE + 1 - pl.index else 0

section Buffer

open HttpPlaylistLines

theorem scanLine_nul {data : List UInt8} {i : Nat} (h : data[i]? = some 0)
    (isEndOfLine : Bool) : ∃ r, scanLine isEndOfLine data = some r ∧
      r.1.length = data.length ∧ r.1[i]? = some 0 ∧
      ∀ n ∈ r.2, n < i ∧ (isEndOfLine = false → 0 < n) := by
  induction data generalizing i isEndOfLine with
  | nil => simp at h
  | cons c cs ih =>
      rw [scanLine]
      by_cases hnul : c = 0
      · exact ⟨_, if_pos hnul, rfl, h,
          fun n hmem => (Option.not_mem_none n hmem).elim⟩
      · rw [if_neg hnul]
        cases i with
        | zero => exact absurd (Option.some.inj h) hnul
        | succ i =>
            rw [List.getElem?_cons_succ] at h
            -- The distance grows by one with every byte of the line.
            have hnext : ∀ (b : Bool) (c' : UInt8),
                ∃ r, (scanLine b cs).map (fun r =>
                    (c' :: r.1, r.2.map (· + 1))) = some r ∧
                  r.1.length = (c :: cs).length ∧ r.1[i + 1]? = some 0 ∧
                  ∀ n ∈ r.2, n < i + 1 ∧ 0 < n := by
              intro b c'
              obtain ⟨r, hr, hlen, hget, hn⟩ := ih h b
              refine ⟨_, by rw [hr]; rfl, by simp [hlen], by simpa using hget, ?_⟩
              intro n hmem
              simp only [Option.mem_def, Option.map_eq_some_iff] at hmem
              obtain ⟨m, hm, rfl⟩ := hmem
              have := (hn m hm).1
              omega
            by_cases heol : isEol c
            · rw [if_pos heol]
              obtain ⟨r, hr, hlen, hget, hn⟩ := hnext true 0
              exact ⟨r, hr, hlen, hget, fun n hmem => ⟨(hn n hmem).1,
                fun _ => (hn n hmem).2⟩⟩
            · rw [if_neg heol]
              cases isEndOfLine with
              | true =>
                  refine ⟨_, if_pos rfl, rfl, by simpa using h, ?_⟩
                  intro n hmem
                  obtain rfl := Option.some.inj hmem
                  exact ⟨Nat.succ_pos i, fun h => absurd h (by decide)⟩
              | false =>
                  rw [if_neg (by simp)]
                  obtain ⟨r, hr, hlen, hget, hn⟩ := hnext false c
                  exact ⟨r, hr, hlen, hget, fun n hmem => ⟨(hn n hmem).1,
                    fun _ => (hn n hmem).2⟩⟩

/-- `_get_line_in_buffer` stays in the buffer, and gets on in it. -/
theorem getLineInBuffer_buffered {pl : HttpPlaylistLines.Playlist}
    (h : Buffered pl) (hremain : pl.remain > 0) :
    ∃ pl' line, getLineInBuffer pl = some (pl', some line) ∧ Buffered pl' ∧
      pl'.totalRead = pl.totalRead ∧ pl'.contentLength = pl.contentLength ∧
      (pl'.remain = 0 ∨ pl.index < pl'.index) := by
  have hget : (pl.data.drop pl.index)[MAX_PLAYLIST_LINE_SIZE - pl.index]? =
      some 0 := by
    rw [List.getElem?_drop, Nat.add_sub_cancel' h.index]
    exact h.nul
  obtain ⟨r, hr, hlen, hnul, hn⟩ := scanLine_nul hget false
  have hindex := h.index
  have hsize := h.size
  rw [List.length_drop] at hlen
  have hdata : (pl.data.take pl.index ++ r.1).length =
      MAX_PLAYLIST_LINE_SIZE + 1 := by
    rw [List.length_append, List.length_take]
    omega
  have hlast : (pl.data.take pl.index ++ r.1)[MAX_PLAYLIST_LINE_SIZE]? =
      some 0 := by
    rw [List.getElem?_append_right (by rw [List.length_take]; omega),
      List.length_take, Nat.min_eq_left (by omega)]
    exact hnul
  rw [getLineInBuffer, if_pos hremain, hr, Option.map_some]
  cases hnext : r.2 with
  | none =>
      exact ⟨_, _, rfl, ⟨hdata, hlast, hindex⟩, rfl, rfl, .inl rfl⟩
  | some n =>
      obtain ⟨hlt, hpos⟩ := hn n hnext
      have hpos := hpos rfl
      refine ⟨_, _, rfl, ⟨hdata, hlast, ?_⟩, rfl, rfl, .inr ?_⟩
      · show pl.index + n ≤ MAX_PLAYLIST_LINE_SIZE
        omega
      · show pl.index < pl.index + n
        omega

theorem receive_buffered {pl : HttpPlaylistLines.Playlist} (h : Buffered pl)
    (hremain : pl.remain = 0) {chunk : List UInt8}
    (hlen : chunk.length ≤ MAX_PLAYLIST_LINE_SIZE) :
    Buffered (receive (moveRemain pl) chunk) := by
  have hsize := h.size
  have hmoved : moveRemain pl = pl := if_neg (by omega)
  rw [hmoved]
  have hdata := receive_data hremain chunk
  refine ⟨?_, ?_, h.index⟩
  · rw [hdata]
    simp only [List.length_append, List.length_cons, List.length_drop]
    omega
  · rw [hdata, List.getElem?_append_right hlen]
    cases hrest : MAX_PLAYLIST_LINE_SIZE - chunk.length with
    | zero => rfl
    | succ i =>
        rw [List.getElem?_cons_succ, List.getElem?_drop,
          show chunk.length + 1 + i = MAX_PLAYLIST_LINE_SIZE by omega]
        exact h.nul

/-- `_client_read_line` stays in the buffer, and every line that it returns
leaves less to read. -/
theorem clientReadLine_buffered {pl : HttpPlaylistLines.Playlist}
    (h : Buffered pl) (r : Reply) :
    ∃ line pl' rest, clientReadLine pl (chunks r) = some (line, pl', rest) ∧
      Buffered pl' ∧ (line.isSome → unread pl' < unread pl) := by
  by_cases hremain : pl.remain > 0
  · obtain ⟨pl', line, hget, hbuf, htotal, hlength, hmoved⟩ :=
      getLineInBuffer_buffered h hremain
    refine ⟨_, _, _, by rw [clientReadLine, hget], hbuf, fun _ => ?_⟩
    have hindex := h.index
    rw [unread, unread, htotal, hlength, if_pos hremain]
    refine Nat.add_lt_add_left ?_ _
    split <;> omega
  · have hzero : pl.remain = 0 := by omega
    have hget : getLineInBuffer pl = some (pl, none) := if_neg hremain
    simp only [clientReadLine, hget]
    by_cases hend : pl.totalRead ≥ pl.contentLength
    · exact ⟨_, _, _, if_pos hend, h, fun hsome => absurd hsome (by decide)⟩
    · rw [if_neg hend, if_pos (by rw [hzero]; decide)]
      by_cases hchunk : r.chunk = []
      · have hmoved : moveRemain pl = pl := if_neg hremain
        exact ⟨none, pl, [], by simp [chunks, hchunk, hmoved], h,
          fun hsome => absurd hsome (by decide)⟩
      · have hmoved : moveRemain pl = pl := if_neg hremain
        have hpos : 0 < (r.chunk.take MAX_PLAYLIST_LINE_SIZE).length := by
          rw [List.length_take]
          exact Nat.lt_min.2 ⟨by decide, List.length_pos_iff.2 hchunk⟩
        have hlen : (r.chunk.take MAX_PLAYLIST_LINE_SIZE).length ≤
            MAX_PLAYLIST_LINE_SIZE := List.length_take_le ..
        have hread : (receive (moveRemain pl)
            (r.chunk.take MAX_PLAYLIST_LINE_SIZE)).remain > 0 :=
          Nat.add_pos_right _ hpos
        obtain ⟨pl', line, hget', hbuf, htotal, hlength, -⟩ :=
          getLineInBuffer_buffered (receive_buffered h hzero hlen) hread
        refine ⟨some line, pl', [], by simp [chunks, hchunk, hget'], hbuf,
          fun _ => ?_⟩
        rw [hmoved] at htotal hlength
        have htotal' : pl'.totalRead = pl.totalRead +
            (r.chunk.take MAX_PLAYLIST_LINE_SIZE).length := htotal
        have hlength' : pl'.contentLength = pl.contentLength := hlength
        -- At least one byte of the response is gone, and outweighs a buffer.
        obtain ⟨k, hk⟩ : ∃ k, pl.contentLength - pl.totalRead =
            (pl'.contentLength - pl'.totalRead) + (k + 1) :=
          ⟨pl.contentLength - pl.totalRead -
            (pl'.contentLength - pl'.totalRead) - 1, by omega⟩
        have hleft : (if pl'.remain > 0 then
            MAX_PLAYLIST_LINE_SIZE + 1 - pl'.index else 0) ≤
            MAX_PLAYLIST_LINE_SIZE + 1 := by
          split <;> omega
        calc unread pl' ≤ (pl'.contentLength - pl'.totalRead) *
              (MAX_PLAYLIST_LINE_SIZE + 2) + (MAX_PLAYLIST_LINE_SIZE + 1) :=
              Nat.add_le_add_left hleft _
          _ < (pl.contentLength - pl.totalRead) *
              (MAX_PLAYLIST_LINE_SIZE + 2) := by
              rw [hk, Nat.add_mul, Nat.add_mul k 1]
              omega
          _ ≤ unread pl := Nat.le_add_right ..

end Buffer

/-! ## What hooks and requests leave alone -/

/-- What the functions that a hook calls keep of a stream. -/
structure Frame (s t : HttpStream) : Prop where
  streamType : t.streamType = s.streamType
  hook : t.hook = s.hook
  parser : t.enablePlaylistParser = s.enablePlaylistParser
  client : t.client = s.client
  lines : t.playlist.map Playlist.lines = s.playlist.map Playlist.lines
  resolved : t.isPlaylistResolved = true → s.isPlaylistResolved = true
  nullUsed : (s.enablePlaylistParser = true → s.playlist.isSome = true) →
    t.nullUsed = s.nullUsed

section Frames

variable {s t u : HttpStream}

theorem Frame.refl (s : HttpStream) : Frame s s :=
  ⟨rfl, rfl, rfl, rfl, rfl, id, fun _ => rfl⟩

theorem isSome_of_lines
    (h : t.playlist.map Playlist.lines = s.playlist.map Playlist.lines) :
    t.playlist.isSome = s.playlist.isSome := by
  rw [← Option.isSome_map (f := Playlist.lines), h, Option.isSome_map]

theorem Frame.trans (h : Frame s t) (h' : Frame t u) : Frame s u where
  streamType := h'.streamType.trans h.streamType
  hook := h'.hook.trans h.hook
  parser := h'.parser.trans h.parser
  client := h'.client.trans h.client
  lines := h'.lines.trans h.lines
  resolved := fun hu => h.resolved (h'.resolved hu)
  nullUsed := fun hlist => by
    rw [h'.nullUsed ?_, h.nullUsed hlist]
    rw [h.parser, isSome_of_lines h.lines]
    exact hlist

theorem mapTracks_lines (s : HttpStream)
    (f : HttpPlaylist.Playlist → HttpPlaylist.Playlist) :
    (s.mapTracks f).playlist.map Playlist.lines =
      s.playlist.map Playlist.lines := by
  rw [HttpStream.mapTracks, Option.map_map]
  rfl

theorem mapTracks_frame (s : HttpStream)
    (f : HttpPlaylist.Playlist → HttpPlaylist.Playlist) :
    Frame s (s.mapTracks f) :=
  ⟨rfl, rfl, rfl, rfl, mapTracks_lines s f, id, fun _ => rfl⟩

theorem usePlaylist_same (h : s.playlist.isSome = true) :
    s.usePlaylist = s := by
  rw [HttpStream.usePlaylist, Option.isNone_eq_false_iff.2 h, Bool.or_false]

theorem usePlaylist_frame (h : s.enablePlaylistParser = true) :
    Frame s s.usePlaylist :=
  ⟨rfl, rfl, rfl, rfl, rfl, id, fun hlist => by rw [usePlaylist_same (hlist h)]⟩

theorem getNextTrack_frame (s : HttpStream) :
    Frame s s.playlistGetNextTrack.1 := by
  rw [HttpStream.playlistGetNextTrack]
  split
  · rename_i h
    exact usePlaylist_frame (Bool.and_eq_true_iff.1 h).1
  · exact .refl s

theorem nextTrack_frame (s : HttpStream) : Frame s s.nextTrack := by
  have h := getNextTrack_frame s
  rw [HttpStream.nextTrack]
  split
  · rename_i u hfound
    rw [hfound] at h
    exact h
  · rename_i u _ hfound
    rw [hfound] at h
    have hmarked := mapTracks_frame u fun p =>
      (HttpPlaylist.nextTrack ⟨p, true, []⟩).playlist
    exact (h.trans hmarked).trans
      ⟨rfl, rfl, rfl, rfl, rfl, id, fun _ => rfl⟩

theorem call_frame (s : HttpStream) (c : HookCall) : Frame s (s.call c) := by
  cases c with
  | nextTrack => exact nextTrack_frame s
  | restart => exact ⟨rfl, rfl, rfl, rfl, rfl, nofun, fun _ => rfl⟩
  | setUri uri => exact ⟨rfl, rfl, rfl, rfl, rfl, id, fun _ => rfl⟩

theorem calls_frame (calls : List HookCall) (s : HttpStream) :
    Frame s (calls.foldl HttpStream.call s) := by
  induction calls generalizing s with
  | nil => exact .refl s
  | cons c calls ih => exact (call_frame s c).trans (ih _)

theorem dispatchHook_frame (s : HttpStream) (run : HookRun) :
    Frame s (dispatchHook s run).1 := by
  rw [dispatchHook]
  split
  · exact calls_frame run.calls s
  · exact .refl s

theorem dispatchHook_ret (s : HttpStream) (run : HookRun) :
    (dispatchHook s run).2 = hookRet s.hook run := by
  rw [dispatchHook, hookRet]
  split <;> rfl

theorem request_frame (s : HttpStream) (postField : Option Int) (r : Reply) :
    Frame s (request s postField r).1 := by
  have hon := dispatchHook_frame s r.onRequest
  have hpost := dispatchHook_frame (dispatchHook s r.onRequest).1 r.postRequest
  simp only [request]
  split
  · exact .refl s
  · split
    · exact hon
    · split
      · exact hon
      · split
        · exact hon.trans hpost
        · exact hon.trans hpost

theorem request_completes (s : HttpStream) (postField : Option Int)
    (r : Reply) :
    (request s postField r).2 = none ↔ completes s.hook postField r = true := by
  have hhook := (dispatchHook_frame s r.onRequest).hook
  simp only [request, dispatchHook_ret, hhook, completes]
  by_cases hopen : r.clientOpen = ESP_OK
  · by_cases hon : hookRet s.hook r.onRequest < 0
    · simp [hopen, hon, Int.not_le.2 hon]
    · cases hwrite : sendsPost postField (hookRet s.hook r.onRequest) &&
          decide (r.clientWrite ≤ 0) with
      | true => simp [hopen, hon]
      | false =>
          by_cases hpost : hookRet s.hook r.postRequest < 0
          · simp [hopen, hon, hpost]
          · simp [hopen, hon, hpost, Int.not_lt.1]
  · simp [hopen]

end Frames

/-! ## The invariant -/

/-- There is a playlist if and only if playlists are parsed, and only then is
one resolved. -/
structure Inv (s : HttpStream) : Prop where
  parser : s.playlist.isSome = s.enablePlaylistParser
  resolved : s.isPlaylistResolved = true → s.enablePlaylistParser = true
  buffered : ∀ p ∈ s.playlist, Buffered p.lines

/-- While a playlist is read it is there, and none is resolved yet.  Only a
missing playlist makes `_http_open` crash. -/
structure SysInv (s : Sys) : Prop where
  http : Inv s.http
  resolve : ∀ info uri validPlaylist isPlaylistUri,
    s.pc = .resolve info uri validPlaylist isPlaylistUri →
      s.http.enablePlaylistParser = true ∧ s.http.isPlaylistResolved = false
  crashed : s.pc = .crashed → s.http.nullUsed = true

/-- Where the invariant says nothing but that of the stream. -/
def Pc.plain : Pc → Bool
  | .resolve _ _ _ _ => false
  | .crashed => false
  | _ => true

section Steps

variable {s t : HttpStream}

theorem init_inv (config : Config) : Inv (httpStreamInit config) := by
  refine ⟨?_, nofun, ?_⟩
  · simp only [httpStreamInit]
    cases config.enablePlaylistParser <;> rfl
  · intro p hp
    simp only [httpStreamInit, Option.mem_def, Option.ite_none_right_eq_some,
      Option.some.injEq] at hp
    rw [← hp.2]
    exact ⟨rfl, rfl, Nat.zero_le _⟩

theorem Inv.frame (h : Inv s) (hf : Frame s t) : Inv t where
  parser := by rw [isSome_of_lines hf.lines, hf.parser, h.parser]
  resolved := fun ht => hf.parser.trans (h.resolved (hf.resolved ht))
  buffered := fun p hp => by
    have hlines := hf.lines
    rw [Option.mem_def.1 hp, Option.map_some, eq_comm,
      Option.map_eq_some_iff] at hlines
    obtain ⟨q, hq, hsame⟩ := hlines
    exact hsame ▸ h.buffered q hq

theorem Inv.nullUsed (h : Inv s) (hf : Frame s t) : t.nullUsed = s.nullUsed :=
  hf.nullUsed fun hparser => h.parser.trans hparser

/-- The stream is as good as before, and its playlist was not missed. -/
structure Goes (s : HttpStream) (t : Sys) : Prop where
  inv : SysInv t
  nullUsed : t.http.nullUsed = s.nullUsed

theorem Inv.plain (h : Inv s) {pc : Pc} (hpc : pc.plain = true) :
    SysInv ⟨s, pc⟩ := by
  refine ⟨h, fun info uri v i hres => ?_, fun hcrash => ?_⟩
  · have hres' : pc = .resolve info uri v i := hres
    rw [hres'] at hpc
    contradiction
  · have hcrash' : pc = .crashed := hcrash
    rw [hcrash'] at hpc
    contradiction

theorem Inv.goes (h : Inv s) (hf : Frame s t) {pc : Pc}
    (hpc : pc.plain = true) : Goes s ⟨t, pc⟩ :=
  ⟨(h.frame hf).plain hpc, h.nullUsed hf⟩

theorem Goes.of_frame {u : Sys} (h : Inv s) (hf : Frame s t) (hu : Goes t u) :
    Goes s u :=
  ⟨hu.inv, hu.nullUsed.trans (h.nullUsed hf)⟩

theorem playlistClear_frame (h : Inv s) (hparser : s.enablePlaylistParser) :
    Frame s s.playlistClear.restart := by
  rw [HttpStream.playlistClear, usePlaylist_same (h.parser.trans hparser)]
  exact (mapTracks_frame s _).trans (call_frame _ .restart)

theorem opened_goes (h : Inv s) : Goes s (opened s) := by
  have hf : Frame s { s with isOpen := true } :=
    ⟨rfl, rfl, rfl, rfl, rfl, id, fun _ => rfl⟩
  exact ⟨(h.frame hf).plain rfl, rfl⟩

/-- `_resolve_playlist` misses its playlist exactly if one is to be parsed and
none can be. -/
theorem resolvePlaylist_spec (h : Inv s) (info : Info) (uri : Line) :
    SysInv (resolvePlaylist s info uri) ∧
      ((resolvePlaylist s info uri).http.nullUsed = false ↔
        s.nullUsed = false ∧
          (isPlaylist s.info uri = true → s.enablePlaylistParser = true)) := by
  have hopened : ∀ p : Prop, p → SysInv (opened s) ∧
      ((opened s).http.nullUsed = false ↔ s.nullUsed = false ∧ p) :=
    fun p hp => ⟨(opened_goes h).inv, (and_iff_left hp).symm⟩
  rw [resolvePlaylist]
  cases hlist : isPlaylist s.info uri with
  | false => exact hopened _ nofun
  | true =>
      rw [Bool.not_true, if_neg (by decide)]
      by_cases hres : s.isPlaylistResolved = true
      · rw [if_pos hres]
        exact hopened _ fun _ => h.resolved hres
      · rw [if_neg hres]
        have hparser := h.parser
        cases hp : s.playlist with
        | none =>
            rw [hp] at hparser
            have hnull : s.usePlaylist.nullUsed = true := by
              simp [HttpStream.usePlaylist, hp]
            refine ⟨⟨⟨h.parser, h.resolved, h.buffered⟩, nofun,
              fun _ => hnull⟩, ?_⟩
            simp [hnull, ← hparser]
        | some p =>
            rw [hp] at hparser
            have hbuf := h.buffered p hp
            refine ⟨⟨⟨hparser, h.resolved, ?_⟩, ?_, nofun⟩, ?_⟩
            · intro q hq
              rw [← Option.some.inj hq]
              exact ⟨hbuf.size, hbuf.nul, Nat.zero_le _⟩
            · intro _ _ _ _ _
              exact ⟨hparser.symm, Bool.eq_false_iff.2 hres⟩
            · exact (and_iff_left fun _ => hparser.symm).symm

theorem openRedirect_spec (h : Inv s) (info : Info) (uri : Line)
    (postField : Option Int) (r : Reply) :
    SysInv (openRedirect s info uri postField r) ∧
      ((openRedirect s info uri postField r).http.nullUsed = false ↔
        s.nullUsed = false ∧
          Parsed ⟨s, .redirect info uri postField⟩ (.reply r)) := by
  have hf := request_frame s postField r
  have hcompletes := request_completes s postField r
  have hu := h.frame hf
  rw [openRedirect]
  cases hreq : request s postField r with
  | mk u err =>
      rw [hreq] at hf hcompletes hu
      have hsame := h.nullUsed hf
      -- What is no playlist keeps the stream as good as it was.
      have hgoes : ∀ t : Sys, Goes u t →
          playlistArrives ⟨s, .redirect info uri postField⟩ r = false ∨
            u.enablePlaylistParser = true →
          SysInv t ∧ (t.http.nullUsed = false ↔ s.nullUsed = false ∧
            Parsed ⟨s, .redirect info uri postField⟩ (.reply r)) := by
        intro t ht hno
        refine ⟨ht.inv, ?_⟩
        rw [ht.nullUsed, hsame]
        refine (and_iff_left fun harrives => ?_).symm
        rcases hno with hno | hparser
        · rw [hno] at harrives
          contradiction
        · exact hf.parser ▸ hparser
      cases err with
      | some err =>
          refine hgoes _ (hu.goes (.refl u) rfl) (.inl ?_)
          have : completes s.hook postField r = false := by simpa using hcompletes
          simp [playlistArrives, this]
      | none =>
          have hdone : completes s.hook postField r = true := hcompletes.1 rfl
          dsimp only
          cases hredirect : isRedirection r.statusCode with
          | true =>
              refine hgoes _ (hu.goes (.refl u) rfl) (.inl ?_)
              simp [playlistArrives, hredirect]
          | false =>
              rw [if_neg (by decide)]
              by_cases hclear : (!isSuccess r.statusCode &&
                  u.enablePlaylistParser) = true
              · rw [if_pos hclear]
                have hparser := (Bool.and_eq_true_iff.1 hclear).2
                exact hgoes _ (hu.goes (playlistClear_frame hu hparser) rfl)
                  (.inr hparser)
              · rw [if_neg hclear]
                have hset : Frame u { u with
                    info := fetchHeaders info u.client r } :=
                  ⟨rfl, rfl, rfl, rfl, rfl, id, fun _ => rfl⟩
                have hspec := resolvePlaylist_spec (hu.frame hset)
                  (fetchHeaders info u.client r) uri
                refine ⟨hspec.1, hspec.2.trans ?_⟩
                rw [show ({ u with info := fetchHeaders info u.client r } :
                  HttpStream).nullUsed = s.nullUsed from hsame]
                have hclient : u.client = s.client := hf.client
                have hparser : u.enablePlaylistParser =
                  s.enablePlaylistParser := hf.parser
                refine and_congr_right fun _ => ?_
                simp [Parsed, playlistArrives, hdone, hredirect, hclient,
                  hparser]

theorem initClient_frame {r : Reply} (h : initClient s r = some t) :
    Inv s → Inv t ∧ t.nullUsed = s.nullUsed := by
  intro hs
  rw [initClient] at h
  split at h
  · obtain rfl := Option.some.inj h
    exact ⟨hs, rfl⟩
  · obtain ⟨-, h⟩ := Option.ite_none_right_eq_some.1 h
    obtain rfl := Option.some.inj h
    exact ⟨⟨hs.parser, hs.resolved, hs.buffered⟩, rfl⟩

theorem openUri_goes (h : Inv s) (info : Info) (uri : Option Line)
    (r : Reply) : Goes s (openUri s info uri r) := by
  cases uri with
  | none => exact h.goes (.refl s) rfl
  | some uri =>
      simp only [openUri]
      cases hinit : initClient s r with
      | none => exact h.goes (.refl s) rfl
      | some u =>
          obtain ⟨hu, hsame⟩ := initClient_frame hinit h
          have hf := dispatchHook_frame u r.preRequest
          have hgoes : ∀ {v : HttpStream} {pc : Pc}, Frame u v →
              pc.plain = true → Goes s ⟨v, pc⟩ := by
            intro v pc hv hpc
            have hv' := hu.goes hv hpc
            exact ⟨hv'.inv, hv'.nullUsed.trans hsame⟩
          dsimp only
          split
          · exact hgoes hf rfl
          · split
            · exact hgoes (hf.trans
                ⟨rfl, rfl, rfl, rfl, rfl, id, fun _ => rfl⟩) rfl
            · exact hgoes hf rfl

theorem openBegin_goes (h : Inv s) (info : Info) (r : Reply) :
    Goes s (openBegin s info r) := by
  have hf := getNextTrack_frame s
  rw [openBegin]
  cases hnext : s.playlistGetNextTrack with
  | mk u track =>
      rw [hnext] at hf
      have hu := h.frame hf
      cases track with
      | some track => exact (openUri_goes hu info _ r).of_frame h hf
      | none =>
          have hhook := hf.trans (dispatchHook_frame u r.finishPlaylist)
          dsimp only
          split
          · split
            · exact h.goes hhook rfl
            · exact h.goes hhook rfl
          · exact (openUri_goes hu info _ r).of_frame h hf

theorem mapTracks_id (s : HttpStream) : s.mapTracks id = s := by
  have hsame : s.playlist.map (fun p => { p with tracks := id p.tracks }) =
      s.playlist := by
    cases s.playlist <;> rfl
  rw [HttpStream.mapTracks, hsame]

/-- A line is inserted or passed over, or ends the loop. -/
theorem resolveLine_cases (s : HttpStream) (info : Info) (uri : Line)
    (validPlaylist isPlaylistUri : Bool) (line : Line) (mem : Mem) :
    (∃ f v i, resolveLine s info uri validPlaylist isPlaylistUri line mem =
      ⟨s.mapTracks f, .resolve info uri v i⟩) ∨
    resolveLine s info uri validPlaylist isPlaylistUri line mem =
      resolved s info validPlaylist := by
  have hpass : ∀ v i, ∃ f v' i',
      (⟨s, .resolve info uri v i⟩ : Sys) =
        ⟨s.mapTracks f, .resolve info uri v' i'⟩ :=
    fun v i => ⟨id, v, i, by rw [mapTracks_id]⟩
  simp only [resolveLine]
  split
  · exact .inl (hpass ..)
  · split
    · exact .inl ⟨_, _, _, rfl⟩
    · split
      · exact .inr rfl
      · split
        · exact .inl (hpass ..)
        · split
          · exact .inl (hpass ..)
          · split
            · exact .inl (hpass ..)
            · split
              · exact .inl (hpass ..)
              · exact .inl ⟨_, _, _, rfl⟩

theorem resolved_goes (h : Inv s) (hparser : s.enablePlaylistParser = true)
    (info : Info) (validPlaylist : Bool) :
    Goes s (resolved s info validPlaylist) := by
  cases validPlaylist with
  | true =>
      have hres : Inv { s with isPlaylistResolved := true } :=
        ⟨h.parser, fun _ => hparser, h.buffered⟩
      exact ⟨hres.plain rfl, rfl⟩
  | false => exact opened_goes h

/-- The loop stays in the buffer, and goes on with less to read or ends. -/
theorem openResolve_cases (h : Inv s) (hparser : s.enablePlaylistParser = true)
    (info : Info) (uri : Line) (validPlaylist isPlaylistUri : Bool)
    (r : Reply) : ∃ p lines, s.playlist = some p ∧ Buffered lines ∧
      ((∃ (f : HttpPlaylist.Playlist → HttpPlaylist.Playlist) (v i : Bool),
        unread lines < unread p.lines ∧
        openResolve s info uri validPlaylist isPlaylistUri r =
          ⟨{ s with playlist := some ⟨f p.tracks, lines⟩ },
            .resolve info uri v i⟩) ∨
        openResolve s info uri validPlaylist isPlaylistUri r =
          resolved { s with playlist := some ⟨p.tracks, lines⟩ } info
            validPlaylist) := by
  obtain ⟨p, hp⟩ := Option.isSome_iff_exists.1 (h.parser.trans hparser)
  obtain ⟨line, lines, rest, hread, hbuf, hless⟩ :=
    clientReadLine_buffered (h.buffered p hp) r
  refine ⟨p, lines, hp, hbuf, ?_⟩
  simp only [openResolve, hp, hread]
  cases line with
  | none => exact .inr rfl
  | some line =>
      refine (resolveLine_cases { s with playlist := some ⟨p.tracks, lines⟩ }
        info uri validPlaylist isPlaylistUri line r.mem).imp ?_ id
      rintro ⟨f, v, i, heq⟩
      exact ⟨f, v, i, hless rfl, heq⟩

theorem openResolve_goes (h : Inv s) (hparser : s.enablePlaylistParser = true)
    (hres : s.isPlaylistResolved = false) (info : Info) (uri : Line)
    (validPlaylist isPlaylistUri : Bool) (r : Reply) :
    Goes s (openResolve s info uri validPlaylist isPlaylistUri r) := by
  obtain ⟨p, lines, hp, hbuf, hcases⟩ :=
    openResolve_cases h hparser info uri validPlaylist isPlaylistUri r
  have hread : ∀ tracks,
      Inv { s with playlist := some ⟨tracks, lines⟩ } := fun tracks =>
    ⟨hparser.symm, h.resolved, fun q hq => Option.some.inj hq ▸ hbuf⟩
  rcases hcases with ⟨f, v, i, -, heq⟩ | heq
  · rw [heq]
    exact ⟨⟨hread _, fun _ _ _ _ _ => ⟨hparser, hres⟩, nofun⟩, rfl⟩
  · rw [heq]
    have hgoes := resolved_goes (hread p.tracks) hparser info validPlaylist
    exact ⟨hgoes.inv, hgoes.nullUsed⟩

end Steps

/-! ## The result -/

theorem openStep_spec {s : Sys} (h : SysInv s) (r : Reply) :
    SysInv (openStep s r) ∧ ((openStep s r).http.nullUsed = false ↔
      s.http.nullUsed = false ∧ Parsed s (.reply r)) := by
  have hgoes : ∀ t : Sys, Goes s.http t → playlistArrives s r = false →
      SysInv t ∧ (t.http.nullUsed = false ↔
        s.http.nullUsed = false ∧ Parsed s (.reply r)) := by
    intro t ht hno
    refine ⟨ht.inv, ?_⟩
    rw [ht.nullUsed]
    exact (and_iff_left fun harrives => by
      rw [hno] at harrives; contradiction).symm
  obtain ⟨http, pc⟩ := s
  cases pc with
  | begin info => exact hgoes _ (openBegin_goes h.http info r) rfl
  | redirect info uri postField =>
      exact openRedirect_spec h.http info uri postField r
  | resolve info uri validPlaylist isPlaylistUri =>
      obtain ⟨hparser, hres⟩ := h.resolve _ _ _ _ rfl
      exact hgoes _ (openResolve_goes h.http hparser hres info uri
        validPlaylist isPlaylistUri r) rfl
  | returned err => exact hgoes _ ⟨h, rfl⟩ rfl
  | crashed => exact hgoes _ ⟨h, rfl⟩ rfl

theorem httpClose_goes {s : HttpStream} (h : Inv s)
    (postRequest finishRequest : HookRun) :
    Goes s ⟨httpClose s postRequest finishRequest, .returned ESP_OK⟩ := by
  have hclosed : Frame s { s with isOpen := false } :=
    ⟨rfl, rfl, rfl, rfl, rfl, id, fun _ => rfl⟩
  have hpost := dispatchHook_frame { s with isOpen := false } postRequest
  have hfinish := dispatchHook_frame
    (dispatchHook { s with isOpen := false } postRequest).1 finishRequest
  have hclear : ∀ t : HttpStream, Frame s t → Goes s ⟨{ (if
      t.enablePlaylistParser then t.playlistClear.restart else t) with
      client := none }, .returned ESP_OK⟩ := by
    intro t ht
    have hframe : Frame s (if t.enablePlaylistParser then
        t.playlistClear.restart else t) := by
      split
      · rename_i hparser
        exact ht.trans (playlistClear_frame (h.frame ht) hparser)
      · exact ht
    have hinv := h.frame hframe
    have hsame := h.nullUsed hframe
    refine ⟨Inv.plain ?_ rfl, hsame⟩
    exact ⟨hinv.parser, hinv.resolved, hinv.buffered⟩
  refine hclear _ ?_
  split
  · dsimp only
    split
    · exact hclosed.trans hpost
    · exact (hclosed.trans hpost).trans hfinish
  · exact hclosed

theorem httpOpen_goes {s : HttpStream} (h : Inv s) : Goes s (httpOpen s) := by
  rw [httpOpen]
  split
  · exact h.goes (.refl _) rfl
  · refine ⟨Inv.plain ?_ rfl, rfl⟩
    exact ⟨h.parser, h.resolved, h.buffered⟩

theorem move_spec {s t : Sys} {a : Act} (h : SysInv s)
    (hs : httpMachine.step s a = some t) :
    SysInv t ∧ (t.http.nullUsed = false ↔
      s.http.nullUsed = false ∧ Parsed s a) := by
  have hgoes : ∀ t : Sys, Goes s.http t → SysInv t ∧
      (t.http.nullUsed = false ↔ s.http.nullUsed = false ∧ True) :=
    fun t ht => ⟨ht.inv, by rw [ht.nullUsed, and_true]⟩
  have hmoved : move s a = some t := hs
  cases a with
  | reply r =>
      obtain ⟨-, rfl⟩ := (Option.ite_none_left_eq_some.1 hmoved).imp_right
        Option.some.inj
      exact openStep_spec h r
  | setInfo info =>
      obtain ⟨hrest, rfl⟩ := (Option.ite_none_right_eq_some.1 hmoved).imp_right
        Option.some.inj
      exact hgoes _ ⟨⟨⟨h.http.parser, h.http.resolved, h.http.buffered⟩,
        h.resolve, h.crashed⟩, rfl⟩
  | «open» =>
      obtain ⟨-, rfl⟩ := (Option.ite_none_right_eq_some.1 hmoved).imp_right
        Option.some.inj
      exact hgoes _ (httpOpen_goes h.http)
  | close postRequest finishRequest =>
      obtain ⟨-, rfl⟩ := (Option.ite_none_right_eq_some.1 hmoved).imp_right
        Option.some.inj
      exact hgoes _ (httpClose_goes h.http postRequest finishRequest)
  | call c =>
      obtain ⟨hrest, rfl⟩ := (Option.ite_none_right_eq_some.1 hmoved).imp_right
        Option.some.inj
      have hplain : s.pc.plain = true := by
        cases hpc : s.pc <;> simp_all [Pc.atRest, Pc.plain]
      exact hgoes _ (h.http.goes (call_frame s.http c) hplain)

theorem start_inv (config : Config) : SysInv (start config) :=
  (init_inv config).plain rfl

theorem run_spec {config : Config} {as : List Act} {s : Sys}
    (h : httpMachine.run (start config) as = some s) : SysInv s ∧
      (s.http.nullUsed = false ↔
        httpMachine.Meets Parsed (start config) as) := by
  refine Machine.run_induction (M := httpMachine)
    (P := fun as s => SysInv s ∧ (s.http.nullUsed = false ↔
      httpMachine.Meets Parsed (start config) as))
    ⟨start_inv config, iff_of_true rfl trivial⟩ ?_ h
  intro as u a v hu ih hv
  obtain ⟨hv', hiff⟩ := move_spec ih.1 hv
  exact ⟨hv', by rw [Machine.meets_concat hu, ← ih.2, hiff]⟩

/-- **A missing playlist** is used in a run of the stream, whatever is
configured and answered, exactly if a response that looks like a playlist comes
when playlists are not parsed. -/
theorem open_playlist_iff {config : Config} {as : List Act} {s : Sys}
    (h : httpMachine.run (start config) as = some s) :
    s.http.nullUsed = false ↔ httpMachine.Meets Parsed (start config) as :=
  (run_spec h).2

/-- A hook that does nothing. -/
def quiet : HookRun := ⟨[], ESP_OK⟩

/-- A response without a body. -/
def response (statusCode : Int) (contentType : Line) : Reply where
  finishPlaylist := quiet
  preRequest := quiet
  onRequest := quiet
  postRequest := quiet
  clientInit := true
  postField := none
  clientOpen := ESP_OK
  clientWrite := 0
  totalBytes := 0
  statusCode := statusCode
  contentType := some contentType
  sameInfo := false
  chunk := []
  mem := .ok

/-- The URI is set, and the stream is opened. -/
def openUriWith (r : Reply) : List Act :=
  [.setInfo ⟨0, some (ascii "http://a/b"), .none⟩, .open, .reply r, .reply r]

/-- Playlists are parsed, and a playlist comes. -/
theorem open_playlist_parsed : ∃ s, httpMachine.run (start ⟨.reader, false, true⟩)
      (openUriWith (response 200 (ascii "application/vnd.apple.mpegurl"))) =
        some s ∧
    s.pc = .resolve ⟨0, some (ascii "http://a/b"), .playlist⟩
      (ascii "http://a/b") false false ∧ s.http.nullUsed = false := by
  have hrun : (httpMachine.runIf Parsed (start ⟨.reader, false, true⟩)
      (openUriWith (response 200 (ascii "application/vnd.apple.mpegurl")))).map
        Sys.pc = some (.resolve ⟨0, some (ascii "http://a/b"), .playlist⟩
          (ascii "http://a/b") false false) := by decide +kernel
  obtain ⟨s, hs, hpc⟩ := Option.map_eq_some_iff.1 hrun
  obtain ⟨hs, hmeets⟩ := Machine.meets_of_runIf hs
  exact ⟨s, hs, hpc, (open_playlist_iff hs).2 hmeets⟩

/-- The default configuration does not parse playlists. -/
theorem open_playlist_missing :
    ∃ s, httpMachine.run (start ⟨.reader, false, false⟩)
      (openUriWith (response 200 (ascii "application/vnd.apple.mpegurl"))) =
        some s ∧ s.http.nullUsed = true := by
  have hrun : (httpMachine.run (start ⟨.reader, false, false⟩)
      (openUriWith (response 200 (ascii "application/vnd.apple.mpegurl")))).map
        (fun s => s.http.nullUsed) = some true := by decide +kernel
  exact Option.map_eq_some_iff.1 hrun

end EspAdf.Ports.HttpOpen
