import EspAdf.Ports.HttpOpen

/-!
# `http_stream.c`: when opening returns

`_http_open` goes back to `_stream_redirect` after a redirection, and to
`_stream_open_begin` after it has read a playlist and after a call of the hook
with `HTTP_STREAM_FINISH_PLAYLIST`.  No counter limits this: the server can
redirect for ever, and a hook that answers `ESP_OK` has the playlist of a live
stream fetched until there is a new track.

A playlist is not read while another one is resolved.  So only
`http_stream_restart` lets a second one be read, and `open_returns` proves that
nothing else keeps `_http_open` going: after the last of these events it makes
at most two more requests, one for a playlist and one for its first track.
-/

namespace EspAdf.Ports.HttpOpen

open EspAdf.Verified
open EspAdf.Ports.HttpPlaylistLines (Line)

/-! ## Runs -/

/-- `_http_open` after `n` replies. -/
def openRun (s : Sys) (replies : Nat → Reply) : Nat → Sys
  | 0 => s
  | n + 1 => openStep (openRun s replies n) (replies n)

/-- A request is made. -/
def Pc.requests : Pc → Bool
  | .redirect _ _ _ => true
  | _ => false

/-- How many requests the replies from `n` on make, in `k` steps. -/
def requestCount (s : Sys) (replies : Nat → Reply) (n : Nat) : Nat → Nat
  | 0 => 0
  | k + 1 => requestCount s replies n k +
      if (openRun s replies (n + k)).pc.requests then 1 else 0

/-- The hook calls `http_stream_restart`. -/
def restarts (hook : Bool) (run : HookRun) : Bool :=
  hook && decide (HookCall.restart ∈ run.calls)

/-- The playlist is resolved and all its tracks are played. -/
def finishes (s : HttpStream) : Bool :=
  s.enablePlaylistParser && s.isPlaylistResolved &&
    s.playlistGetNextTrack.2.isNone

/-- What makes `_http_open` begin again: a hook that answers
`HTTP_STREAM_FINISH_PLAYLIST` with `ESP_OK` or restarts the playlist, and a
redirection. -/
def again (s : Sys) (r : Reply) : Bool :=
  match s.pc with
  | .begin _ =>
      finishes s.http &&
          decide (hookRet s.http.hook r.finishPlaylist = ESP_OK) ||
        restarts s.http.hook r.preRequest
  | .redirect _ _ postField =>
      completes s.http.hook postField r && isRedirection r.statusCode ||
        restarts s.http.hook r.onRequest || restarts s.http.hook r.postRequest
  | _ => false

/-! ## What is left to do -/

/-- The stages of a call, counted from its end. -/
def stage (s : Sys) : Nat :=
  match s.pc with
  | .begin _ => if s.http.isPlaylistResolved then 2 else 5
  | .redirect _ _ _ => if s.http.isPlaylistResolved then 1 else 4
  | .resolve _ _ _ _ => 3
  | _ => 0

/-- The requests that the stages from here on make. -/
def budget (s : Sys) : Nat := (stage s + 2) / 3

/-- What is left to read of a playlist. -/
def left (s : Sys) : Nat :=
  match s.http.playlist with
  | some p => unread p.lines
  | none => 0

/-- A step gets on: to a later stage, or in the playlist that it reads. -/
def Advances (s t : Sys) : Prop :=
  stage t < stage s ∨
    s.pc.requests = false ∧ stage t = stage s ∧ left t < left s

section Steps

variable {s t : HttpStream}

theorem nextTrack_resolved (s : HttpStream) :
    s.nextTrack.isPlaylistResolved = s.isPlaylistResolved := by
  have hnext : s.playlistGetNextTrack.1.isPlaylistResolved =
      s.isPlaylistResolved := by
    rw [HttpStream.playlistGetNextTrack]
    split <;> rfl
  rw [HttpStream.nextTrack]
  split
  · rename_i u hfound
    rw [hfound] at hnext
    exact hnext
  · rename_i u _ hfound
    rw [hfound] at hnext
    exact hnext

/-- Without a restart a playlist stays resolved. -/
theorem dispatchHook_resolved (s : HttpStream) {run : HookRun}
    (h : restarts s.hook run = false) :
    (dispatchHook s run).1.isPlaylistResolved = s.isPlaylistResolved := by
  rw [dispatchHook]
  cases hhook : s.hook with
  | false => rfl
  | true =>
      have hcalls : HookCall.restart ∉ run.calls := by
        simpa [restarts, hhook] using h
      rw [if_pos rfl]
      clear h hhook
      generalize run.calls = calls at hcalls
      induction calls generalizing s with
      | nil => rfl
      | cons c calls ih =>
          rw [List.mem_cons, not_or] at hcalls
          refine (ih _ hcalls.2).trans ?_
          cases c with
          | nextTrack => exact nextTrack_resolved s
          | restart => exact absurd rfl hcalls.1
          | setUri uri => rfl

theorem request_resolved (s : HttpStream) (postField : Option Int) {r : Reply}
    (hon : restarts s.hook r.onRequest = false)
    (hpost : restarts s.hook r.postRequest = false) :
    (request s postField r).1.isPlaylistResolved = s.isPlaylistResolved := by
  have hhook := (dispatchHook_frame s r.onRequest).hook
  rw [← hhook] at hpost
  have h1 := dispatchHook_resolved s hon
  have h2 := dispatchHook_resolved (dispatchHook s r.onRequest).1 hpost
  simp only [request]
  split
  · rfl
  · split
    · exact h1
    · split
      · exact h1
      · split
        · exact h2.trans h1
        · exact h2.trans h1

theorem getNextTrack_resolved (s : HttpStream) :
    s.playlistGetNextTrack.1.isPlaylistResolved = s.isPlaylistResolved := by
  rw [HttpStream.playlistGetNextTrack]
  split <;> rfl

theorem initClient_resolved {r : Reply} (h : initClient s r = some t) :
    t.isPlaylistResolved = s.isPlaylistResolved ∧ t.hook = s.hook := by
  rw [initClient] at h
  split at h
  · exact Option.some.inj h ▸ ⟨rfl, rfl⟩
  · exact Option.some.inj (Option.ite_none_right_eq_some.1 h).2 ▸ ⟨rfl, rfl⟩

theorem openUri_stage (s : HttpStream) (info : Info) (uri : Option Line)
    {r : Reply} (h : restarts s.hook r.preRequest = false) :
    stage (openUri s info uri r) ≤ if s.isPlaylistResolved then 1 else 4 := by
  cases uri with
  | none => exact Nat.zero_le _
  | some uri =>
      simp only [openUri]
      cases hinit : initClient s r with
      | none => exact Nat.zero_le _
      | some u =>
          obtain ⟨hres, hhook⟩ := initClient_resolved hinit
          rw [← hhook] at h
          have hkept := dispatchHook_resolved u h
          dsimp only
          split
          · exact Nat.zero_le _
          · split
            · exact Nat.zero_le _
            · rw [stage, hkept, hres]

theorem openBegin_stage (info : Info) {r : Reply}
    (hno : again ⟨s, .begin info⟩ r = false) :
    stage (openBegin s info r) < stage ⟨s, .begin info⟩ := by
  obtain ⟨hfinish, hrestart⟩ := Bool.or_eq_false_iff.1 hno
  have hf := getNextTrack_frame s
  have hres := getNextTrack_resolved s
  have hbegin : ∀ uri, stage (openUri s.playlistGetNextTrack.1 info uri r) <
      stage ⟨s, .begin info⟩ := by
    intro uri
    have hstage := openUri_stage s.playlistGetNextTrack.1 info uri
      (by rw [hf.hook]; exact hrestart)
    rw [hres] at hstage
    refine Nat.lt_of_le_of_lt hstage ?_
    show _ < if s.isPlaylistResolved then 2 else 5
    split <;> omega
  rw [openBegin]
  cases hnext : s.playlistGetNextTrack with
  | mk u track =>
      rw [hnext] at hf hres hbegin
      cases track with
      | some track => exact hbegin _
      | none =>
          dsimp only
          split
          · rename_i hplayed
            have hret : hookRet s.hook r.finishPlaylist ≠ ESP_OK := by
              have hparser : u.enablePlaylistParser = s.enablePlaylistParser :=
                hf.parser
              have hres' : u.isPlaylistResolved = s.isPlaylistResolved := hres
              rw [hparser, hres'] at hplayed
              simp_all [finishes]
            have hhook : u.hook = s.hook := hf.hook
            rw [dispatchHook_ret, hhook, if_pos hret]
            show 0 < if s.isPlaylistResolved then 2 else 5
            split <;> omega
          · exact hbegin _

theorem resolvePlaylist_stage (s : HttpStream) (info : Info) (uri : Line) :
    stage (resolvePlaylist s info uri) ≤
      if s.isPlaylistResolved then 0 else 3 := by
  rw [resolvePlaylist]
  split
  · exact Nat.zero_le _
  · split
    · exact Nat.zero_le _
    · split
      · exact Nat.zero_le _
      · exact Nat.le_refl 3

theorem openRedirect_stage (info : Info) (uri : Line) (postField : Option Int)
    {r : Reply} (hno : again ⟨s, .redirect info uri postField⟩ r = false) :
    stage (openRedirect s info uri postField r) <
      stage ⟨s, .redirect info uri postField⟩ := by
  obtain ⟨hno, hpost⟩ := Bool.or_eq_false_iff.1 hno
  obtain ⟨hredirect, hon⟩ := Bool.or_eq_false_iff.1 hno
  have hres := request_resolved s postField hon hpost
  have hcompletes := request_completes s postField r
  have hpos : 0 < stage ⟨s, .redirect info uri postField⟩ := by
    show 0 < if s.isPlaylistResolved then 1 else 4
    split <;> omega
  rw [openRedirect]
  cases hreq : request s postField r with
  | mk u err =>
      rw [hreq] at hres hcompletes
      cases err with
      | some err => exact hpos
      | none =>
          have hdone : completes s.hook postField r = true := hcompletes.1 rfl
          have hstays : isRedirection r.statusCode = false := by
            simpa [hdone] using hredirect
          dsimp only
          rw [hstays, if_neg (by decide)]
          split
          · exact hpos
          · refine Nat.lt_of_le_of_lt (resolvePlaylist_stage ..) ?_
            have hres' : u.isPlaylistResolved = s.isPlaylistResolved := hres
            rw [hres']
            show _ < if s.isPlaylistResolved then 1 else 4
            split <;> omega

end Steps

/-- Each step that does not begin again gets on. -/
theorem openStep_advances {s : Sys} (h : SysInv s) {r : Reply}
    (hrun : s.pc.atRest = false) (hpc : s.pc ≠ .crashed)
    (hno : again s r = false) : Advances s (openStep s r) := by
  obtain ⟨http, pc⟩ := s
  cases pc with
  | begin info => exact .inl (openBegin_stage info hno)
  | redirect info uri postField =>
      exact .inl (openRedirect_stage info uri postField hno)
  | resolve info uri validPlaylist isPlaylistUri =>
      obtain ⟨hparser, -⟩ := h.resolve _ _ _ _ rfl
      obtain ⟨p, lines, hp, -, hcases⟩ := openResolve_cases h.http hparser info
        uri validPlaylist isPlaylistUri r
      have hp : http.playlist = some p := hp
      simp only [openStep]
      rcases hcases with ⟨f, v, i, hless, heq⟩ | heq
      · rw [heq]
        refine .inr ⟨rfl, rfl, ?_⟩
        simp only [left, hp]
        exact hless
      · rw [heq]
        refine .inl ?_
        cases validPlaylist with
        | true => exact (by decide : 2 < 3)
        | false => exact (by decide : 0 < 3)
  | returned err => contradiction
  | crashed => contradiction

theorem stage_of_requests {s : Sys} (h : s.pc.requests = true) :
    stage s = 1 ∨ stage s = 4 := by
  obtain ⟨http, pc⟩ := s
  cases pc with
  | redirect info uri postField =>
      simp only [stage]
      split <;> simp
  | _ => contradiction

/-- A request that does not begin again is one less to make. -/
theorem Advances.budget {s t : Sys} (h : Advances s t) :
    budget t + (if s.pc.requests then 1 else 0) ≤ budget s := by
  simp only [HttpOpen.budget]
  rcases h with h | ⟨hno, heq, -⟩
  · by_cases hreq : s.pc.requests = true
    · have := stage_of_requests hreq
      rw [if_pos hreq]
      omega
    · rw [if_neg hreq]
      omega
  · rw [hno, heq]
    exact Nat.le_refl _

/-- The stages in turn, and what is left in one. -/
def rank (s : Sys) : ℕ ×ₗ ℕ := toLex (stage s, left s)

theorem Advances.rank {s t : Sys} (h : Advances s t) : rank t < rank s := by
  rw [HttpOpen.rank, HttpOpen.rank, Prod.Lex.toLex_lt_toLex]
  exact h.imp_right And.right

theorem budget_le (s : Sys) : budget s ≤ 2 := by
  have hstage : stage s ≤ 5 := by
    simp only [stage]
    split
    · split <;> omega
    · split <;> omega
    · omega
    · omega
  simp only [budget]
  omega

section Runs

variable {s : Sys} {replies : Nat → Reply}

theorem openRun_inv (h : SysInv s) (hused : s.http.nullUsed = false)
    (hparsed : ∀ n, Parsed (openRun s replies n) (.reply (replies n)))
    (n : Nat) : SysInv (openRun s replies n) ∧
      (openRun s replies n).pc ≠ .crashed := by
  have hrun : SysInv (openRun s replies n) ∧
      (openRun s replies n).http.nullUsed = false := by
    induction n with
    | zero => exact ⟨h, hused⟩
    | succ n ih =>
        obtain ⟨hinv, hiff⟩ := openStep_spec ih.1 (replies n)
        exact ⟨hinv, hiff.2 ⟨ih.2, hparsed n⟩⟩
  refine ⟨hrun.1, fun hcrash => ?_⟩
  have hyes := hrun.1.crashed hcrash
  rw [hrun.2] at hyes
  contradiction

/-- From `n` on nothing begins again. -/
def Settled (s : Sys) (replies : Nat → Reply) (n : Nat) : Prop :=
  ∀ m ≥ n, again (openRun s replies m) (replies m) = false

theorem openStep_atRest (h : s.pc.atRest = true) (r : Reply) :
    openStep s r = s := by
  obtain ⟨http, pc⟩ := s
  cases pc with
  | returned err => rfl
  | _ => contradiction

theorem returned_of_atRest (h : s.pc.atRest = true) :
    ∃ err, s.pc = .returned err := by
  cases hpc : s.pc with
  | returned err => exact ⟨err, rfl⟩
  | _ =>
      rw [hpc] at h
      contradiction

theorem requestCount_budget {n : Nat} (hsettled : Settled s replies n)
    (hinv : ∀ m, SysInv (openRun s replies m) ∧
      (openRun s replies m).pc ≠ .crashed) (k : Nat) :
    requestCount s replies n k + budget (openRun s replies (n + k)) ≤
      budget (openRun s replies n) := by
  induction k with
  | zero => exact Nat.le_of_eq (Nat.zero_add _)
  | succ k ih =>
      have hstep : budget (openRun s replies (n + k + 1)) +
          (if (openRun s replies (n + k)).pc.requests then 1 else 0) ≤
          budget (openRun s replies (n + k)) := by
        cases hrest : (openRun s replies (n + k)).pc.atRest with
        | true =>
            have hno : (openRun s replies (n + k)).pc.requests = false := by
              cases hpc : (openRun s replies (n + k)).pc <;>
                simp_all [Pc.atRest, Pc.requests]
            rw [openRun, openStep_atRest hrest, hno]
            exact Nat.le_refl _
        | false =>
            obtain ⟨h, hpc⟩ := hinv (n + k)
            exact (openStep_advances h hrest hpc
              (hsettled _ (Nat.le_add_right n k))).budget
      rw [requestCount, ← Nat.add_assoc]
      omega

end Runs

/-! ## The result -/

/-- **Opening returns**, for every hook and all replies of the server, unless
they keep it beginning again, and after the last time at most two requests are
made. -/
theorem open_returns {config : Config} {as : List Act} {s : Sys}
    (h : httpMachine.run (start config) as = some s)
    (hused : s.http.nullUsed = false) {replies : Nat → Reply}
    (hparsed : ∀ n, Parsed (openRun (httpOpen s.http) replies n)
      (.reply (replies n)))
    {n : Nat} (hsettled : Settled (httpOpen s.http) replies n) :
    ∃ k err, (openRun (httpOpen s.http) replies (n + k)).pc = .returned err ∧
      requestCount (httpOpen s.http) replies n k ≤ 2 := by
  have hs := (run_spec h).1
  have hinv := openRun_inv (httpOpen_goes hs.http).inv
    ((httpOpen_goes hs.http).nullUsed.trans hused) hparsed
  obtain ⟨k, hk⟩ := WellFounded.not_rel_apply_succ (r := (· < ·))
    fun k => rank (openRun (httpOpen s.http) replies (n + k))
  have hrest : (openRun (httpOpen s.http) replies (n + k)).pc.atRest = true := by
    by_contra hgoes
    obtain ⟨hsys, hpc⟩ := hinv (n + k)
    exact hk (openStep_advances hsys (Bool.eq_false_iff.2 hgoes) hpc
      (hsettled _ (Nat.le_add_right n k))).rank
  obtain ⟨err, herr⟩ := returned_of_atRest hrest
  refine ⟨k, err, herr, ?_⟩
  have hcount := requestCount_budget hsettled hinv k
  have hbudget := budget_le (openRun (httpOpen s.http) replies n)
  omega

theorem openRun_atRest {s : Sys} {replies : Nat → Reply} {n : Nat}
    (h : (openRun s replies n).pc.atRest = true) {m : Nat} (hm : n ≤ m) :
    openRun s replies m = openRun s replies n := by
  induction m, hm using Nat.le_induction with
  | base => rfl
  | succ m _ ih => rw [openRun, ih, openStep_atRest h]

/-- Only the steps before the return are to be looked at. -/
theorem quiet_of_atRest {s : Sys} {replies : Nat → Reply} {n : Nat}
    (h : (openRun s replies n).pc.atRest = true)
    (hbefore : ∀ m < n, Parsed (openRun s replies m) (.reply (replies m)) ∧
      again (openRun s replies m) (replies m) = false) (m : Nat) :
    Parsed (openRun s replies m) (.reply (replies m)) ∧
      again (openRun s replies m) (replies m) = false := by
  by_cases hm : m < n
  · exact hbefore m hm
  · obtain ⟨err, herr⟩ := returned_of_atRest h
    rw [openRun_atRest h (Nat.not_lt.1 hm)]
    simp [Parsed, playlistArrives, again, herr]

/-- The stream of the URI `http://a/b`. -/
def named (config : Config) : Sys :=
  ⟨{ httpStreamInit config with info := ⟨0, some (ascii "http://a/b"), .none⟩ },
    .returned ESP_OK⟩

/-- A playlist with one track. -/
def onePlaylist : Reply :=
  { response 200 (ascii "application/vnd.apple.mpegurl") with
    totalBytes := 19
    chunk := ascii "#EXTM3U\nhttp://a/1\n" }

/-- A playlist is resolved, and its track is no playlist to resolve. -/
theorem open_returns_track : ∃ k err,
    (openRun (httpOpen (named ⟨.reader, false, true⟩).http)
      (fun _ => onePlaylist) (0 + k)).pc = .returned err ∧
    requestCount (httpOpen (named ⟨.reader, false, true⟩).http)
      (fun _ => onePlaylist) 0 k ≤ 2 := by
  have hrest : (openRun (httpOpen (named ⟨.reader, false, true⟩).http)
      (fun _ => onePlaylist) 7).pc.atRest = true := by decide +kernel
  have hquiet := quiet_of_atRest hrest (by decide +kernel)
  have hrun : httpMachine.run (start ⟨.reader, false, true⟩)
      [.setInfo ⟨0, some (ascii "http://a/b"), .none⟩] =
        some (named ⟨.reader, false, true⟩) := rfl
  exact open_returns hrun rfl (fun n => (hquiet n).1) fun m _ => (hquiet m).2

/-- The server redirects every request. -/
theorem open_redirected_for_ever : ∃ config as s replies,
    httpMachine.run (start config) as = some s ∧
    s.http.streamType = .reader ∧
    ∀ n err, (openRun (httpOpen s.http) replies n).pc ≠ .returned err := by
  let r := response 302 (ascii "text/html")
  let s := httpOpen (named ⟨.reader, false, false⟩).http
  have hloop : ∀ n, openRun s (fun _ => r) (n + 2) =
      openRun s (fun _ => r) 2 := by
    intro n
    induction n with
    | zero => rfl
    | succ n ih =>
        rw [openRun, ih]
        decide +kernel
  refine ⟨⟨.reader, false, false⟩,
    [.setInfo ⟨0, some (ascii "http://a/b"), .none⟩], _, fun _ => r, rfl, rfl,
    fun n err hpc => ?_⟩
  have hrest : (openRun s (fun _ => r) n).pc.atRest = false := by
    match n with
    | 0 => decide +kernel
    | 1 => decide +kernel
    | n + 2 =>
        rw [hloop n]
        decide +kernel
  have hpc' : (openRun s (fun _ => r) n).pc = .returned err := hpc
  rw [hpc'] at hrest
  contradiction

end EspAdf.Ports.HttpOpen
