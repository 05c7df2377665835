import EspAdf.Verified.Machine
import EspAdf.Ports.HttpdSess

/-!
# `httpd_main.c`: the thread of an HTTP server

`httpd_server` waits in `select`, handles one control message, then every
session with data, and then one connection request; `httpd_thread` repeats
this until a control message says to stop, and closes all sessions.  Other
tasks send control messages, among them those of `httpd_trigger_sess_close`,
whose argument is a pointer to the slot of the session that is to be closed.

Which descriptors are ready, what a request comes to and which descriptor
`accept` returns are inputs.  The state keeps what the system knows of the
sockets, so that a `close` too many or too few shows.

`Move` says once what an action does to the table, the sockets and the
contexts of the sessions; the results are proved from it.  `sockets_conserved`
proves that the open sockets are those of the sessions, each once, and that
none is left when the thread has stopped.
-/

namespace EspAdf.Ports.HttpdServer

open EspAdf.Verified
open EspAdf.Verified.Cursor
open EspAdf.Ports.HttpdSess

/-! ## The system -/

/-- `struct httpd_ctrl_data`. -/
inductive CtrlMsg where
  /-- The work is `httpd_sess_close` with the slot `i`; `conn` records for
  which connection it was queued. -/
  | close (i : Nat) (conn : Nat)
  /-- The work is another function. -/
  | work
  | shutdown
  deriving DecidableEq, Repr

/-- Where `httpd_thread` stands. -/
inductive Pc where
  | select
  | ctrl (ready : List Int) (listen : Bool)
  /-- At the head of the loop over the sessions. -/
  | sessions (fd : Int) (ready : List Int) (listen : Bool)
  | accept (listen : Bool)
  /-- At the head of the loop of `httpd_close_all_sessions`. -/
  | closeAll (fd : Int)
  | stopped
  /-- `httpd_sess_close` went through the null handle of an unused slot. -/
  | fault
  deriving DecidableEq, Repr

/-- What is left of the request of a session. -/
structure ReqResult where
  /-- `httpd_req_new` and `httpd_req_delete` return `ESP_OK`. -/
  ok : Bool
  sessCtx : Option Nat
  freeCtx : Option Nat
  pendingLen : Nat
  timestamp : Int
  deriving DecidableEq, Repr

structure Server where
  sd : List SockDb
  /-- The messages in the control socket. -/
  ctrl : List CtrlMsg
  pc : Pc
  /-- The sockets that `accept` returned and that are open. -/
  opened : List Int
  /-- History: `close` of anything else. -/
  badCloses : List Int
  /-- History: how many connections were accepted. -/
  conns : Nat
  /-- History: connections that were closed for want of a slot. -/
  refused : List Nat
  /-- History: queued closures that found another connection in the slot, or
  none. -/
  stale : List CtrlMsg
  /-- History: the sessions that the pass has to handle, and those that it has
  handled. -/
  targets : List Int
  handled : List Int
  /-- History: the contexts that handlers attached, and those that were freed
  by a handler or with the session. -/
  attached : List Nat
  freed : List Nat
  deriving DecidableEq, Repr

inductive Act where
  /-- `select` returns. -/
  | select (ready : List Int) (listen : Bool)
  /-- `httpd_process_ctrl_msg`. -/
  | ctrl
  /-- One round of the loop over the sessions. -/
  | visit (r : ReqResult)
  /-- `httpd_accept_conn`; `accept` returns `newFd` or fails, and a control
  message can be sent or not. -/
  | accept (newFd : Option Int) (sent : Bool)
  /-- One round of `httpd_close_all_sessions`. -/
  | closeOne
  /-- `httpd_trigger_sess_close` by another task. -/
  | trigger (sockfd : Int)
  /-- `httpd_queue_work` of another function. -/
  | work
  /-- `httpd_stop`. -/
  | stop
  /-- `httpd_sess_update_timestamp` by another task. -/
  | updateTimestamp (sockfd t : Int)
  deriving DecidableEq, Repr

/-- `close` of the socket of a session. -/
def Server.close (s : Server) (fd : Int) : Server :=
  if fd ∈ s.opened then { s with opened := s.opened.erase fd }
  else { s with badCloses := s.badCloses ++ [fd] }

/-- `httpd_sess_delete`. -/
def Server.delete (s : Server) (fd : Int) : Server :=
  let r := httpdSessDelete fd s.sd (-1)
  { s with sd := r.1, freed := s.freed ++ r.2.2.map Freed.ctx }

/-- The socket is ready, or data of it are still to be parsed. -/
def Server.hasData (s : Server) (ready : List Int) (fd : Int) : Bool :=
  fd ∈ ready || httpdSessPending s.sd fd

/-- The start of the loop over the sessions. -/
def Server.startPass (s : Server) (ready : List Int) (listen : Bool) :
    Server :=
  { s with
    pc := .sessions (-1) ready listen
    targets := (openFds s.sd).filter (s.hasData ready)
    handled := [] }

/-- `httpd_sess_close` with the slot `i`. -/
def Server.sessClose (s : Server) (i conn : Nat) : Server :=
  match s.sd[i]? with
  | none => { s with pc := .fault }
  | some e =>
      if e.handle then
        let s := if e.fd ≠ -1 ∧ e.conn = conn then s
          else { s with stale := s.stale ++ [.close i conn] }
        (s.delete e.fd).close e.fd
      else { s with pc := .fault }

/-- What handlers did to the context of a session while a request was
handled. -/
def Server.handler (s : Server) (ctx sessCtx : Option Nat) : Server :=
  if sessCtx = ctx then s
  else { s with
    attached := s.attached ++ sessCtx.toList
    freed := s.freed ++ ctx.toList }

/-- `httpd_sess_process` for the session in slot `i`. -/
def Server.process (s : Server) (i : Nat) (r : ReqResult) : Server :=
  let s := s.handler ((s.sd[i]?.bind (·.ctx))) r.sessCtx
  { s with sd := s.sd.modify i fun e =>
      if r.ok then { e with
        ctx := r.sessCtx, freeCtx := r.freeCtx
        pendingLen := r.pendingLen, timestamp := r.timestamp }
      else e }

/-- A round of the loop over the sessions at the session `fd`. -/
def Server.visit (s : Server) (fd : Int) (ready : List Int) (listen : Bool)
    (r : ReqResult) : Server :=
  if s.hasData ready fd then
    match httpdSessGet s.sd fd with
    | none => s
    | some i =>
        let s := { s.process i r with handled := s.handled ++ [fd] }
        if r.ok then { s with pc := .sessions fd ready listen }
        else
          let pre := (httpdSessDelete fd s.sd (-1)).2.1
          { (s.close fd).delete fd with pc := .sessions pre ready listen }
  else { s with pc := .sessions fd ready listen }

/-- `httpd_accept_conn`. -/
def Server.acceptConn (lruPurgeEnable : Bool) (s : Server)
    (newFd : Option Int) (sent : Bool) : Option Server :=
  if lruPurgeEnable && !httpdIsSessAvailable s.sd then
    match httpdSessCloseLru s.sd with
    | some (i, e) =>
        some (if sent then { s with ctrl := s.ctrl ++ [.close i e.conn] }
          else s)
    | none => some s
  else
    match newFd with
    | none => some s
    | some fd =>
        if 0 ≤ fd ∧ fd ∉ s.opened then
          let s := { s with opened := s.opened ++ [fd], conns := s.conns + 1 }
          match httpdSessNew s.sd fd s.conns with
          | some sd => some { s with sd := sd }
          | none =>
              some { s.close fd with refused := s.refused ++ [s.conns] }
        else none

def serverStep (lruPurgeEnable : Bool) (s : Server) : Act → Option Server
  | .select ready listen =>
      if s.pc = .select then
        if s.ctrl ≠ [] then some { s with pc := .ctrl ready listen }
        else if listen ∨ ∃ fd ∈ ready, fd ∈ openFds s.sd then
          some (s.startPass ready listen)
        else none
      else none
  | .ctrl =>
      match s.pc, s.ctrl with
      | .ctrl ready listen, msg :: rest =>
          let s := { s with ctrl := rest }
          match msg with
          | .close i conn =>
              let s := s.sessClose i conn
              some (if s.pc = .fault then s else s.startPass ready listen)
          | .work => some (s.startPass ready listen)
          | .shutdown => some { s with pc := .closeAll (-1) }
      | _, _ => none
  | .visit r =>
      match s.pc with
      | .sessions fd ready listen =>
          let fd := httpdSessIterate s.sd fd
          some (if fd = -1 then { s with pc := .accept listen }
            else s.visit fd ready listen r)
      | _ => none
  | .accept newFd sent =>
      match s.pc with
      | .accept listen =>
          if listen then
            (s.acceptConn lruPurgeEnable newFd sent).map
              fun s => { s with pc := .select }
          else some { s with pc := .select }
      | _ => none
  | .closeOne =>
      match s.pc with
      | .closeAll fd =>
          let fd := httpdSessIterate s.sd fd
          some (if fd = -1 then { s with pc := .stopped }
            else { (s.delete fd).close fd with pc := .closeAll fd })
      | _ => none
  | .trigger sockfd =>
      some (match httpdTriggerSessClose s.sd sockfd with
        | some (i, e) => { s with ctrl := s.ctrl ++ [.close i e.conn] }
        | none => s)
  | .work => some { s with ctrl := s.ctrl ++ [.work] }
  | .stop => some { s with ctrl := s.ctrl ++ [.shutdown] }
  | .updateTimestamp sockfd t =>
      some { s with sd := httpdSessUpdateTimestamp s.sd sockfd t }

def serverMachine (lruPurgeEnable : Bool) : Machine Server Act :=
  ⟨serverStep lruPurgeEnable⟩

/-- `httpd_start`. -/
def Server.start (maxOpenSockets : Nat) : Server where
  sd := httpdSessInit maxOpenSockets
  ctrl := []
  pc := .select
  opened := []
  badCloses := []
  conns := 0
  refused := []
  stale := []
  targets := []
  handled := []
  attached := []
  freed := []

/-! ## What one action does to the table -/

/-- The session that a round of the loop is going to handle. -/
def Server.current (s : Server) : Option SockDb :=
  match s.pc with
  | .sessions fd ready _ =>
      let fd := httpdSessIterate s.sd fd
      if fd ≠ -1 ∧ s.hasData ready fd = true then
        s.sd.find? (·.fd = fd)
      else none
  | _ => none

/-- Sockets and contexts are left alone. -/
structure Server.Same (s s' : Server) : Prop where
  opened : s'.opened = s.opened
  bad : s'.badCloses = s.badCloses
  attached : s'.attached = s.attached
  freed : s'.freed = s.freed

/-- What an action does to the table, the sockets and the contexts. -/
inductive Move (s s' : Server) (a : Act) : Prop where
  | same (sd : s'.sd = s.sd) (h : s.Same s')
      (ha : ∀ r, a = .visit r → s.current = none)
  /-- `close` of a free slot. -/
  | free (sd : s'.sd = s.sd) (h : s.Same { s' with badCloses := s.badCloses })
      (bad : s'.badCloses = s.badCloses ++ [-1]) (ha : ∀ r, a ≠ .visit r)
  | stamped (e : SockDb) (t : Int)
      (sd : Replaces s.sd s'.sd e { e with timestamp := t }) (h : s.Same s')
      (ha : ∀ r, a ≠ .visit r)
  /-- A connection is accepted. -/
  | opened (e : SockDb) (fd : Int) (conn : Nat) (hfree : e.fd = -1)
      (hpos : 0 ≤ fd) (hnew : fd ∉ s.opened)
      (sd : Replaces s.sd s'.sd e (.new fd conn))
      (opened : s'.opened = s.opened ++ [fd])
      (h : s.Same { s' with opened := s.opened }) (ha : ∀ r, a ≠ .visit r)
  /-- A request succeeds. -/
  | served (e : SockDb) (r : ReqResult) (ha : a = .visit r)
      (hcur : s.current = some e) (hfd : e.fd ≠ -1) (hok : r.ok = true)
      (sd : Replaces s.sd s'.sd e { e with
        ctx := r.sessCtx, freeCtx := r.freeCtx
        pendingLen := r.pendingLen, timestamp := r.timestamp })
      (h : (s.handler e.ctx r.sessCtx).Same s')
  /-- A request fails, and the session is closed. -/
  | failed (e : SockDb) (r : ReqResult) (ha : a = .visit r)
      (hcur : s.current = some e) (hfd : e.fd ≠ -1) (hok : r.ok = false)
      (sd : Replaces s.sd s'.sd e e.delete.1)
      (h : { s.handler e.ctx r.sessCtx with
        opened := s.opened.erase e.fd
        freed := (s.handler e.ctx r.sessCtx).freed ++ e.ctx.toList }.Same s')
  /-- A session is closed otherwise. -/
  | dropped (e : SockDb) (hfd : e.fd ≠ -1)
      (sd : Replaces s.sd s'.sd e e.delete.1)
      (h : { s with
        opened := s.opened.erase e.fd
        freed := s.freed ++ e.ctx.toList }.Same s') (ha : ∀ r, a ≠ .visit r)

/-- The table and the sockets. -/
structure Table (s : Server) : Prop where
  nodup : (openFds s.sd).Nodup
  opened : s.opened.Perm (openFds s.sd)
  used : ∀ e ∈ s.sd, e.fd ≠ -1 → e.handle = true
  free : ∀ e ∈ s.sd, e.fd = -1 → e.ctx = none
  bad : ∀ fd ∈ s.badCloses, fd = -1

/-- What holds of the server in every run. -/
structure Base (s : Server) : Prop extends Table s where
  /-- A queued closure points to a slot that was used. -/
  queued : ∀ i conn, .close i conn ∈ s.ctrl →
    ∃ e, s.sd[i]? = some e ∧ e.handle = true
  nofault : s.pc ≠ .fault
  /-- `httpd_close_all_sessions` goes on from a session it has deleted. -/
  closing : ∀ fd, s.pc = .closeAll fd → fd = -1 ∨ fd ∉ openFds s.sd
  stopped : s.pc = .stopped → openFds s.sd = []

variable {s s' : Server}

section Fields

variable (s) (fd : Int) (c c' : Option Nat)

@[simp] theorem close_sd : (s.close fd).sd = s.sd := by
  rw [Server.close]; split <;> rfl
@[simp] theorem close_ctrl : (s.close fd).ctrl = s.ctrl := by
  rw [Server.close]; split <;> rfl
@[simp] theorem close_pc : (s.close fd).pc = s.pc := by
  rw [Server.close]; split <;> rfl
@[simp] theorem close_refused : (s.close fd).refused = s.refused := by
  rw [Server.close]; split <;> rfl
@[simp] theorem close_stale : (s.close fd).stale = s.stale := by
  rw [Server.close]; split <;> rfl
@[simp] theorem close_targets : (s.close fd).targets = s.targets := by
  rw [Server.close]; split <;> rfl
@[simp] theorem close_handled : (s.close fd).handled = s.handled := by
  rw [Server.close]; split <;> rfl

@[simp] theorem handler_sd : (s.handler c c').sd = s.sd := by
  rw [Server.handler]; split <;> rfl
@[simp] theorem handler_ctrl : (s.handler c c').ctrl = s.ctrl := by
  rw [Server.handler]; split <;> rfl
@[simp] theorem handler_opened : (s.handler c c').opened = s.opened := by
  rw [Server.handler]; split <;> rfl
@[simp] theorem handler_bad : (s.handler c c').badCloses = s.badCloses := by
  rw [Server.handler]; split <;> rfl
@[simp] theorem handler_refused : (s.handler c c').refused = s.refused := by
  rw [Server.handler]; split <;> rfl
@[simp] theorem handler_stale : (s.handler c c').stale = s.stale := by
  rw [Server.handler]; split <;> rfl
@[simp] theorem handler_targets : (s.handler c c').targets = s.targets := by
  rw [Server.handler]; split <;> rfl
@[simp] theorem handler_handled : (s.handler c c').handled = s.handled := by
  rw [Server.handler]; split <;> rfl

end Fields

theorem Server.Same.refl (s : Server) : s.Same s := ⟨rfl, rfl, rfl, rfl⟩

theorem Base.mem_opened (h : Base s) {fd : Int} :
    fd ∈ s.opened ↔ fd ∈ openFds s.sd := h.opened.mem_iff

/-- Closing an open session. -/
theorem Base.close_delete (h : Base s) {fd : Int} (hfd : fd ∈ openFds s.sd) :
    ∃ e, e.fd = fd ∧ Replaces s.sd ((s.delete fd).close fd).sd e e.delete.1 ∧
      { s with
        opened := s.opened.erase e.fd
        freed := s.freed ++ e.ctx.toList }.Same ((s.delete fd).close fd) := by
  obtain ⟨e, rfl, hsd, hfreed⟩ := delete_replaces hfd
  have hopen : e.fd ∈ (s.delete e.fd).opened := h.mem_opened.2 hfd
  refine ⟨e, rfl, ?_, ?_⟩
  · rw [Server.close, if_pos hopen]
    exact hsd
  · rw [Server.close, if_pos hopen]
    refine ⟨rfl, rfl, rfl, ?_⟩
    show s.freed ++ _ = _
    rw [hfreed, (delete_ctxs e).1]

/-- Closing a free slot. -/
theorem Base.close_free (h : Base s) (hfree : ∃ e ∈ s.sd, e.fd = -1) :
    ((s.delete (-1)).close (-1)).sd = s.sd ∧
      s.Same { (s.delete (-1)).close (-1) with badCloses := s.badCloses } ∧
      ((s.delete (-1)).close (-1)).badCloses = s.badCloses ++ [-1] := by
  obtain ⟨i, hi⟩ := get_of_mem hfree
  obtain ⟨e, -, hfd, hsplit⟩ := get_split hi
  obtain ⟨front, back, hsd, -, hfront⟩ := hsplit id
  obtain ⟨hnew, hfreed⟩ := delete_split hfront back (-1)
  have hctx : e.ctx = none := h.free e (by rw [hsd]; simp) hfd
  rw [delete_free hfd hctx, ← hsd, hfd] at hnew
  rw [← hsd, hfd] at hfreed
  have hnot : (-1 : Int) ∉ (s.delete (-1)).opened := by
    intro hmem
    obtain ⟨-, -, -, hne⟩ := mem_openFds.1 (h.mem_opened.1 hmem)
    exact hne rfl
  rw [Server.close, if_neg hnot]
  refine ⟨hnew, ⟨rfl, rfl, rfl, ?_⟩, rfl⟩
  show s.freed ++ _ = s.freed
  rw [hfreed, (delete_ctxs e).1, hctx]
  simp

/-- A round of the loop over the sessions. -/
theorem Base.visit (h : Base s) {fd₀ : Int} {ready : List Int}
    {listen : Bool} (hpc : s.pc = .sessions fd₀ ready listen)
    (hfd : httpdSessIterate s.sd fd₀ ≠ -1) (r : ReqResult) :
    Move s (s.visit (httpdSessIterate s.sd fd₀) ready listen r)
      (.visit r) := by
  have hopen := iterate_mem hfd
  have hcur : s.current =
      if s.hasData ready (httpdSessIterate s.sd fd₀) = true then
        s.sd.find? (·.fd = httpdSessIterate s.sd fd₀)
      else none := by
    rw [Server.current, hpc]
    simp only [hfd, ne_eq, not_false_eq_true, true_and]
  generalize httpdSessIterate s.sd fd₀ = fd at *
  by_cases hdata : s.hasData ready fd = true
  · rw [if_pos hdata] at hcur
    obtain ⟨e₀, he₀, hfd₀, -⟩ := mem_openFds.1 hopen
    obtain ⟨i, hi⟩ := get_of_mem ⟨e₀, he₀, hfd₀⟩
    obtain ⟨e, hget, rfl, hsplit⟩ := get_split hi
    rw [(hsplit id).find] at hcur
    rw [Server.visit, if_pos hdata, hi]
    simp only [Server.process, hget, Option.bind_some]
    by_cases hok : r.ok = true
    · simp only [if_pos hok, handler_sd]
      exact .served e r rfl hcur hfd hok (hsplit _) ⟨rfl, rfl, rfl, rfl⟩
    · have hsame : s.sd.modify i (fun e => e) = s.sd :=
        (hsplit fun e => e).eq_self
      have hmem := h.mem_opened.2 hopen
      obtain ⟨e', hfd', hsd, hfreed⟩ := delete_replaces hopen
      have heq : e' = e := by
        have hfind := hsd.find
        rw [hfd', (hsplit id).find] at hfind
        exact (Option.some.inj hfind).symm
      subst heq
      simp only [if_neg hok, handler_sd, hsame, Server.close, Server.delete,
        handler_opened, if_pos hmem]
      refine .failed e' r rfl hcur hfd (by simpa using hok) hsd
        ⟨rfl, rfl, rfl, ?_⟩
      simp only [hfreed, (delete_ctxs e').1]
  · rw [if_neg hdata] at hcur
    rw [Server.visit, if_neg hdata]
    exact .same rfl ⟨rfl, rfl, rfl, rfl⟩ fun _ _ => hcur

/-- What is not in the table or the sockets may change. -/
theorem Base.congr (h : Base s) (hsd : s'.sd = s.sd)
    (hopened : s'.opened = s.opened) (hbad : s'.badCloses = s.badCloses)
    (hpc : s'.pc = s.pc) (hctrl : s'.ctrl ⊆ s.ctrl) : Base s' := by
  obtain ⟨⟨h₁, h₂, h₃, h₄, h₅⟩, h₆, h₇, h₈, h₉⟩ := h
  rw [← hsd] at h₁ h₂ h₃ h₄ h₆ h₈ h₉
  rw [← hopened] at h₂
  rw [← hbad] at h₅
  rw [← hpc] at h₇ h₈ h₉
  exact ⟨⟨h₁, h₂, h₃, h₄, h₅⟩, fun i conn hmem => h₆ i conn (hctrl hmem), h₇,
    h₈, h₉⟩

/-- A queued closure closes what its slot has got, if anything. -/
theorem Base.closeSlot (h : Base s) {e : SockDb} (he : e ∈ s.sd)
    (ready : List Int) (listen : Bool) :
    Move s (((s.delete e.fd).close e.fd).startPass ready listen) .ctrl ∧
      ((s.delete e.fd).close e.fd).pc = s.pc := by
  refine ⟨?_, close_pc _ _⟩
  by_cases hfd : e.fd = -1
  · obtain ⟨hsd, hsame, hbad⟩ := h.close_free ⟨e, he, hfd⟩
    rw [hfd]
    exact .free hsd ⟨hsame.opened, rfl, hsame.attached, hsame.freed⟩ hbad
      (by simp)
  · obtain ⟨e', hfd', hsd, hsame⟩ :=
      h.close_delete (mem_openFds.2 ⟨e, he, rfl, hfd⟩)
    refine .dropped e' (hfd' ▸ hfd) hsd ?_ (by simp)
    exact ⟨hsame.opened, hsame.bad, hsame.attached, hsame.freed⟩

/-- A step of the table from a state that differs elsewhere only. -/
theorem Move.congr {s₀ : Server} {a : Act} (h : Move s₀ s' a)
    (hsd : s₀.sd = s.sd) (hsame : s.Same s₀)
    (hcur : ∀ r, a ≠ .visit r) : Move s s' a := by
  obtain ⟨hopened, hbad, hattached, hfreed⟩ := hsame
  cases h with
  | same sd h ha =>
      exact .same (sd.trans hsd) ⟨h.opened.trans hopened, h.bad.trans hbad,
        h.attached.trans hattached, h.freed.trans hfreed⟩
        fun r hr => absurd hr (hcur r)
  | free sd h bad ha =>
      exact .free (sd.trans hsd) ⟨h.opened.trans hopened, rfl,
        h.attached.trans hattached, h.freed.trans hfreed⟩
        (by rw [bad, hbad]) ha
  | stamped e t sd h ha =>
      exact .stamped e t (hsd ▸ sd) ⟨h.opened.trans hopened,
        h.bad.trans hbad, h.attached.trans hattached,
        h.freed.trans hfreed⟩ ha
  | opened e fd conn hfree hpos hnew sd hop h ha =>
      exact .opened e fd conn hfree hpos (hopened ▸ hnew) (hsd ▸ sd)
        (hopened ▸ hop) ⟨rfl, h.bad.trans hbad, h.attached.trans hattached,
          h.freed.trans hfreed⟩ ha
  | served e r ha => exact absurd ha (hcur r)
  | failed e r ha => exact absurd ha (hcur r)
  | dropped e hfd sd h ha =>
      refine .dropped e hfd (hsd ▸ sd) ⟨?_, h.bad.trans hbad,
        h.attached.trans hattached, ?_⟩ ha
      · exact h.opened.trans (by rw [hopened])
      · exact h.freed.trans (by rw [hfreed])

/-- The control message closes a slot. -/
theorem Base.sessClose (h : Base s) {rest : List CtrlMsg} {i conn : Nat}
    (hmsg : s.ctrl = .close i conn :: rest) (ready : List Int)
    (listen : Bool) :
    let t := { s with ctrl := rest }.sessClose i conn
    t.pc ≠ .fault ∧ Move s (t.startPass ready listen) .ctrl := by
  obtain ⟨e, he, hhandle⟩ := h.queued i conn (by rw [hmsg]; simp)
  have hmem := List.mem_of_getElem? he
  have hsub : rest ⊆ s.ctrl := by
    rw [hmsg]
    exact List.subset_cons_self _ _
  rw [Server.sessClose]
  simp only [he, if_pos hhandle]
  split
  · have hrest : Base { s with ctrl := rest } :=
      h.congr rfl rfl rfl rfl hsub
    obtain ⟨hm, hpc⟩ := hrest.closeSlot hmem ready listen
    exact ⟨by rw [hpc]; exact h.nofault,
      hm.congr rfl ⟨rfl, rfl, rfl, rfl⟩ (by simp)⟩
  · have hrest : Base
        { s with ctrl := rest, stale := s.stale ++ [.close i conn] } :=
      h.congr rfl rfl rfl rfl hsub
    obtain ⟨hm, hpc⟩ := hrest.closeSlot hmem ready listen
    exact ⟨by rw [hpc]; exact h.nofault,
      hm.congr rfl ⟨rfl, rfl, rfl, rfl⟩ (by simp)⟩

/-- `httpd_accept_conn`. -/
theorem acceptConn_move {lru : Bool} {newFd : Option Int}
    {sent : Bool} (hs : s.acceptConn lru newFd sent = some s') :
    Move s { s' with pc := .select } (.accept newFd sent) := by
  unfold Server.acceptConn at hs
  split at hs
  · split at hs
    · cases hs
      split <;> exact .same rfl ⟨rfl, rfl, rfl, rfl⟩ (by simp)
    · cases hs
      exact .same rfl ⟨rfl, rfl, rfl, rfl⟩ (by simp)
  · split at hs
    · cases hs
      exact .same rfl ⟨rfl, rfl, rfl, rfl⟩ (by simp)
    · rename_i fd
      simp only [Option.ite_none_right_eq_some] at hs
      obtain ⟨⟨hpos, hnew⟩, hs⟩ := hs
      split at hs
      · rename_i sd hsd
        cases hs
        obtain ⟨-, e, hfree, hsplit⟩ := new_spec hsd
        exact .opened e fd _ hfree hpos hnew hsplit rfl
          ⟨rfl, rfl, rfl, rfl⟩ (by simp)
      · cases hs
        rw [Server.close, if_pos (by simp)]
        refine .same rfl ⟨?_, rfl, rfl, rfl⟩ (by simp)
        show (s.opened ++ [fd]).erase fd = s.opened
        rw [List.erase_append_right _ hnew, List.erase_cons_head,
          List.append_nil]

theorem serverStep_move (h : Base s) {lru : Bool} {a : Act}
    (hs : serverStep lru s a = some s') : Move s s' a := by
  cases a with
  | select ready listen =>
      simp only [serverStep, Option.ite_none_right_eq_some] at hs
      obtain ⟨-, hs⟩ := hs
      split at hs
      · cases hs
        exact .same rfl ⟨rfl, rfl, rfl, rfl⟩ (by simp)
      · obtain ⟨-, hs⟩ := Option.ite_none_right_eq_some.1 hs
        cases hs
        exact .same rfl ⟨rfl, rfl, rfl, rfl⟩ (by simp)
  | ctrl =>
      simp only [serverStep] at hs
      split at hs
      · rename_i ready listen msg rest hpc hctrl
        split at hs
        · rename_i i conn
          obtain ⟨hfault, hm⟩ := h.sessClose hctrl ready listen
          cases hs
          rw [if_neg hfault]
          exact hm
        · cases hs
          exact .same rfl ⟨rfl, rfl, rfl, rfl⟩ (by simp)
        · cases hs
          exact .same rfl ⟨rfl, rfl, rfl, rfl⟩ (by simp)
      · cases hs
  | visit r =>
      simp only [serverStep] at hs
      split at hs
      · rename_i fd ready listen hpc
        cases hs
        split
        · rename_i hend
          refine .same rfl ⟨rfl, rfl, rfl, rfl⟩ fun _ _ => ?_
          rw [Server.current, hpc]
          simp only [hend, ne_eq, not_true_eq_false, false_and, if_false]
        · rename_i hfd
          exact h.visit hpc hfd r
      · cases hs
  | accept newFd sent =>
      simp only [serverStep] at hs
      split at hs
      · split at hs
        · obtain ⟨t, ht, rfl⟩ := Option.map_eq_some_iff.1 hs
          exact acceptConn_move ht
        · cases hs
          exact .same rfl ⟨rfl, rfl, rfl, rfl⟩ (by simp)
      · cases hs
  | closeOne =>
      simp only [serverStep] at hs
      split at hs
      · rename_i fd hpc
        cases hs
        split
        · exact .same rfl ⟨rfl, rfl, rfl, rfl⟩ (by simp)
        · rename_i hfd
          obtain ⟨e, hfd', hsd, hsame⟩ := h.close_delete (iterate_mem hfd)
          refine .dropped e (hfd' ▸ hfd) hsd ?_ (by simp)
          exact ⟨hsame.opened, hsame.bad, hsame.attached, hsame.freed⟩
      · cases hs
  | trigger sockfd =>
      cases hs
      split <;> exact .same rfl ⟨rfl, rfl, rfl, rfl⟩ (by simp)
  | work =>
      cases hs
      exact .same rfl ⟨rfl, rfl, rfl, rfl⟩ (by simp)
  | stop =>
      cases hs
      exact .same rfl ⟨rfl, rfl, rfl, rfl⟩ (by simp)
  | updateTimestamp sockfd t =>
      cases hs
      rw [httpdSessUpdateTimestamp]
      split
      · rename_i i hi
        obtain ⟨e, -, -, hsplit⟩ := get_split hi
        exact .stamped e t (hsplit _) ⟨rfl, rfl, rfl, rfl⟩ (by simp)
      · exact .same rfl ⟨rfl, rfl, rfl, rfl⟩ (by simp)

/-! ## The invariant -/

/-- The descriptors of the other slots. -/
theorem openFds_perm {sd sd' : List SockDb} {e e' : SockDb}
    (h : Replaces sd sd' e e') : ∃ rest : List Int,
      (openFds sd).Perm (e.slot.toList ++ rest) ∧
      (openFds sd').Perm (e'.slot.toList ++ rest) := by
  obtain ⟨front, back, rfl, rfl, -⟩ := h
  refine ⟨openFds front ++ openFds back, ?_, ?_⟩ <;>
  · rw [openFds_split]
    exact (List.perm_append_comm.append_right _).trans
      (by rw [List.append_assoc])

/-- A slot gets another content, and the sockets change with it. -/
theorem Table.replace (h : Table s) {e e' : SockDb}
    (hsd : Replaces s.sd s'.sd e e')
    (hsockets : ∀ rest, (e.slot.toList ++ rest).Nodup →
      s.opened.Perm (e.slot.toList ++ rest) →
      (e'.slot.toList ++ rest).Nodup ∧
        s'.opened.Perm (e'.slot.toList ++ rest))
    (hused : e'.fd ≠ -1 → e'.handle = true)
    (hfree : e'.fd = -1 → e'.ctx = none)
    (hbad : s'.badCloses = s.badCloses) : Table s' := by
  obtain ⟨rest, hold, hnew⟩ := openFds_perm hsd
  obtain ⟨hnodup, hopened⟩ :=
    hsockets rest (hold.nodup_iff.1 h.nodup) (h.opened.trans hold)
  refine ⟨hnew.nodup_iff.2 hnodup, hopened.trans hnew.symm, ?_, ?_, ?_⟩
  · intro s hs
    rcases hsd.mem_new hs with rfl | hs
    · exact hused
    · exact h.used s hs
  · intro s hs
    rcases hsd.mem_new hs with rfl | hs
    · exact hfree
    · exact h.free s hs
  · rw [hbad]
    exact h.bad

theorem Table.delete (h : Table s) {e : SockDb} (hfd : e.fd ≠ -1)
    (hsd : Replaces s.sd s'.sd e e.delete.1)
    (hopened : s'.opened = s.opened.erase e.fd)
    (hbad : s'.badCloses = s.badCloses) : Table s' := by
  refine h.replace hsd ?_ (fun hne => absurd (delete_fd e) hne)
    (fun _ => (delete_ctxs e).2) hbad
  intro rest hnodup hperm
  rw [slot_open hfd] at hnodup hperm
  rw [slot_free (delete_fd e), hopened]
  exact ⟨(List.nodup_cons.1 hnodup).2,
    (hperm.erase e.fd).trans (by simp)⟩

theorem Table.move (h : Table s) {a : Act} (hm : Move s s' a) : Table s' := by
  cases hm with
  | same sd hs ha =>
      obtain ⟨h₁, h₂, h₃, h₄, h₅⟩ := h
      rw [← sd] at h₁ h₂ h₃ h₄
      rw [← hs.opened] at h₂
      rw [← hs.bad] at h₅
      exact ⟨h₁, h₂, h₃, h₄, h₅⟩
  | free sd hs bad ha =>
      obtain ⟨h₁, h₂, h₃, h₄, h₅⟩ := h
      rw [← sd] at h₁ h₂ h₃ h₄
      rw [← hs.opened] at h₂
      refine ⟨h₁, h₂, h₃, h₄, ?_⟩
      rw [bad]
      intro fd hfd
      rcases List.mem_append.1 hfd with hfd | hfd
      · exact h₅ fd hfd
      · exact List.mem_singleton.1 hfd
  | stamped e t sd hs ha =>
      refine h.replace sd ?_ (h.used e sd.mem) (h.free e sd.mem) hs.bad
      rw [hs.opened]
      exact fun rest => And.intro
  | served e r ha hcur hfd hok sd hs =>
      refine h.replace sd ?_ (h.used e sd.mem) (fun heq => absurd heq hfd)
        (hs.bad.trans (handler_bad _ _ _))
      rw [hs.opened, handler_opened]
      exact fun rest => And.intro
  | failed e r ha hcur hfd hok sd hs =>
      exact h.delete hfd sd hs.opened (hs.bad.trans (handler_bad _ _ _))
  | dropped e hfd sd hs ha => exact h.delete hfd sd hs.opened hs.bad
  | opened e fd conn hfree hpos hnew sd hop hs ha =>
      refine h.replace sd ?_ (fun _ => rfl) (fun _ => rfl) hs.bad
      have hfd : (SockDb.new fd conn).fd ≠ -1 := by
        show fd ≠ -1
        omega
      intro rest hnodup hperm
      rw [slot_free hfree, Option.toList_none, List.nil_append] at hnodup hperm
      rw [slot_open hfd, hop]
      refine ⟨List.nodup_cons.2 ⟨fun hmem => hnew (hperm.mem_iff.2 hmem),
        hnodup⟩, ?_⟩
      exact (List.perm_append_singleton _ _).trans (hperm.cons _)

/-- A slot that was used stays a used one. -/
theorem Move.handle {a : Act} (hm : Move s s' a) {i : Nat}
    (h : ∃ e, s.sd[i]? = some e ∧ e.handle = true) :
    ∃ e, s'.sd[i]? = some e ∧ e.handle = true := by
  obtain ⟨e, he, hhandle⟩ := h
  have hreplace : ∀ {e₁ e₂}, Replaces s.sd s'.sd e₁ e₂ →
      (e₁.handle = true → e₂.handle = true) →
      ∃ e, s'.sd[i]? = some e ∧ e.handle = true := by
    intro e₁ e₂ hsd himp
    rcases hsd.getElem he with hsame | ⟨rfl, hnew⟩
    · exact ⟨e, hsame, hhandle⟩
    · exact ⟨e₂, hnew, himp hhandle⟩
  cases hm with
  | same sd hs ha => exact ⟨e, sd ▸ he, hhandle⟩
  | free sd hs bad ha => exact ⟨e, sd ▸ he, hhandle⟩
  | stamped e t sd hs ha => exact hreplace sd id
  | served e r ha hcur hfd hok sd hs => exact hreplace sd id
  | failed e r ha hcur hfd hok sd hs =>
      exact hreplace sd fun hh => (delete_handle e).1.trans hh
  | dropped e hfd sd hs ha =>
      exact hreplace sd fun hh => (delete_handle e).1.trans hh
  | opened e fd conn hfree hpos hnew sd hop hs ha =>
      exact hreplace sd fun _ => rfl

/-- The application names a descriptor, not the mark of a free slot. -/
def NamesSocket (_ : Server) (a : Act) : Prop := a ≠ .trigger (-1)

instance (s : Server) (a : Act) : Decidable (NamesSocket s a) :=
  inferInstanceAs (Decidable (_ ≠ _))

@[simp] theorem sessClose_ctrl (s : Server) (i conn : Nat) :
    (s.sessClose i conn).ctrl = s.ctrl := by
  rw [Server.sessClose]
  split
  · rfl
  · split
    · dsimp only
      rw [close_ctrl]
      split <;> rfl
    · rfl

@[simp] theorem visit_ctrl (s : Server) (fd : Int) (ready : List Int)
    (listen : Bool) (r : ReqResult) :
    (s.visit fd ready listen r).ctrl = s.ctrl := by
  rw [Server.visit]
  split
  · split
    · rfl
    · dsimp only
      split
      · exact handler_ctrl _ _ _
      · exact (close_ctrl _ _).trans (handler_ctrl _ _ _)
  · rfl

/-- Connecting leaves the control socket as it is, or closes an open
session. -/
theorem acceptConn_ctrl {lru : Bool} {newFd : Option Int} {sent : Bool}
    (hs : s.acceptConn lru newFd sent = some s') :
    s'.ctrl = s.ctrl ∨ ∃ i e, httpdSessCloseLru s.sd = some (i, e) ∧
      s'.ctrl = s.ctrl ++ [.close i e.conn] ∧ s'.sd = s.sd := by
  unfold Server.acceptConn at hs
  split at hs
  · split at hs
    · rename_i i e hlru
      cases hs
      split
      · exact .inr ⟨i, e, hlru, rfl, rfl⟩
      · exact .inl rfl
    · cases hs
      exact .inl rfl
  · split at hs
    · cases hs
      exact .inl rfl
    · simp only [Option.ite_none_right_eq_some] at hs
      obtain ⟨-, hs⟩ := hs
      split at hs
      · cases hs
        exact .inl rfl
      · cases hs
        exact .inl (close_ctrl _ _)

/-- A closure that is new in the control socket is for an open session. -/
theorem serverStep_ctrl {lru : Bool} {a : Act}
    (hs : serverStep lru s a = some s') (ha : NamesSocket s a)
    {i conn : Nat} (hmem : .close i conn ∈ s'.ctrl) :
    .close i conn ∈ s.ctrl ∨
      ∃ e, s.sd[i]? = some e ∧ e.fd ≠ -1 ∧ e.conn = conn := by
  cases a with
  | select ready listen =>
      simp only [serverStep, Option.ite_none_right_eq_some] at hs
      obtain ⟨-, hs⟩ := hs
      split at hs
      · cases hs
        exact .inl hmem
      · obtain ⟨-, hs⟩ := Option.ite_none_right_eq_some.1 hs
        cases hs
        exact .inl hmem
  | ctrl =>
      simp only [serverStep] at hs
      split at hs
      · rename_i ready listen msg rest hpc hctrl
        have hrest : s'.ctrl = rest := by
          split at hs
          · cases hs
            split
            · exact sessClose_ctrl _ _ _
            · exact sessClose_ctrl _ _ _
          · cases hs
            rfl
          · cases hs
            rfl
        rw [hctrl]
        exact .inl (List.mem_cons_of_mem _ (hrest ▸ hmem))
      · cases hs
  | visit r =>
      simp only [serverStep] at hs
      split at hs
      · cases hs
        split at hmem
        · exact .inl hmem
        · rw [visit_ctrl] at hmem
          exact .inl hmem
      · cases hs
  | accept newFd sent =>
      simp only [serverStep] at hs
      split at hs
      · split at hs
        · obtain ⟨t, ht, rfl⟩ := Option.map_eq_some_iff.1 hs
          rcases acceptConn_ctrl ht with hsame | ⟨j, e, hlru, hnew, -⟩
          · exact .inl (hsame ▸ hmem)
          · obtain ⟨hopen, hj, -⟩ := closeLru_spec hlru
            rw [show ({ t with pc := .select } : Server).ctrl = t.ctrl from rfl,
              hnew, List.mem_append, List.mem_singleton,
              CtrlMsg.close.injEq] at hmem
            refine hmem.imp id ?_
            rintro ⟨rfl, rfl⟩
            exact ⟨e, hj, hopen e (List.mem_of_getElem? hj), rfl⟩
        · cases hs
          exact .inl hmem
      · cases hs
  | closeOne =>
      simp only [serverStep] at hs
      split at hs
      · cases hs
        split at hmem
        · exact .inl hmem
        · exact .inl (close_ctrl (s.delete _) _ ▸ hmem)
      · cases hs
  | trigger sockfd =>
      cases hs
      split at hmem
      · rename_i j e htrigger
        obtain ⟨hj, hfd⟩ := trigger_spec htrigger
        rw [List.mem_append, List.mem_singleton, CtrlMsg.close.injEq] at hmem
        refine hmem.imp id ?_
        rintro ⟨rfl, rfl⟩
        exact ⟨e, hj, fun hfree => ha (by rw [← hfd, hfree]), rfl⟩
      · exact .inl hmem
  | work =>
      cases hs
      exact .inl (by simpa using hmem)
  | stop =>
      cases hs
      exact .inl (by simpa using hmem)
  | updateTimestamp sockfd t =>
      cases hs
      exact .inl hmem

/-- The program counter that a round of the loop leaves. -/
theorem visit_pc (s : Server) (fd : Int) (ready : List Int) (listen : Bool)
    (r : ReqResult) :
    (s.visit fd ready listen r).pc = s.pc ∨
      ∃ fd', (s.visit fd ready listen r).pc = .sessions fd' ready listen := by
  rw [Server.visit]
  split
  · split
    · exact .inl rfl
    · dsimp only
      split
      · exact .inr ⟨_, rfl⟩
      · exact .inr ⟨_, rfl⟩
  · exact .inr ⟨_, rfl⟩

/-- Where the thread stands, and what it has done there. -/
def PcOk (s : Server) : Prop :=
  s.pc ≠ .fault ∧
  (∀ fd, s.pc = .closeAll fd → fd = -1 ∨ fd ∉ openFds s.sd) ∧
  (s.pc = .stopped → openFds s.sd = [])

theorem Base.pcOk (h : Base s) : PcOk s := ⟨h.nofault, h.closing, h.stopped⟩

/-- Another task does not move the thread. -/
theorem PcOk.congr (h : PcOk s) (hpc : s'.pc = s.pc)
    (hsd : slots s'.sd = slots s.sd) : PcOk s' := by
  have hopen : openFds s'.sd = openFds s.sd := congrArg keys hsd
  rw [PcOk, hpc, hopen]
  exact h

/-- Outside the closing of all sessions there is nothing to show. -/
theorem PcOk.of_pc (h₁ : s.pc ≠ .fault) (h₂ : ∀ fd, s.pc ≠ .closeAll fd)
    (h₃ : s.pc ≠ .stopped) : PcOk s :=
  ⟨h₁, fun fd heq => absurd heq (h₂ fd), fun heq => absurd heq h₃⟩

theorem Base.pcOk_step (h : Base s) {lru : Bool} {a : Act}
    (hs : serverStep lru s a = some s') : PcOk s' := by
  cases a with
  | select ready listen =>
      simp only [serverStep, Option.ite_none_right_eq_some] at hs
      obtain ⟨-, hs⟩ := hs
      split at hs
      · cases hs
        exact .of_pc (by simp) (by simp) (by simp)
      · obtain ⟨-, hs⟩ := Option.ite_none_right_eq_some.1 hs
        cases hs
        exact .of_pc (by simp [Server.startPass]) (by simp [Server.startPass])
          (by simp [Server.startPass])
  | ctrl =>
      simp only [serverStep] at hs
      split at hs
      · rename_i ready listen msg rest hpc hctrl
        split at hs
        · obtain ⟨hfault, -⟩ := h.sessClose hctrl ready listen
          cases hs
          rw [if_neg hfault]
          exact .of_pc (by simp [Server.startPass])
            (by simp [Server.startPass]) (by simp [Server.startPass])
        · cases hs
          exact .of_pc (by simp [Server.startPass])
            (by simp [Server.startPass]) (by simp [Server.startPass])
        · cases hs
          refine ⟨by simp, fun fd heq => ?_, by simp⟩
          cases heq
          exact .inl rfl
      · cases hs
  | visit r =>
      simp only [serverStep] at hs
      split at hs
      · rename_i fd ready listen hpc
        cases hs
        split
        · exact .of_pc (by simp) (by simp) (by simp)
        · rcases visit_pc s (httpdSessIterate s.sd fd) ready listen r with
            hpc' | ⟨fd', hpc'⟩
          · rw [hpc] at hpc'
            exact .of_pc (by simp [hpc']) (by simp [hpc']) (by simp [hpc'])
          · exact .of_pc (by simp [hpc']) (by simp [hpc']) (by simp [hpc'])
      · cases hs
  | accept newFd sent =>
      simp only [serverStep] at hs
      split at hs
      · split at hs
        · obtain ⟨t, ht, rfl⟩ := Option.map_eq_some_iff.1 hs
          exact .of_pc (by simp) (by simp) (by simp)
        · cases hs
          exact .of_pc (by simp) (by simp) (by simp)
      · cases hs
  | closeOne =>
      simp only [serverStep] at hs
      split at hs
      · rename_i fd hpc
        cases hs
        split
        · rename_i hend
          exact ⟨by simp, by simp, fun _ => iterate_end (h.closing fd hpc) hend⟩
        · rename_i hfd
          refine ⟨by simp, fun fd' heq => .inr ?_, by simp⟩
          cases heq
          show _ ∉ openFds (Server.close _ _).sd
          rw [close_sd, Server.delete, openFds_delete hfd]
          exact h.nodup.not_mem_erase
      · cases hs
  | trigger sockfd =>
      cases hs
      split
      · exact h.pcOk.congr rfl rfl
      · exact h.pcOk
  | work =>
      cases hs
      exact h.pcOk.congr rfl rfl
  | stop =>
      cases hs
      exact h.pcOk.congr rfl rfl
  | updateTimestamp sockfd t =>
      cases hs
      exact h.pcOk.congr rfl (slots_updateTimestamp _ _ _)

theorem Base.start (n : Nat) : Base (.start n) := by
  have hinit : ∀ e ∈ (Server.start n).sd, e = .init :=
    fun e he => List.eq_of_mem_replicate he
  have hnone : openFds (Server.start n).sd = [] := by
    rw [List.eq_nil_iff_forall_not_mem]
    intro fd hfd
    obtain ⟨e, he, rfl, hne⟩ := mem_openFds.1 hfd
    exact hne (hinit e he ▸ rfl)
  refine ⟨⟨by rw [hnone]; exact List.nodup_nil, by rw [hnone]; rfl, ?_, ?_,
    nofun⟩, nofun, by simp [Server.start], by simp [Server.start],
    by simp [Server.start]⟩
  · intro e he hne
    exact absurd (hinit e he ▸ rfl) hne
  · intro e he _
    rw [hinit e he]
    rfl

theorem Base.step (h : Base s) {lru : Bool} {a : Act}
    (ha : NamesSocket s a) (hs : serverStep lru s a = some s') : Base s' := by
  have hm := serverStep_move h hs
  obtain ⟨hfault, hclosing, hstopped⟩ := h.pcOk_step hs
  refine ⟨h.toTable.move hm, fun i conn hmem => hm.handle ?_, hfault, hclosing,
    hstopped⟩
  rcases serverStep_ctrl hs ha hmem with hold | ⟨e, he, hopen, -⟩
  · exact h.queued i conn hold
  · exact ⟨e, he, h.used e (List.mem_of_getElem? he) hopen⟩

theorem reaches_base {lru : Bool} {n : Nat}
    (h : (serverMachine lru).Reaches NamesSocket (.start n) s) : Base s :=
  h.invariant (Base.start n) fun _ _ _ hI ha hs => hI.step ha hs

/-! ## Sockets -/

/-- Closing all sessions ends. -/
theorem closeAll_ends {lru : Bool} : ∀ (k : Nat) {s : Server} {fd : Int},
    Base s → s.pc = .closeAll fd → (openFds s.sd).length = k →
    ∃ s', (serverMachine lru).run s (List.replicate (k + 1) .closeOne) =
      some s' ∧ s'.pc = .stopped := by
  intro k
  induction k with
  | zero =>
      intro s fd h hpc hlen
      have hnone := List.length_eq_zero_iff.1 hlen
      have hend : httpdSessIterate s.sd fd = -1 := by
        by_contra hne
        exact List.not_mem_nil (hnone ▸ iterate_mem hne)
      refine ⟨{ s with pc := .stopped }, ?_, rfl⟩
      simp [Machine.run_cons, serverMachine, serverStep, hpc, hend]
  | succ k ih =>
      intro s fd h hpc hlen
      have hfd : httpdSessIterate s.sd fd ≠ -1 := by
        intro hend
        rw [iterate_end (h.closing fd hpc) hend] at hlen
        cases hlen
      have hmem := iterate_mem hfd
      have hstep : serverStep lru s .closeOne =
          some { (s.delete (httpdSessIterate s.sd fd)).close
            (httpdSessIterate s.sd fd) with
              pc := .closeAll (httpdSessIterate s.sd fd) } := by
        simp only [serverStep, hpc, if_neg hfd]
      obtain ⟨s', hrun, hstop⟩ := ih (h.step (by simp [NamesSocket]) hstep) rfl
        (by
          show (openFds (Server.close _ _).sd).length = k
          rw [close_sd, Server.delete, openFds_delete hfd,
            List.length_erase_of_mem hmem, hlen]
          rfl)
      refine ⟨s', ?_, hstop⟩
      rw [List.replicate_succ, Machine.run_cons]
      show (serverStep lru s .closeOne).bind _ = _
      rw [hstep]
      exact hrun

/-- **Sockets are conserved.**  In every run in which the application names
sockets, the sockets that are open are those of the sessions, each once;
nothing else is ever closed but the mark of a free slot; and once the thread
is told to stop, it closes all of them and stops. -/
theorem sockets_conserved {lru : Bool} {n : Nat}
    (h : (serverMachine lru).Reaches NamesSocket (.start n) s) :
    (openFds s.sd).Nodup ∧ s.opened.Perm (openFds s.sd) ∧
      (∀ fd ∈ s.badCloses, fd = -1) ∧ s.pc ≠ .fault ∧
      (s.pc = .stopped → s.opened = []) ∧
      ∀ fd, s.pc = .closeAll fd → ∃ s',
        (serverMachine lru).run s
          (List.replicate (s.opened.length + 1) .closeOne) = some s' ∧
        s'.pc = .stopped := by
  have hb := reaches_base h
  refine ⟨hb.nodup, hb.opened, hb.bad, hb.nofault, fun hstop => ?_,
    fun fd hpc => ?_⟩
  · have hperm := hb.opened
    rw [hb.stopped hstop] at hperm
    exact hperm.eq_nil
  · rw [hb.opened.length_eq]
    exact closeAll_ends _ hb hpc rfl

/-- A request that succeeds and attaches the context `ctx`. -/
def served (ctx : Option Nat) (t : Int) : ReqResult := ⟨true, ctx, none, 0, t⟩

/-- A request that fails. -/
def failed (ctx : Option Nat) : ReqResult := ⟨false, ctx, none, 0, 0⟩

/-- A pass without a request, in which a connection is accepted. -/
def connect (fd : Int) (sessions : Nat) : List Act :=
  [.select [] true] ++ List.replicate (sessions + 1) (.visit (served none 0)) ++
    [.accept (some fd) true]

/-- Two connections; the server is stopped. -/
def twoStopped : List Act :=
  connect 5 0 ++ connect 6 1 ++
    [.stop, .select [] false, .ctrl, .closeOne, .closeOne, .closeOne]

theorem sockets_conserved_twoStopped : ∃ s,
    (serverMachine false).run (.start 2) twoStopped = some s ∧
    s.pc = .stopped ∧ s.conns = 2 ∧ s.opened = [] := by
  have h : ((serverMachine false).runIf NamesSocket (.start 2)
      twoStopped).map (fun s => (s.pc, s.conns)) = some (.stopped, 2) := by
    decide
  simp only [Option.map_eq_some_iff, Prod.mk.injEq] at h
  obtain ⟨s, hrun, hpc, hconns⟩ := h
  exact ⟨s, (Machine.meets_of_runIf hrun).1, hpc, hconns,
    (sockets_conserved (Machine.reaches_of_runIf hrun)).2.2.2.2.1 hpc⟩

end EspAdf.Ports.HttpdServer
