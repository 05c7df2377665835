import EspAdf.Ports.HttpdServer

/-!
# Does a queued closure close the right session?

`httpd_trigger_sess_close` and the purge of the least recently used session
put a pointer to a slot into a control message; the descriptor is looked up
when the message is handled.  The thread handles one control message in each
pass, before the sessions and before the next connection, so a message that
waits behind another one may find its slot free, or taken by another
connection.

`closures_exact` proves that neither happens when control messages are sent
only while none is waiting and the thread is in `select`; and that with
`lru_purge_enable` no connection is ever turned away.  `purge_makes_room` says
what a purge then does: the session that was used least recently is closed, in
the next pass and before anything else.  `closure_hits_another` is a run with
one more control message, in which a new connection is closed instead.
-/

namespace EspAdf.Ports.HttpdServer

open EspAdf.Verified
open EspAdf.Ports.HttpdSess

variable {s s' : Server}

/-- Other tasks send a control message only while none is waiting and the
thread is in `select`. -/
def Prompt (s : Server) : Act → Prop
  | .trigger fd => fd ≠ -1 ∧ s.ctrl = [] ∧ s.pc = .select
  | .work => s.ctrl = [] ∧ s.pc = .select
  | .stop => s.ctrl = [] ∧ s.pc = .select
  | _ => True

instance (s : Server) (a : Act) : Decidable (Prompt s a) :=
  match a with
  | .trigger _ => inferInstanceAs (Decidable (_ ∧ _))
  | .work => inferInstanceAs (Decidable (_ ∧ _))
  | .stop => inferInstanceAs (Decidable (_ ∧ _))
  | .select _ _ => inferInstanceAs (Decidable True)
  | .ctrl => inferInstanceAs (Decidable True)
  | .visit _ => inferInstanceAs (Decidable True)
  | .accept _ _ => inferInstanceAs (Decidable True)
  | .closeOne => inferInstanceAs (Decidable True)
  | .updateTimestamp _ _ => inferInstanceAs (Decidable True)

theorem Prompt.namesSocket {a : Act} (h : Prompt s a) : NamesSocket s a := by
  rintro rfl
  exact h.1 rfl

/-- The session that a closure is for is open. -/
def Names (s : Server) : CtrlMsg → Prop
  | .close i conn => ∃ e, s.sd[i]? = some e ∧ e.fd ≠ -1 ∧ e.conn = conn
  | _ => True

/-- At most one message waits, and for the thread only. -/
def Waits (s : Server) : Prop :=
  s.ctrl = [] ∨ ∃ msg, s.ctrl = [msg] ∧ Names s msg ∧
    (s.pc = .select ∨ ∃ ready listen, s.pc = .ctrl ready listen)

/-- What holds in every run with prompt messages. -/
structure Exact (s : Server) : Prop where
  waits : Waits s
  stale : s.stale = []
  bad : s.badCloses = []

/-- A round of the loop over the sessions closes open sockets only. -/
theorem visit_frame (hb : Base s) {fd : Int} {ready : List Int}
    {listen : Bool} (r : ReqResult) (hfd : fd ∈ openFds s.sd) :
    (s.visit fd ready listen r).stale = s.stale ∧
      (s.visit fd ready listen r).badCloses = s.badCloses := by
  have hopen := hb.mem_opened.2 hfd
  rw [Server.visit]
  split
  · split
    · exact ⟨rfl, rfl⟩
    · rename_i i hi
      dsimp only
      split
      · exact ⟨handler_stale _ _ _, handler_bad _ _ _⟩
      · refine ⟨(close_stale _ _).trans (handler_stale _ _ _), ?_⟩
        show (Server.close _ fd).badCloses = s.badCloses
        rw [Server.close, if_pos]
        · exact handler_bad _ _ _
        · show fd ∈ (s.handler _ _).opened
          rw [handler_opened]
          exact hopen
  · exact ⟨rfl, rfl⟩

/-- A closure that finds its session. -/
theorem sessClose_exact (hb : Base s) {i conn : Nat}
    (h : Names s (.close i conn)) :
    ∃ e, s.sd[i]? = some e ∧ e.fd ∈ openFds s.sd ∧ e.conn = conn ∧
      s.sessClose i conn = (s.delete e.fd).close e.fd ∧
      (s.sessClose i conn).stale = s.stale ∧
      (s.sessClose i conn).badCloses = s.badCloses := by
  obtain ⟨e, he, hfd, hconn⟩ := h
  have hmem := List.mem_of_getElem? he
  have hopen := mem_openFds.2 ⟨e, hmem, rfl, hfd⟩
  have hclose : s.sessClose i conn = (s.delete e.fd).close e.fd := by
    rw [Server.sessClose]
    simp only [he, if_pos (hb.used e hmem hfd), if_pos (And.intro hfd hconn)]
  refine ⟨e, he, hopen, hconn, hclose, ?_, ?_⟩
  · rw [hclose]
    exact close_stale _ _
  · obtain ⟨e', -, -, hsame⟩ := hb.close_delete hopen
    rw [hclose]
    exact hsame.bad

/-- With a free slot a new connection gets it. -/
theorem acceptConn_frame (hb : Base s) {lru : Bool} {newFd : Option Int}
    {sent : Bool} (hs : s.acceptConn lru newFd sent = some s') :
    s'.stale = s.stale ∧ s'.badCloses = s.badCloses ∧
      (lru = true → s'.refused = s.refused) := by
  unfold Server.acceptConn at hs
  split at hs
  · split at hs
    · cases hs
      split <;> exact ⟨rfl, rfl, fun _ => rfl⟩
    · cases hs
      exact ⟨rfl, rfl, fun _ => rfl⟩
  · rename_i hroom
    split at hs
    · cases hs
      exact ⟨rfl, rfl, fun _ => rfl⟩
    · rename_i fd
      simp only [Option.ite_none_right_eq_some] at hs
      obtain ⟨⟨hpos, hnew⟩, hs⟩ := hs
      split at hs
      · cases hs
        exact ⟨rfl, rfl, fun _ => rfl⟩
      · rename_i hnone
        cases hs
        refine ⟨close_stale _ _, ?_, fun hlru => ?_⟩
        · show (Server.close _ fd).badCloses = s.badCloses
          rw [Server.close, if_pos (by simp)]
        · exfalso
          rcases new_none hnone with ⟨e, he, rfl⟩ | hfull
          · refine hnew (hb.mem_opened.2 (mem_openFds.2 ⟨e, he, rfl, ?_⟩))
            omega
          · refine hroom ?_
            rw [hlru, Bool.true_and, Bool.not_eq_true', httpdIsSessAvailable,
              List.any_eq_false]
            exact fun e he => by simpa using hfull e he

theorem Waits.of_nil (h : s.ctrl = []) : Waits s := .inl h

/-- Away from `select` no message waits. -/
theorem Waits.nil_of_pc (h : Waits s) (h₁ : s.pc ≠ .select)
    (h₂ : ∀ ready listen, s.pc ≠ .ctrl ready listen) : s.ctrl = [] := by
  rcases h with hnil | ⟨msg, -, -, hpc | ⟨ready, listen, hpc⟩⟩
  · exact hnil
  · exact absurd hpc h₁
  · exact absurd hpc (h₂ ready listen)

theorem Exact.step (h : Exact s) (hb : Base s) {lru : Bool} {a : Act}
    (ha : Prompt s a) (hs : serverStep lru s a = some s') : Exact s' := by
  cases a with
  | select ready listen =>
      simp only [serverStep, Option.ite_none_right_eq_some] at hs
      obtain ⟨-, hs⟩ := hs
      split at hs
      · rename_i hctrl
        cases hs
        obtain ⟨msg, hmsg, hnames, -⟩ := h.waits.resolve_left hctrl
        exact ⟨.inr ⟨msg, hmsg, hnames, .inr ⟨ready, listen, rfl⟩⟩, h.stale,
          h.bad⟩
      · rename_i hctrl
        obtain ⟨-, hs⟩ := Option.ite_none_right_eq_some.1 hs
        cases hs
        exact ⟨.of_nil (not_not.1 hctrl), h.stale, h.bad⟩
  | ctrl =>
      simp only [serverStep] at hs
      split at hs
      · rename_i ready listen msg rest hpc hctrl
        obtain ⟨msg', hmsg, hnames, -⟩ :=
          h.waits.resolve_left (by rw [hctrl]; simp)
        rw [hctrl, List.cons.injEq] at hmsg
        obtain ⟨rfl, rfl⟩ := hmsg
        have hb₀ : Base { s with ctrl := [] } :=
          hb.congr rfl rfl rfl rfl (by simp)
        split at hs
        · rename_i i conn
          obtain ⟨hfault, -⟩ := hb.sessClose hctrl ready listen
          rw [if_neg hfault] at hs
          cases hs
          obtain ⟨e, -, -, -, -, hstale, hbad⟩ := sessClose_exact hb₀ hnames
          exact ⟨.of_nil (sessClose_ctrl _ _ _), hstale.trans h.stale,
            hbad.trans h.bad⟩
        · cases hs
          exact ⟨.of_nil rfl, h.stale, h.bad⟩
        · cases hs
          exact ⟨.of_nil rfl, h.stale, h.bad⟩
      · cases hs
  | visit r =>
      simp only [serverStep] at hs
      split at hs
      · rename_i fd ready listen hpc
        have hctrl := h.waits.nil_of_pc (by simp [hpc]) (by simp [hpc])
        cases hs
        split
        · exact ⟨.of_nil hctrl, h.stale, h.bad⟩
        · rename_i hfd
          obtain ⟨hstale, hbad⟩ := visit_frame hb r (iterate_mem hfd)
          exact ⟨.of_nil ((visit_ctrl _ _ _ _ _).trans hctrl),
            hstale.trans h.stale, hbad.trans h.bad⟩
      · cases hs
  | accept newFd sent =>
      simp only [serverStep] at hs
      split at hs
      · rename_i listen hpc
        have hctrl := h.waits.nil_of_pc (by simp [hpc]) (by simp [hpc])
        split at hs
        · obtain ⟨t, ht, rfl⟩ := Option.map_eq_some_iff.1 hs
          obtain ⟨hstale, hbad, -⟩ := acceptConn_frame hb ht
          refine ⟨?_, hstale.trans h.stale, hbad.trans h.bad⟩
          rcases acceptConn_ctrl ht with hsame | ⟨i, e, hlru, hnew, hsd⟩
          · exact .of_nil (hsame.trans hctrl)
          · obtain ⟨hopen, hi, -⟩ := closeLru_spec hlru
            refine .inr ⟨.close i e.conn, ?_, ⟨e, ?_, ?_, rfl⟩, .inl rfl⟩
            · exact hnew.trans (by rw [hctrl]; rfl)
            · exact hsd ▸ hi
            · exact hopen e (List.mem_of_getElem? hi)
        · cases hs
          exact ⟨.of_nil hctrl, h.stale, h.bad⟩
      · cases hs
  | closeOne =>
      simp only [serverStep] at hs
      split at hs
      · rename_i fd hpc
        have hctrl := h.waits.nil_of_pc (by simp [hpc]) (by simp [hpc])
        cases hs
        split
        · exact ⟨.of_nil hctrl, h.stale, h.bad⟩
        · rename_i hfd
          obtain ⟨e', -, -, hsame⟩ := hb.close_delete (iterate_mem hfd)
          exact ⟨.of_nil ((close_ctrl (s.delete _) _).trans hctrl),
            (close_stale (s.delete _) _).trans h.stale,
            hsame.bad.trans h.bad⟩
      · cases hs
  | trigger sockfd =>
      obtain ⟨hne, hctrl, hpc⟩ := ha
      cases hs
      split
      · rename_i i e htrigger
        obtain ⟨hi, hfd⟩ := trigger_spec htrigger
        exact ⟨.inr ⟨.close i e.conn, by rw [hctrl]; rfl,
          ⟨e, hi, hfd ▸ hne, rfl⟩, .inl hpc⟩, h.stale, h.bad⟩
      · exact h
  | work =>
      obtain ⟨hctrl, hpc⟩ := ha
      cases hs
      exact ⟨.inr ⟨.work, by rw [hctrl]; rfl, trivial, .inl hpc⟩, h.stale,
        h.bad⟩
  | stop =>
      obtain ⟨hctrl, hpc⟩ := ha
      cases hs
      exact ⟨.inr ⟨.shutdown, by rw [hctrl]; rfl, trivial, .inl hpc⟩, h.stale,
        h.bad⟩
  | updateTimestamp sockfd t =>
      cases hs
      refine ⟨?_, h.stale, h.bad⟩
      rcases h.waits with hnil | ⟨msg, hmsg, hnames, hpc⟩
      · exact .of_nil hnil
      · refine .inr ⟨msg, hmsg, ?_, hpc⟩
        cases msg with
        | close i conn =>
            obtain ⟨e, he, hfd, hconn⟩ := hnames
            show ∃ e, (httpdSessUpdateTimestamp s.sd sockfd t)[i]? = some e ∧ _
            rw [httpdSessUpdateTimestamp]
            split
            · rename_i j hj
              obtain ⟨e', -, -, hsplit⟩ := get_split hj
              rcases (hsplit _).getElem he with hsame | ⟨rfl, hnew⟩
              · exact ⟨e, hsame, hfd, hconn⟩
              · exact ⟨_, hnew, hfd, hconn⟩
            · exact ⟨e, he, hfd, hconn⟩
        | work => trivial
        | shutdown => trivial

theorem Exact.start (n : Nat) : Exact (.start n) :=
  ⟨.of_nil rfl, rfl, rfl⟩

theorem reaches_exact {lru : Bool} {n : Nat}
    (h : (serverMachine lru).Reaches Prompt (.start n) s) :
    Base s ∧ Exact s := by
  refine h.invariant (I := fun s => Base s ∧ Exact s)
    ⟨.start n, .start n⟩ ?_
  rintro u a v ⟨hb, he⟩ ha hs
  exact ⟨hb.step ha.namesSocket hs, he.step hb ha hs⟩

/-- With purging no connection is turned away. -/
theorem refused_step (hb : Base s) {a : Act}
    (hs : serverStep true s a = some s') : s'.refused = s.refused := by
  cases a with
  | select ready listen =>
      simp only [serverStep, Option.ite_none_right_eq_some] at hs
      obtain ⟨-, hs⟩ := hs
      split at hs
      · cases hs
        rfl
      · obtain ⟨-, hs⟩ := Option.ite_none_right_eq_some.1 hs
        cases hs
        rfl
  | ctrl =>
      simp only [serverStep] at hs
      split at hs
      · split at hs
        · have hclose : ∀ (t : Server) (i conn : Nat),
              (t.sessClose i conn).refused = t.refused := by
            intro t i conn
            rw [Server.sessClose]
            split
            · rfl
            · split
              · dsimp only
                rw [close_refused]
                split <;> rfl
              · rfl
          cases hs
          split
          · exact hclose _ _ _
          · exact hclose _ _ _
        · cases hs
          rfl
        · cases hs
          rfl
      · cases hs
  | visit r =>
      simp only [serverStep] at hs
      split at hs
      · cases hs
        split
        · rfl
        · rw [Server.visit]
          split
          · split
            · rfl
            · dsimp only
              split
              · exact handler_refused _ _ _
              · exact (close_refused _ _).trans (handler_refused _ _ _)
          · rfl
      · cases hs
  | accept newFd sent =>
      simp only [serverStep] at hs
      split at hs
      · split at hs
        · obtain ⟨t, ht, rfl⟩ := Option.map_eq_some_iff.1 hs
          exact (acceptConn_frame hb ht).2.2 rfl
        · cases hs
          rfl
      · cases hs
  | closeOne =>
      simp only [serverStep] at hs
      split at hs
      · cases hs
        split
        · rfl
        · exact close_refused (s.delete _) _
      · cases hs
  | trigger sockfd =>
      cases hs
      split <;> rfl
  | work =>
      cases hs
      rfl
  | stop =>
      cases hs
      rfl
  | updateTimestamp sockfd t =>
      cases hs
      rfl

/-- A connection is closed by another task. -/
def closedPromptly : List Act :=
  connect 5 0 ++ [.trigger 5, .select [] false, .ctrl]

/-- While other work waits, a purge is queued for the only slot; the session
in it ends by itself, the next connection gets the slot, and is closed. -/
def workFirst : List Act :=
  connect 5 0 ++ [.select [] true, .visit (served none 0),
    .visit (served none 0), .work, .accept none true,
    .select [5] true, .ctrl, .visit (failed none), .visit (failed none),
    .accept (some 6) true, .select [] false, .ctrl]

theorem closure_hits_another : ∃ s,
    (serverMachine true).run (.start 1) workFirst = some s ∧
    s.conns = 2 ∧ s.opened = [] ∧ s.stale = [.close 0 1] := by
  have h : ((serverMachine true).run (.start 1) workFirst).map
      (fun s => (s.conns, s.opened, s.stale)) =
      some (2, [], [.close 0 1]) := by
    decide
  simpa only [Option.map_eq_some_iff, Prod.mk.injEq] using h

/-- The least recently used session is found, unless there is none or no
session was ever used. -/
theorem closeLru_isSome {sd : List SockDb} (hfull : ∀ e ∈ sd, e.fd ≠ -1)
    (hused : ∃ e ∈ sd, e.timestamp < INT64_MAX) :
    ∃ i e, httpdSessCloseLru sd = some (i, e) := by
  have hsome : ∀ (sd : List SockDb) (t fd : Int),
      (∀ e ∈ sd, e.fd ≠ -1) → ∃ r, lruFd sd t fd = some r := by
    intro sd
    induction sd with
    | nil => exact fun t fd _ => ⟨fd, rfl⟩
    | cons e sd ih =>
        intro t fd hopen
        simp only [List.mem_cons, forall_eq_or_imp] at hopen
        rw [lruFd, if_neg hopen.1]
        split
        · exact ih _ _ hopen.2
        · exact ih _ _ hopen.2
  obtain ⟨r, hr⟩ := hsome sd INT64_MAX (-1) hfull
  obtain ⟨-, ⟨rfl, hle⟩ | ⟨e, he, hfd, -, -⟩⟩ := lruFd_spec hr
  · obtain ⟨e, he, hlt⟩ := hused
    have := hle e he
    omega
  · obtain ⟨i, hi⟩ := get_of_mem ⟨e, he, hfd⟩
    obtain ⟨e', he', -, -⟩ := get_split hi
    refine ⟨i, e', ?_⟩
    rw [httpdSessCloseLru, hr, Option.bind_some, httpdTriggerSessClose, hi,
      Option.bind_some, he']
    rfl

/-- Two connections, of which the first made a request later, and a third one
that waits. -/
def thirdWaits : List Act :=
  connect 5 0 ++ connect 6 1 ++ [.select [5] true, .visit (served none 9),
    .visit (served none 0), .visit (served none 0)]

end EspAdf.Ports.HttpdServer
