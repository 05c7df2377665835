import EspAdf.Ports.HttpdServer

/-!
# Does a pass of the HTTP server handle every session?

The loop over the sessions has no index: its position is the descriptor of the
session it handled last, and when that one is closed, the descriptor in front
of it.  `Passing` says what a pass has done and still has to do.
`pass_serves_once` proves that every session with data is handled once,
whichever sessions are closed on the way, and that the loop ends.
-/

namespace EspAdf.Ports.HttpdServer

open EspAdf.Verified
open EspAdf.Verified.Cursor
open EspAdf.Ports.HttpdSess

variable {s s' : Server}

/-- The sessions of a list that the pass has to handle. -/
def Server.toHandle (s : Server) (ready : List Int) (fds : List Int) :
    List Int :=
  fds.filter (s.hasData ready)

/-- What a pass has done and still has to do. -/
structure Passing (s : Server) : Prop where
  once : s.targets.Nodup
  loop : ∀ fd ready listen, s.pc = .sessions fd ready listen →
    ∃ todo, Stands (slots s.sd) (cursor fd) todo ∧
      s.targets = s.handled ++ s.toHandle ready todo
  ends : ∀ listen, s.pc = .accept listen → s.handled = s.targets

/-- Outside a pass there is nothing to show. -/
theorem Passing.of_pc (h : Passing s) (htargets : s'.targets = s.targets)
    (h₁ : ∀ fd ready listen, s'.pc ≠ .sessions fd ready listen)
    (h₂ : ∀ listen, s'.pc ≠ .accept listen) : Passing s' :=
  ⟨htargets ▸ h.once,
    fun fd ready listen heq => absurd heq (h₁ fd ready listen),
    fun listen heq => absurd heq (h₂ listen)⟩

/-- Another task does not interfere with a pass. -/
theorem Passing.congr (h : Passing s) (hpc : s'.pc = s.pc)
    (htargets : s'.targets = s.targets) (hhandled : s'.handled = s.handled)
    (hsd : slots s'.sd = slots s.sd)
    (hpending : ∀ fd, httpdSessPending s'.sd fd = httpdSessPending s.sd fd) :
    Passing s' := by
  refine ⟨htargets ▸ h.once, ?_, ?_⟩
  · intro fd ready listen heq
    obtain ⟨todo, hstands, hsplit⟩ := h.loop fd ready listen (hpc ▸ heq)
    refine ⟨todo, hsd ▸ hstands, ?_⟩
    rw [htargets, hhandled, hsplit]
    refine congrArg _ (List.filter_congr fun x _ => ?_)
    rw [Server.hasData, Server.hasData, hpending]
  · intro listen heq
    rw [hhandled, htargets]
    exact h.ends listen (hpc ▸ heq)

theorem Passing.start (hnodup : (openFds s.sd).Nodup) (ready : List Int)
    (listen : Bool) : Passing (s.startPass ready listen) := by
  refine ⟨hnodup.filter _, ?_, by simp [Server.startPass]⟩
  intro fd ready' listen' heq
  cases heq
  exact ⟨_, .start _, rfl⟩

/-- What the loop finds next. -/
theorem loop_next (hb : Base s) {fd : Int} {todo : List Int}
    (h : Stands (slots s.sd) (cursor fd) todo) :
    httpdSessIterate s.sd fd = todo.head?.getD (-1) ∧
      (httpdSessIterate s.sd fd = -1 → todo = []) := by
  have hiter : httpdSessIterate s.sd fd = todo.head?.getD (-1) := by
    rw [iterate_eq, h.next hb.nodup]
  refine ⟨hiter, fun hend => ?_⟩
  rw [hiter] at hend
  cases todo with
  | nil => rfl
  | cons k rest =>
      obtain ⟨-, -, -, hne⟩ :=
        mem_openFds.1 (h.suffix.subset List.mem_cons_self)
      exact absurd hend hne

/-- A round of the loop moves on by one session. -/
theorem visit_stands (hb : Base s) {fd k : Int} (ready : List Int)
    (listen : Bool) {rest : List Int}
    (h : Stands (slots s.sd) (cursor fd) (k :: rest)) (r : ReqResult) :
    ∃ fd', (s.visit k ready listen r).pc = .sessions fd' ready listen ∧
      Stands (slots (s.visit k ready listen r).sd) (cursor fd') rest ∧
      (s.visit k ready listen r).targets = s.targets ∧
      (s.visit k ready listen r).handled ++
          (s.visit k ready listen r).toHandle ready rest =
        s.handled ++ s.toHandle ready (k :: rest) := by
  have hmem : k ∈ openFds s.sd := h.suffix.subset List.mem_cons_self
  have hnodup : (k :: rest).Nodup := h.suffix.sublist.nodup hb.nodup
  have hout : k ∉ rest := (List.nodup_cons.1 hnodup).1
  obtain ⟨e₀, he₀, hfd₀, hk⟩ := mem_openFds.1 hmem
  have hcursor : cursor k = some k := if_neg hk
  -- the rest of the pass does not see the slot of this session
  have hrest : ∀ (t : Server) {e e' : SockDb}, Replaces s.sd t.sd e e' →
      e.fd = k → (e'.fd = k ∨ e'.fd = -1) →
      t.toHandle ready rest = s.toHandle ready rest := by
    intro t e e' hsd he he'
    refine List.filter_congr fun x hx => ?_
    have hxk : x ≠ k := fun heq => hout (heq ▸ hx)
    have hx1 : x ≠ -1 := by
      obtain ⟨-, -, -, hne⟩ := mem_openFds.1
        (h.suffix.subset (List.mem_cons_of_mem _ hx))
      exact hne
    rw [Server.hasData, Server.hasData, hsd.pending (he ▸ hxk)]
    rcases he' with he' | he' <;> rw [he'] <;> assumption
  by_cases hdata : s.hasData ready k = true
  · obtain ⟨i, hi⟩ := get_of_mem ⟨e₀, he₀, hfd₀⟩
    obtain ⟨e, hget, hek, hsplit⟩ := get_split hi
    have htodo : s.handled ++ s.toHandle ready (k :: rest) =
        (s.handled ++ [k]) ++ s.toHandle ready rest := by
      rw [Server.toHandle, List.filter_cons_of_pos hdata, List.append_assoc]
      rfl
    rw [htodo, Server.visit, if_pos hdata, hi]
    simp only [Server.process, hget, Option.bind_some, handler_sd]
    by_cases hok : r.ok = true
    · simp only [if_pos hok]
      refine ⟨k, rfl, ?_, handler_targets _ _ _, ?_⟩
      · rw [hcursor, (hsplit _).slots_eq rfl]
        exact h.keep
      · exact congrArg _ (hrest _ (hsplit _) hek (.inl hek))
    · simp only [if_neg hok]
      have hsame : s.sd.modify i (fun e => e) = s.sd :=
        (hsplit fun e => e).eq_self
      refine ⟨_, rfl, ?_, ?_, ?_⟩
      · simp only [hsame, Server.delete, close_sd]
        rw [delete_slots _ hk, delete_returns _ hk]
        exact h.clear hb.nodup
      · exact (close_targets _ _).trans (handler_targets _ _ _)
      · obtain ⟨e', hek', hsd, -⟩ := delete_replaces hmem
        have hhandled : ∀ t : Server, ((t.close k).delete k).handled =
            t.handled := fun t => close_handled t k
        simp only [hhandled]
        refine congrArg _ (hrest _ ?_ hek' (.inr (delete_fd e')))
        simp only [hsame, Server.delete, close_sd]
        exact hsd
  · rw [Server.visit, if_neg hdata]
    refine ⟨k, rfl, hcursor ▸ h.keep, rfl, congrArg _ ?_⟩
    exact (List.filter_cons_of_neg hdata).symm

theorem Passing.step (h : Passing s) (hb : Base s) {lru : Bool} {a : Act}
    (hs : serverStep lru s a = some s') (hb' : Base s') : Passing s' := by
  cases a with
  | select ready listen =>
      simp only [serverStep, Option.ite_none_right_eq_some] at hs
      obtain ⟨-, hs⟩ := hs
      split at hs
      · cases hs
        exact h.of_pc rfl (by simp) (by simp)
      · obtain ⟨-, hs⟩ := Option.ite_none_right_eq_some.1 hs
        cases hs
        exact .start hb.nodup ready listen
  | ctrl =>
      simp only [serverStep] at hs
      split at hs
      · rename_i ready listen msg rest hpc hctrl
        split at hs
        · obtain ⟨hfault, -⟩ := hb.sessClose hctrl ready listen
          rw [if_neg hfault] at hs
          cases hs
          exact .start hb'.nodup ready listen
        · cases hs
          exact .start (s := { s with ctrl := rest }) hb.nodup ready listen
        · cases hs
          exact h.of_pc rfl (by simp) (by simp)
      · cases hs
  | visit r =>
      simp only [serverStep] at hs
      split at hs
      · rename_i fd ready listen hpc
        cases hs
        obtain ⟨todo, hstands, hsplit⟩ := h.loop fd ready listen hpc
        obtain ⟨hiter, hend⟩ := loop_next hb hstands
        split
        · rename_i hlast
          refine ⟨h.once, by simp, fun _ _ => ?_⟩
          rw [hend hlast] at hsplit
          exact ((List.append_nil _).symm.trans hsplit.symm)
        · rename_i hmore
          cases todo with
          | nil => exact absurd hiter hmore
          | cons k rest =>
              rw [hiter, List.head?_cons, Option.getD_some]
              obtain ⟨fd', hpc', hstands', htargets, hhandled⟩ :=
                visit_stands hb ready listen hstands r
              refine ⟨htargets ▸ h.once, ?_, ?_⟩
              · intro fd'' ready' listen' heq
                cases hpc'.symm.trans heq
                exact ⟨rest, hstands', by rw [hhandled, htargets, hsplit]⟩
              · intro listen' heq
                cases hpc'.symm.trans heq
      · cases hs
  | accept newFd sent =>
      simp only [serverStep] at hs
      split at hs
      · split at hs
        · obtain ⟨t, ht, rfl⟩ := Option.map_eq_some_iff.1 hs
          have htargets : t.targets = s.targets := by
            unfold Server.acceptConn at ht
            split at ht
            · split at ht
              · cases ht
                split <;> rfl
              · cases ht
                rfl
            · split at ht
              · cases ht
                rfl
              · simp only [Option.ite_none_right_eq_some] at ht
                obtain ⟨-, ht⟩ := ht
                split at ht
                · cases ht
                  rfl
                · cases ht
                  exact close_targets _ _
          exact h.of_pc htargets (by simp) (by simp)
        · cases hs
          exact h.of_pc rfl (by simp) (by simp)
      · cases hs
  | closeOne =>
      simp only [serverStep] at hs
      split at hs
      · cases hs
        split
        · exact h.of_pc rfl (by simp) (by simp)
        · exact h.of_pc (close_targets _ _) (by simp) (by simp)
      · cases hs
  | trigger sockfd =>
      cases hs
      split
      · exact h.congr rfl rfl rfl rfl fun _ => rfl
      · exact h
  | work =>
      cases hs
      exact h.congr rfl rfl rfl rfl fun _ => rfl
  | stop =>
      cases hs
      exact h.congr rfl rfl rfl rfl fun _ => rfl
  | updateTimestamp sockfd t =>
      cases hs
      exact h.congr rfl rfl rfl (slots_updateTimestamp _ _ _)
        (pending_updateTimestamp _ _ _)

/-- The loop over the sessions ends, and has handled those with data. -/
theorem loop_ends (lru : Bool) {ready : List Int} {listen : Bool} :
    ∀ (todo : List Int) {s : Server} {fd : Int}, Base s →
    s.pc = .sessions fd ready listen →
    Stands (slots s.sd) (cursor fd) todo →
    ∀ rs : List ReqResult, rs.length = todo.length + 1 →
    ∃ s', (serverMachine lru).run s (rs.map .visit) = some s' ∧
      s'.pc = .accept listen ∧
      s'.handled = s.handled ++ s.toHandle ready todo := by
  intro todo
  induction todo with
  | nil =>
      intro s fd hb hpc hstands rs hlen
      obtain ⟨r, rfl⟩ := List.length_eq_one_iff.1 hlen
      obtain ⟨hiter, -⟩ := loop_next hb hstands
      refine ⟨{ s with pc := .accept listen }, ?_, rfl,
        (List.append_nil _).symm⟩
      simp [Machine.run_cons, serverMachine, serverStep, hpc, hiter]
  | cons k rest ih =>
      intro s fd hb hpc hstands rs hlen
      obtain ⟨r, rs, rfl⟩ := List.exists_cons_of_length_eq_add_one hlen
      obtain ⟨hiter, -⟩ := loop_next hb hstands
      obtain ⟨-, -, -, hk⟩ :=
        mem_openFds.1 (hstands.suffix.subset List.mem_cons_self)
      have hstep : serverStep lru s (.visit r) =
          some (s.visit k ready listen r) := by
        simp only [serverStep, hpc, hiter, List.head?_cons, Option.getD_some,
          if_neg hk]
      obtain ⟨fd', hpc', hstands', -, hhandled⟩ :=
        visit_stands hb ready listen hstands r
      obtain ⟨s', hrun, hend, hall⟩ :=
        ih (hb.step (by simp [NamesSocket]) hstep) hpc' hstands' rs
          (by simpa using hlen)
      refine ⟨s', ?_, hend, hall.trans hhandled⟩
      rw [List.map_cons, Machine.run_cons]
      show (serverStep lru s (.visit r)).bind _ = _
      rw [hstep]
      exact hrun

theorem Base.startPass (h : Base s) (ready : List Int) (listen : Bool) :
    Base (s.startPass ready listen) :=
  ⟨⟨h.nodup, h.opened, h.used, h.free, h.bad⟩, h.queued,
    by simp [Server.startPass], by simp [Server.startPass],
    by simp [Server.startPass]⟩

/-- **A pass serves every session with data once**, in the order of the slots,
whichever of them are closed on the way and whatever other tasks do meanwhile;
and it ends after one round for each session and one more. -/
theorem pass_serves_once {lru : Bool} {n : Nat}
    (h : (serverMachine lru).Reaches NamesSocket (.start n) s) :
    (∀ listen, s.pc = .accept listen →
      s.handled = s.targets ∧ s.handled.Nodup) ∧
    ∀ ready listen, ∀ rs : List ReqResult,
      rs.length = (openFds s.sd).length + 1 →
      ∃ s', (serverMachine lru).run (s.startPass ready listen)
          (rs.map .visit) = some s' ∧
        s'.pc = .accept listen ∧
        s'.handled = (openFds s.sd).filter (s.hasData ready) := by
  have hpassing : Base s ∧ Passing s := by
    refine h.invariant (I := fun s => Base s ∧ Passing s)
      ⟨.start n, ⟨List.nodup_nil, nofun, nofun⟩⟩ ?_
    rintro u a v ⟨hb, hp⟩ ha hs
    have hb' := hb.step ha hs
    exact ⟨hb', hp.step hb hs hb'⟩
  obtain ⟨hb, hp⟩ := hpassing
  refine ⟨fun listen hpc => ⟨hp.ends listen hpc, ?_⟩, ?_⟩
  · rw [hp.ends listen hpc]
    exact hp.once
  · intro ready listen rs hlen
    obtain ⟨s', hrun, hpc, hhandled⟩ := loop_ends lru _
      (hb.startPass ready listen) rfl (.start _) rs hlen
    exact ⟨s', hrun, hpc, hhandled⟩

/-- Three sessions, of which the first is closed in the pass. -/
def threeSessions : List Act :=
  connect 5 0 ++ connect 6 1 ++ connect 7 2 ++
    [.select [5, 7] false, .visit (failed none)] ++
    List.replicate 3 (.visit (served none 0))

theorem pass_serves_once_three : ∃ s,
    (serverMachine false).run (.start 3) threeSessions = some s ∧
    s.targets = [5, 7] ∧ openFds s.sd = [6, 7] ∧ s.handled = s.targets := by
  have h : ((serverMachine false).runIf NamesSocket (.start 3)
      threeSessions).map (fun s => (s.pc, s.targets, openFds s.sd)) =
      some (.accept false, [5, 7], [6, 7]) := by
    decide
  simp only [Option.map_eq_some_iff, Prod.mk.injEq] at h
  obtain ⟨s, hrun, hpc, htargets, hopen⟩ := h
  exact ⟨s, (Machine.meets_of_runIf hrun).1, htargets, hopen,
    ((pass_serves_once (Machine.reaches_of_runIf hrun)).1 false hpc).1⟩

end EspAdf.Ports.HttpdServer
