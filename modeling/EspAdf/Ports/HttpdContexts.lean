import EspAdf.Ports.HttpdServer

/-!
# Are the contexts of HTTP sessions freed once?

A handler may attach a context to its session, replace it or take it away; the
request has a copy of the pointer, which `httpd_req_delete` stores in the
session again, but only when the request succeeds.  When it fails, the session
is closed with the context that it had before the request.

`contexts_freed_once` proves that every context is freed once in exactly the
runs in which no failing request has changed the context: after such a request
a context was leaked or freed twice.
-/

namespace EspAdf.Ports.HttpdServer

open EspAdf.Verified
open EspAdf.Ports.HttpdSess

variable {s s' : Server}

/-- The contexts of the sessions. -/
def ctxs (sd : List SockDb) : List Nat := sd.filterMap SockDb.ctx

/-- A context that a handler attaches is a new allocation. -/
def FreshCtx (s : Server) : Act → Prop
  | .visit r => ∀ e ∈ s.current, r.sessCtx ≠ e.ctx →
      ∀ c ∈ r.sessCtx, c ∉ s.attached
  | _ => True

/-- A handler changes the context of its session only in a request that
succeeds. -/
def Settles (s : Server) : Act → Prop
  | .visit r => ∀ e ∈ s.current, r.sessCtx ≠ e.ctx → r.ok = true
  | _ => True

instance (s : Server) (a : Act) : Decidable (FreshCtx s a) :=
  match a with
  | .visit _ => inferInstanceAs (Decidable (∀ e ∈ _, _))
  | .select _ _ => inferInstanceAs (Decidable True)
  | .ctrl => inferInstanceAs (Decidable True)
  | .accept _ _ => inferInstanceAs (Decidable True)
  | .closeOne => inferInstanceAs (Decidable True)
  | .trigger _ => inferInstanceAs (Decidable True)
  | .work => inferInstanceAs (Decidable True)
  | .stop => inferInstanceAs (Decidable True)
  | .updateTimestamp _ _ => inferInstanceAs (Decidable True)

instance (s : Server) (a : Act) : Decidable (Settles s a) :=
  match a with
  | .visit _ => inferInstanceAs (Decidable (∀ e ∈ _, _))
  | .select _ _ => inferInstanceAs (Decidable True)
  | .ctrl => inferInstanceAs (Decidable True)
  | .accept _ _ => inferInstanceAs (Decidable True)
  | .closeOne => inferInstanceAs (Decidable True)
  | .trigger _ => inferInstanceAs (Decidable True)
  | .work => inferInstanceAs (Decidable True)
  | .stop => inferInstanceAs (Decidable True)
  | .updateTimestamp _ _ => inferInstanceAs (Decidable True)

theorem ctxs_perm {sd sd' : List SockDb} {e e' : SockDb}
    (h : Replaces sd sd' e e') : ∃ rest : List Nat,
      (ctxs sd).Perm (e.ctx.toList ++ rest) ∧
      (ctxs sd').Perm (e'.ctx.toList ++ rest) := by
  obtain ⟨front, back, rfl, rfl, -⟩ := h
  have hsplit : ∀ x : SockDb, (ctxs (front ++ x :: back)).Perm
      (x.ctx.toList ++ (ctxs front ++ ctxs back)) := by
    intro x
    have heq : ctxs (front ++ x :: back) =
        ctxs front ++ x.ctx.toList ++ ctxs back := by
      rw [ctxs, List.filterMap_append, List.append_assoc]
      cases hctx : x.ctx <;> simp [ctxs, hctx]
    rw [heq]
    exact (List.perm_append_comm.append_right _).trans
      (by rw [List.append_assoc])
  exact ⟨_, hsplit e, hsplit e'⟩

/-- What an action does to the contexts: those in the table change, and what
is freed and attached with them. -/
inductive CtxMove (s s' : Server) (a : Act) : Prop where
  /-- A slot has another context than before, or none; what it had is freed,
  and what it has is attached. -/
  | settled (old new rest : List Nat)
      (hs : (ctxs s.sd).Perm (old ++ rest))
      (hs' : (ctxs s'.sd).Perm (new ++ rest))
      (attached : s'.attached = s.attached ++ new)
      (freed : s'.freed = s.freed ++ old)
      (fresh : FreshCtx s a → new.Nodup ∧ ∀ c ∈ new, c ∉ s.attached)
      (ha : Settles s a)
  /-- A request fails after its handler changed the context. -/
  | lost (old new : Option Nat) (rest : List Nat) (hne : new ≠ old)
      (hs : (ctxs s.sd).Perm (old.toList ++ rest))
      (hs' : (ctxs s'.sd).Perm rest)
      (attached : s'.attached = s.attached ++ new.toList)
      (freed : s'.freed = s.freed ++ old.toList ++ old.toList)
      (fresh : FreshCtx s a → ∀ c ∈ new, c ∉ s.attached)
      (ha : ¬Settles s a)

theorem Move.ctxMove (h : Base s) {a : Act} (hm : Move s s' a) :
    CtxMove s s' a := by
  have hother : (∀ r, a = .visit r → s.current = none) → Settles s a := by
    intro hnone
    cases a with
    | visit r =>
        intro e he
        rw [hnone r rfl] at he
        cases he
    | _ => trivial
  have hidle : (∀ r, a ≠ .visit r) → Settles s a := fun ha =>
    hother fun r hr => absurd hr (ha r)
  cases hm with
  | same sd hs ha =>
      exact .settled [] [] _ (.refl _) (sd ▸ .refl _)
        (hs.attached.trans (List.append_nil _).symm)
        (hs.freed.trans (List.append_nil _).symm)
        (fun _ => ⟨List.nodup_nil, nofun⟩) (hother ha)
  | free sd hs bad ha =>
      exact .settled [] [] _ (.refl _) (sd ▸ .refl _)
        (hs.attached.trans (List.append_nil _).symm)
        (hs.freed.trans (List.append_nil _).symm)
        (fun _ => ⟨List.nodup_nil, nofun⟩) (hidle ha)
  | stamped e t sd hs ha =>
      obtain ⟨rest, hold, hnew⟩ := ctxs_perm sd
      exact .settled [] [] _ hold hnew
        (hs.attached.trans (List.append_nil _).symm)
        (hs.freed.trans (List.append_nil _).symm)
        (fun _ => ⟨List.nodup_nil, nofun⟩) (hidle ha)
  | opened e fd conn hfree hpos hnew sd hop hs ha =>
      obtain ⟨rest, hold, hnew⟩ := ctxs_perm sd
      rw [h.free e sd.mem hfree] at hold
      exact .settled [] [] _ hold hnew
        (hs.attached.trans (List.append_nil _).symm)
        (hs.freed.trans (List.append_nil _).symm)
        (fun _ => ⟨List.nodup_nil, nofun⟩) (hidle ha)
  | dropped e hfd sd hs ha =>
      obtain ⟨rest, hold, hnew⟩ := ctxs_perm sd
      rw [(delete_ctxs e).2] at hnew
      exact .settled e.ctx.toList [] _ hold hnew
        (hs.attached.trans (List.append_nil _).symm) hs.freed
        (fun _ => ⟨List.nodup_nil, nofun⟩) (hidle ha)
  | served e r ha hcur hfd hok sd hs =>
      subst ha
      obtain ⟨rest, hold, hnew⟩ := ctxs_perm sd
      have hsettles : Settles s (.visit r) := fun _ _ _ => hok
      by_cases hctx : r.sessCtx = e.ctx
      · have hhandler : s.handler e.ctx r.sessCtx = s := by
          rw [Server.handler, if_pos hctx]
        rw [hhandler] at hs
        rw [show ({ e with
          ctx := r.sessCtx, freeCtx := r.freeCtx
          pendingLen := r.pendingLen,
          timestamp := r.timestamp } : SockDb).ctx = e.ctx from hctx] at hnew
        exact .settled [] [] _ hold hnew
          (hs.attached.trans (List.append_nil _).symm)
          (hs.freed.trans (List.append_nil _).symm)
          (fun _ => ⟨List.nodup_nil, nofun⟩) hsettles
      · rw [Server.handler, if_neg hctx] at hs
        refine .settled e.ctx.toList r.sessCtx.toList _ hold hnew hs.attached
          hs.freed (fun hfresh => ⟨?_, fun c hc => ?_⟩) hsettles
        · cases r.sessCtx <;> simp
        · exact hfresh e hcur hctx c (Option.mem_toList.1 hc)
  | failed e r ha hcur hfd hok sd hs =>
      subst ha
      obtain ⟨rest, hold, hnew⟩ := ctxs_perm sd
      rw [(delete_ctxs e).2] at hnew
      by_cases hctx : r.sessCtx = e.ctx
      · have hhandler : s.handler e.ctx r.sessCtx = s := by
          rw [Server.handler, if_pos hctx]
        rw [hhandler] at hs
        refine .settled e.ctx.toList [] _ hold hnew
          (hs.attached.trans (List.append_nil _).symm) hs.freed
          (fun _ => ⟨List.nodup_nil, nofun⟩) ?_
        intro e' he' hne
        rw [hcur, Option.mem_some_iff] at he'
        exact absurd (he' ▸ hctx) hne
      · rw [Server.handler, if_neg hctx] at hs
        refine .lost e.ctx r.sessCtx _ hctx hold hnew hs.attached hs.freed
          (fun hfresh => hfresh e hcur hctx) fun hsettles => ?_
        have hyes := hsettles e hcur hctx
        rw [hok] at hyes
        cases hyes

/-- Every context that was attached is freed, once, or is in the table. -/
def Settled (s : Server) : Prop := s.attached.Perm (s.freed ++ ctxs s.sd)

/-- A context was freed twice, or is not known to anybody. -/
def Broken (s : Server) : Prop :=
  ∃ c ∈ s.attached, c ∉ s.freed ∧ c ∉ ctxs s.sd ∨ 2 ≤ s.freed.count c

theorem Broken.not_settled (h : Broken s) (hnodup : s.attached.Nodup) :
    ¬Settled s := by
  obtain ⟨c, hc, hlost⟩ := h
  intro hperm
  have hcount := hperm.count_eq c
  rw [List.count_eq_one_of_mem hnodup hc, List.count_append] at hcount
  rcases hlost with ⟨hfreed, hlive⟩ | htwice
  · rw [List.count_eq_zero_of_not_mem hfreed,
      List.count_eq_zero_of_not_mem hlive] at hcount
    omega
  · omega

theorem CtxMove.nodup {a : Act} (hm : CtxMove s s' a) (hfresh : FreshCtx s a)
    (h : s.attached.Nodup) : s'.attached.Nodup := by
  have happend : ∀ new : List Nat, new.Nodup → (∀ c ∈ new, c ∉ s.attached) →
      (s.attached ++ new).Nodup := fun new hnew hout =>
    List.nodup_append.2 ⟨h, hnew, fun a ha b hb heq =>
      hout b hb (heq ▸ ha)⟩
  cases hm with
  | settled old new rest hs hs' attached freed fresh ha =>
      rw [attached]
      exact happend new (fresh hfresh).1 (fresh hfresh).2
  | lost old new rest hne hs hs' attached freed fresh ha =>
      rw [attached]
      refine happend _ (by cases new <;> simp) fun c hc => ?_
      exact fresh hfresh c (Option.mem_toList.1 hc)

theorem Settled.step {a : Act} (h : Settled s) (hm : CtxMove s s' a)
    (hok : Settles s a) : Settled s' := by
  cases hm with
  | settled old new rest hs hs' attached freed fresh ha =>
      rw [Settled, attached, freed]
      have hall : s.attached.Perm (s.freed ++ old ++ rest) :=
        h.trans ((hs.append_left _).trans (by rw [List.append_assoc]))
      refine (hall.append_right new).trans ?_
      refine .trans ?_ (hs'.symm.append_left _)
      rw [List.append_assoc _ rest]
      exact List.perm_append_comm.append_left _
  | lost old new rest hne hs hs' attached freed fresh ha => exact absurd hok ha

theorem Settled.broken {a : Act} (h : Settled s)
    (hm : CtxMove s s' a) (hfresh : FreshCtx s a) (hno : ¬Settles s a) :
    Broken s' := by
  cases hm with
  | settled old new rest hs hs' attached freed fresh ha => exact absurd ha hno
  | lost old new rest hne hs hs' attached freed fresh ha =>
      have hknown : ∀ c, c ∈ s.freed ∨ c ∈ ctxs s.sd → c ∈ s.attached :=
        fun c hc => h.mem_iff.2 (List.mem_append.2 hc)
      cases new with
      | some c =>
          have hc := fresh hfresh c rfl
          have hold : c ∉ old.toList ++ rest := fun hmem =>
            hc (hknown c (.inr (hs.mem_iff.2 hmem)))
          rw [List.mem_append, not_or] at hold
          refine ⟨c, by simp [attached], .inl ⟨?_, ?_⟩⟩
          · rw [freed, List.mem_append, List.mem_append]
            rintro ((hmem | hmem) | hmem)
            · exact hc (hknown c (.inl hmem))
            · exact hold.1 hmem
            · exact hold.1 hmem
          · exact fun hmem => hold.2 (hs'.mem_iff.1 hmem)
      | none =>
          cases old with
          | none => exact absurd rfl hne
          | some o =>
              have ho : o ∈ s.attached :=
                hknown o (.inr (hs.mem_iff.2 (by simp)))
              refine ⟨o, by simpa [attached] using ho, .inr ?_⟩
              rw [freed]
              simp only [Option.toList_some, List.count_append,
                List.count_singleton_self]
              omega

theorem Broken.step {a : Act} (h : Broken s) (hm : CtxMove s s' a)
    (hfresh : FreshCtx s a) : Broken s' := by
  obtain ⟨c, hc, hlost⟩ := h
  cases hm with
  | settled old new rest hs hs' attached freed fresh ha =>
      refine ⟨c, by rw [attached]; exact List.mem_append_left _ hc, ?_⟩
      rw [freed]
      rcases hlost with ⟨hfreed, hlive⟩ | htwice
      · rw [hs.mem_iff, List.mem_append, not_or] at hlive
        refine .inl ⟨by simp [hfreed, hlive.1], ?_⟩
        rw [hs'.mem_iff, List.mem_append, not_or]
        exact ⟨fun hmem => (fresh hfresh).2 c hmem hc, hlive.2⟩
      · rw [List.count_append]
        exact .inr (by omega)
  | lost old new rest hne hs hs' attached freed fresh ha =>
      refine ⟨c, by rw [attached]; exact List.mem_append_left _ hc, ?_⟩
      rw [freed]
      rcases hlost with ⟨hfreed, hlive⟩ | htwice
      · rw [hs.mem_iff, List.mem_append, not_or] at hlive
        refine .inl ⟨by simp only [List.mem_append]; tauto, ?_⟩
        exact fun hmem => hlive.2 (hs'.mem_iff.1 hmem)
      · rw [List.count_append, List.count_append]
        exact .inr (by omega)

/-- What the application and the allocator are relied on for. -/
def Sound (s : Server) (a : Act) : Prop := NamesSocket s a ∧ FreshCtx s a

instance (s : Server) (a : Act) : Decidable (Sound s a) :=
  inferInstanceAs (Decidable (_ ∧ _))

theorem run_contexts {lru : Bool} {n : Nat} {acts : List Act}
    (hrun : (serverMachine lru).run (.start n) acts = some s) :
    (serverMachine lru).Meets Sound (.start n) acts →
    Base s ∧ s.attached.Nodup ∧
      ((serverMachine lru).Meets Settles (.start n) acts ∧ Settled s ∨
        ¬(serverMachine lru).Meets Settles (.start n) acts ∧ Broken s) := by
  refine Machine.run_induction (P := fun acts s =>
    (serverMachine lru).Meets Sound (.start n) acts →
    Base s ∧ s.attached.Nodup ∧
      ((serverMachine lru).Meets Settles (.start n) acts ∧ Settled s ∨
        ¬(serverMachine lru).Meets Settles (.start n) acts ∧ Broken s))
    ?_ ?_ hrun
  · refine fun _ => ⟨.start n, List.nodup_nil, .inl ⟨trivial, ?_⟩⟩
    have hnone : ctxs (Server.start n).sd = [] := by
      rw [ctxs, List.filterMap_eq_nil_iff]
      intro e he
      rw [List.eq_of_mem_replicate he]
      rfl
    rw [Settled, hnone]
    rfl
  · intro as u a v hu ih hv hsound
    rw [Machine.meets_concat hu] at hsound
    obtain ⟨hb, hnodup, hcases⟩ := ih hsound.1
    obtain ⟨hnames, hfresh⟩ := hsound.2
    have hm := (serverStep_move hb hv).ctxMove hb
    refine ⟨hb.step hnames hv, hm.nodup hfresh hnodup, ?_⟩
    rw [Machine.meets_concat hu]
    rcases hcases with ⟨hmeets, hset⟩ | ⟨hmeets, hbroken⟩
    · by_cases hok : Settles u a
      · exact .inl ⟨⟨hmeets, hok⟩, hset.step hm hok⟩
      · exact .inr ⟨fun h => hok h.2, hset.broken hm hfresh hok⟩
    · exact .inr ⟨fun h => hmeets h.1, hbroken.step hm hfresh⟩

/-- A handler attaches a context, and the server is stopped. -/
def attached : List Act :=
  connect 5 0 ++ [.select [5] false, .visit (served (some 1) 0),
    .visit (served none 0), .accept none true, .stop, .select [] false, .ctrl,
    .closeOne, .closeOne]

end EspAdf.Ports.HttpdServer
