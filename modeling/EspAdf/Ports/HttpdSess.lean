import EspAdf.Verified.Cursor

/-!
# `httpd_sess.c`: the table of the sessions of an HTTP server

`hd_sd` has a slot for each session that may be open; the descriptor `-1` marks
a free one.  The server goes through the table with `httpd_sess_iterate`, whose
position is the descriptor it returned last, and closes sessions on the way;
`httpd_sess_delete` returns the descriptor in front of the one it deletes, so
that the iteration can go on from there.

Seen as a table of keys, the functions are those of `Verified.Cursor`:
`iterate_eq`, `delete_slots` and `delete_returns`.
-/

namespace EspAdf.Ports.HttpdSess

open EspAdf.Verified.Cursor

/-- `struct sock_db`, without the functions for sending and receiving and
without the pending data themselves. -/
structure SockDb where
  fd : Int
  /-- The context of the session, as the allocation that it is. -/
  ctx : Option Nat
  /-- The function that frees it, or `free`. -/
  freeCtx : Option Nat
  /-- `handle` is set. -/
  handle : Bool
  timestamp : Int
  pendingLen : Nat
  /-- History: which connection the slot was last used for. -/
  conn : Nat
  deriving DecidableEq, Repr

/-- A context that was freed, and by which function. -/
structure Freed where
  ctx : Nat
  freeCtx : Option Nat
  deriving DecidableEq, Repr

/-- A slot as `calloc` and `httpd_sess_init` leave it. -/
def SockDb.init : SockDb := ⟨-1, none, none, false, 0, 0, 0⟩

/-- A slot as `httpd_sess_new` fills it. -/
def SockDb.new (fd : Int) (conn : Nat) : SockDb :=
  ⟨fd, none, none, true, 0, 0, conn⟩

def httpdSessInit (maxOpenSockets : Nat) : List SockDb :=
  List.replicate maxOpenSockets .init

def httpdIsSessAvailable (sd : List SockDb) : Bool := sd.any (·.fd = -1)

/-- The slot of a descriptor. -/
def httpdSessGet (sd : List SockDb) (fd : Int) : Option Nat :=
  sd.findIdx? (·.fd = fd)

/-- The table with a new session, unless there is none for want of a slot or
because the descriptor has one. -/
def httpdSessNew (sd : List SockDb) (newfd : Int) (conn : Nat) :
    Option (List SockDb) :=
  if (httpdSessGet sd newfd).isSome then none
  else (sd.findIdx? (·.fd = -1)).map fun i => sd.set i (.new newfd conn)

/-- What deleting a session leaves in its slot, and what it frees. -/
def SockDb.delete (s : SockDb) : SockDb × List Freed :=
  match s.ctx with
  | some ctx =>
      ({ s with fd := -1, ctx := none, freeCtx := none }, [⟨ctx, s.freeCtx⟩])
  | none => ({ s with fd := -1 }, [])

/-- The loop of `httpd_sess_delete`: the table, `pre_sess_fd`, and what is
freed. -/
def httpdSessDelete (fd : Int) :
    List SockDb → Int → List SockDb × Int × List Freed
  | [], preSessFd => ([], preSessFd, [])
  | s :: sd, preSessFd =>
      if s.fd = fd then (s.delete.1 :: sd, preSessFd, s.delete.2)
      else
        let rest := httpdSessDelete fd sd
          (if s.fd ≠ -1 then s.fd else preSessFd)
        (s :: rest.1, rest.2)

/-- Whether there are data to be parsed.  A descriptor that is not found makes
it return `ESP_FAIL`, that is true. -/
def httpdSessPending (sd : List SockDb) (fd : Int) : Bool :=
  match sd.find? (·.fd = fd) with
  | some s => s.pendingLen ≠ 0
  | none => true

def INT64_MAX : Int := 2 ^ 63 - 1

/-- The loop of `httpd_sess_close_lru`: the descriptor that was used least
recently, unless a slot is free. -/
def lruFd : List SockDb → Int → Int → Option Int
  | [], _, fd => some fd
  | s :: sd, timestamp, fd =>
      if s.fd = -1 then none
      else if s.timestamp < timestamp then lruFd sd s.timestamp s.fd
      else lruFd sd timestamp fd

/-- The slot that `httpd_trigger_sess_close` puts into the control message. -/
def httpdTriggerSessClose (sd : List SockDb) (fd : Int) :
    Option (Nat × SockDb) :=
  (httpdSessGet sd fd).bind fun i => sd[i]?.map fun s => (i, s)

/-- The slot that is put into the control message, if any. -/
def httpdSessCloseLru (sd : List SockDb) : Option (Nat × SockDb) :=
  (lruFd sd INT64_MAX (-1)).bind (httpdTriggerSessClose sd)

/-- Where the loop of `httpd_sess_iterate` starts. -/
def startIndex (sd : List SockDb) (startFd : Int) : Nat :=
  if startFd ≠ -1 then
    match sd.findIdx? (·.fd = startFd) with
    | some i => i + 1
    | none => 0
  else 0

def httpdSessIterate (sd : List SockDb) (startFd : Int) : Int :=
  match (sd.drop (startIndex sd startFd)).find? (·.fd ≠ -1) with
  | some s => s.fd
  | none => -1

def httpdSessUpdateTimestamp (sd : List SockDb) (fd t : Int) :
    List SockDb :=
  match httpdSessGet sd fd with
  | some i => sd.modify i fun s => { s with timestamp := t }
  | none => sd

/-! ## The table as a table of keys -/

/-- The descriptor of a slot that is not free. -/
def SockDb.slot (s : SockDb) : Option Int :=
  if s.fd = -1 then none else some s.fd

/-- A descriptor as the position of an iteration. -/
def cursor (fd : Int) : Option Int := if fd = -1 then none else some fd

def slots (sd : List SockDb) : List (Option Int) := sd.map SockDb.slot

/-- The descriptors of the open sessions. -/
def openFds (sd : List SockDb) : List Int := keys (slots sd)

theorem slots_cons (s : SockDb) (sd : List SockDb) :
    slots (s :: sd) = s.slot :: slots sd := rfl

@[simp] theorem slot_free {s : SockDb} (h : s.fd = -1) : s.slot = none :=
  if_pos h

@[simp] theorem slot_open {s : SockDb} (h : s.fd ≠ -1) : s.slot = some s.fd :=
  if_neg h

theorem slot_ne {s : SockDb} {fd : Int} (h : s.fd ≠ fd) :
    s.slot ≠ some fd := by
  by_cases hfree : s.fd = -1
  · rw [slot_free hfree]
    simp
  · rw [slot_open hfree]
    simpa using h

theorem mem_openFds {sd : List SockDb} {fd : Int} :
    fd ∈ openFds sd ↔ ∃ s ∈ sd, s.fd = fd ∧ fd ≠ -1 := by
  rw [openFds, mem_keys, slots, List.mem_map]
  refine exists_congr fun s => and_congr_right fun _ => ?_
  rw [SockDb.slot]
  split
  · rename_i hfd
    refine iff_of_false nofun ?_
    rintro ⟨rfl, hne⟩
    exact hne hfd
  · rename_i hfd
    rw [Option.some.injEq]
    exact ⟨fun heq => ⟨heq, heq ▸ hfd⟩, And.left⟩

theorem openFds_eq (sd : List SockDb) :
    openFds sd = (sd.filter (·.fd ≠ -1)).map SockDb.fd := by
  induction sd with
  | nil => rfl
  | cons s sd ih =>
      rw [openFds, slots_cons]
      by_cases hfd : s.fd = -1
      · rw [slot_free hfd, keys_free, List.filter_cons_of_neg (by simp [hfd])]
        exact ih
      · rw [slot_open hfd, keys_held, List.filter_cons_of_pos (by simpa),
          List.map_cons]
        exact congrArg _ ih

/-- A descriptor has one slot. -/
theorem eq_of_fd {sd : List SockDb} (h : (openFds sd).Nodup) {s s' : SockDb}
    (hs : s ∈ sd) (hs' : s' ∈ sd) (hfd : s.fd ≠ -1) (heq : s.fd = s'.fd) :
    s = s' := by
  rw [openFds_eq] at h
  exact List.inj_on_of_nodup_map h (List.mem_filter.2 ⟨hs, by simpa⟩)
    (List.mem_filter.2 ⟨hs', by simpa [← heq]⟩) heq

/-- The first open session. -/
theorem find_open (sd : List SockDb) :
    (match sd.find? (·.fd ≠ -1) with | some s => s.fd | none => -1) =
      (openFds sd).head?.getD (-1) := by
  induction sd with
  | nil => rfl
  | cons s sd ih =>
      rw [openFds, slots_cons]
      by_cases hfd : s.fd = -1
      · rw [List.find?_cons_of_neg (by simp [hfd]), slot_free hfd, keys_free]
        exact ih
      · rw [List.find?_cons_of_pos (by simpa using hfd), slot_open hfd,
          keys_held]
        rfl

theorem drop_behind (sd : List SockDb) {fd : Int} (hfd : fd ≠ -1) :
    (behind fd (slots sd)).getD (slots sd) =
      slots (sd.drop (startIndex sd fd)) := by
  have hgo : behind fd (slots sd) =
      (sd.findIdx? (·.fd = fd)).map fun i => slots (sd.drop (i + 1)) := by
    induction sd with
    | nil => rfl
    | cons s sd ih =>
        rw [slots_cons, behind, List.findIdx?_cons]
        by_cases hs : s.fd = fd
        · rw [if_pos (by rw [slot_open (hs ▸ hfd), hs]), if_pos (by simpa)]
          rfl
        · rw [if_neg (slot_ne hs), if_neg (by simpa using hs), ih]
          cases sd.findIdx? (·.fd = fd) <;> rfl
  rw [hgo, startIndex, if_pos hfd]
  cases sd.findIdx? (·.fd = fd) <;> rfl

theorem iterate_eq (sd : List SockDb) (fd : Int) :
    httpdSessIterate sd fd = (next (slots sd) (cursor fd)).getD (-1) := by
  rw [httpdSessIterate, find_open]
  by_cases hfd : fd = -1
  · rw [cursor, if_pos hfd, startIndex, if_neg (by simpa using hfd)]
    rfl
  · rw [cursor, if_neg hfd]
    show _ = (keys ((behind fd (slots sd)).getD (slots sd))).head?.getD (-1)
    rw [drop_behind sd hfd]
    rfl

/-- The iteration returns open sessions only. -/
theorem iterate_mem {sd : List SockDb} {fd : Int}
    (h : httpdSessIterate sd fd ≠ -1) :
    httpdSessIterate sd fd ∈ openFds sd := by
  rw [mem_openFds]
  rw [httpdSessIterate] at h ⊢
  split
  · rename_i s hs
    rw [hs] at h
    exact ⟨s, List.mem_of_mem_drop (List.mem_of_find?_eq_some hs), rfl, h⟩
  · rename_i hs
    rw [hs] at h
    exact absurd rfl h

/-- An open session is found. -/
theorem get_of_mem {sd : List SockDb} {fd : Int} (h : ∃ s ∈ sd, s.fd = fd) :
    ∃ i, httpdSessGet sd fd = some i := by
  rw [← Option.isSome_iff_exists, httpdSessGet, List.findIdx?_isSome,
    List.any_eq_true]
  obtain ⟨s, hs, hfd⟩ := h
  exact ⟨s, hs, by simpa using hfd⟩

theorem delete_fd (s : SockDb) : s.delete.1.fd = -1 := by
  rw [SockDb.delete]
  split <;> rfl

/-- Deleting a session frees its slot. -/
theorem delete_slots (sd : List SockDb) {fd : Int} (hfd : fd ≠ -1)
    (pre : Int) :
    slots (httpdSessDelete fd sd pre).1 = clear fd (slots sd) := by
  induction sd generalizing pre with
  | nil => rfl
  | cons s sd ih =>
      rw [httpdSessDelete, slots_cons, clear]
      by_cases hs : s.fd = fd
      · rw [if_pos hs, if_pos (by rw [slot_open (hs ▸ hfd), hs]), slots_cons,
          slot_free (delete_fd s)]
      · rw [if_neg hs, if_neg (slot_ne hs), slots_cons, ih]

/-- It returns the descriptor in front of the one deleted. -/
theorem delete_returns (sd : List SockDb) {fd : Int} (hfd : fd ≠ -1)
    (pre : Int) : cursor (httpdSessDelete fd sd pre).2.1 =
      before fd (cursor pre) (slots sd) := by
  induction sd generalizing pre with
  | nil => rfl
  | cons s sd ih =>
      rw [httpdSessDelete, slots_cons, before]
      by_cases hs : s.fd = fd
      · rw [if_pos hs, if_pos (by rw [slot_open (hs ▸ hfd), hs])]
      · rw [if_neg hs, if_neg (slot_ne hs), ih]
        congr 1
        by_cases hfree : s.fd = -1
        · rw [if_neg (by simpa using hfree), slot_free hfree, Option.none_or]
        · rw [if_pos hfree, slot_open hfree, Option.some_or, cursor,
            if_neg hfree]

/-! ## One slot of the table -/

/-- `sd'` is `sd` with `e'` in the place of `e`, the first slot of its
descriptor. -/
def Replaces (sd sd' : List SockDb) (e e' : SockDb) : Prop :=
  ∃ front back, sd = front ++ e :: back ∧ sd' = front ++ e' :: back ∧
    ∀ s ∈ front, s.fd ≠ e.fd

theorem Replaces.eq_self {sd sd' : List SockDb} {e : SockDb}
    (h : Replaces sd sd' e e) : sd' = sd := by
  obtain ⟨front, back, rfl, rfl, -⟩ := h
  rfl

theorem Replaces.mem {sd sd' : List SockDb} {e e' : SockDb}
    (h : Replaces sd sd' e e') : e ∈ sd := by
  obtain ⟨front, back, rfl, rfl, -⟩ := h
  simp

/-- A slot of the new table is the new one or was there before. -/
theorem Replaces.mem_new {sd sd' : List SockDb} {e e' s : SockDb}
    (h : Replaces sd sd' e e') (hs : s ∈ sd') : s = e' ∨ s ∈ sd := by
  obtain ⟨front, back, rfl, rfl, -⟩ := h
  simp only [List.mem_append, List.mem_cons] at hs ⊢
  tauto

theorem Replaces.find {sd sd' : List SockDb} {e e' : SockDb}
    (h : Replaces sd sd' e e') : sd.find? (·.fd = e.fd) = some e := by
  obtain ⟨front, back, rfl, rfl, hfront⟩ := h
  rw [List.find?_append, List.find?_eq_none.2 (by simpa using hfront)]
  simp

/-- Position by position: another slot stays as it is. -/
theorem Replaces.getElem {sd sd' : List SockDb} {e e' s : SockDb} {i : Nat}
    (h : Replaces sd sd' e e') (hs : sd[i]? = some s) :
    sd'[i]? = some s ∨ s = e ∧ sd'[i]? = some e' := by
  obtain ⟨front, back, rfl, rfl, -⟩ := h
  rw [List.getElem?_append] at hs ⊢
  split at hs
  · exact .inl (by rw [if_pos ‹_›, hs])
  · rw [if_neg ‹_›]
    cases hi : i - front.length with
    | zero =>
        rw [hi] at hs
        exact .inr ⟨(Option.some.inj hs).symm, rfl⟩
    | succ j =>
        rw [hi] at hs
        exact .inl hs

/-- The slot that is found. -/
theorem get_split {sd : List SockDb} {fd : Int} {i : Nat}
    (h : httpdSessGet sd fd = some i) :
    ∃ e, sd[i]? = some e ∧ e.fd = fd ∧
      ∀ f : SockDb → SockDb, Replaces sd (sd.modify i f) e (f e) := by
  obtain ⟨hlt, hfd, hfirst⟩ := List.findIdx?_eq_some_iff_getElem.1 h
  have hfd : sd[i].fd = fd := of_decide_eq_true hfd
  refine ⟨sd[i], List.getElem?_eq_getElem hlt, hfd, fun f =>
    ⟨sd.take i, sd.drop (i + 1), ?_, List.modify_eq_take_cons_drop hlt, ?_⟩⟩
  · rw [List.cons_getElem_drop_succ, List.take_append_drop]
  · intro s hs heq
    obtain ⟨j, hj, rfl⟩ := List.getElem_of_mem hs
    rw [List.length_take] at hj
    rw [List.getElem_take] at heq
    exact hfirst j (by omega) (decide_eq_true (heq.trans hfd))

/-- What `httpd_sess_delete` does to the slot it finds. -/
theorem delete_split {front : List SockDb} {e : SockDb}
    (h : ∀ s ∈ front, s.fd ≠ e.fd) (back : List SockDb) (pre : Int) :
    (httpdSessDelete e.fd (front ++ e :: back) pre).1 =
        front ++ e.delete.1 :: back ∧
      (httpdSessDelete e.fd (front ++ e :: back) pre).2.2 = e.delete.2 := by
  induction front generalizing pre with
  | nil => simp [httpdSessDelete]
  | cons s front ih =>
      simp only [List.mem_cons, forall_eq_or_imp] at h
      simp only [List.cons_append, httpdSessDelete, if_neg h.1]
      exact ⟨by rw [(ih h.2 _).1], (ih h.2 _).2⟩

/-- A new session goes to the front-most free slot. -/
theorem new_spec {sd sd' : List SockDb} {fd : Int} {conn : Nat}
    (h : httpdSessNew sd fd conn = some sd') :
    (∀ s ∈ sd, s.fd ≠ fd) ∧
      ∃ e, e.fd = -1 ∧ Replaces sd sd' e (.new fd conn) := by
  simp only [httpdSessNew, Option.ite_none_left_eq_some,
    Option.map_eq_some_iff] at h
  obtain ⟨hnone, i, hi, rfl⟩ := h
  constructor
  · rw [Bool.not_eq_true, Option.isSome_eq_false_iff, Option.isNone_iff_eq_none,
      httpdSessGet, List.findIdx?_eq_none_iff] at hnone
    intro s hs heq
    exact of_decide_eq_false (hnone s hs) heq
  · obtain ⟨e, -, hfree, hsplit⟩ := get_split hi
    rw [List.set_eq_modify]
    exact ⟨e, hfree, hsplit fun _ => .new fd conn⟩

/-- There is no room, or the descriptor has a session. -/
theorem new_none {sd : List SockDb} {fd : Int} {conn : Nat}
    (h : httpdSessNew sd fd conn = none) :
    (∃ s ∈ sd, s.fd = fd) ∨ ∀ s ∈ sd, s.fd ≠ -1 := by
  rw [httpdSessNew] at h
  split at h
  · rename_i hsome
    rw [httpdSessGet, List.findIdx?_isSome, List.any_eq_true] at hsome
    obtain ⟨s, hs, heq⟩ := hsome
    exact .inl ⟨s, hs, by simpa using heq⟩
  · rw [Option.map_eq_none_iff, List.findIdx?_eq_none_iff] at h
    exact .inr fun s hs => of_decide_eq_false (h s hs)

/-- Deleting an open session. -/
theorem delete_replaces {sd : List SockDb} {fd : Int}
    (h : fd ∈ openFds sd) :
    ∃ e, e.fd = fd ∧
      Replaces sd (httpdSessDelete fd sd (-1)).1 e e.delete.1 ∧
      (httpdSessDelete fd sd (-1)).2.2 = e.delete.2 := by
  obtain ⟨s, hs, hfd, -⟩ := mem_openFds.1 h
  obtain ⟨i, hi⟩ := get_of_mem ⟨s, hs, hfd⟩
  obtain ⟨e, -, rfl, hsplit⟩ := get_split hi
  obtain ⟨front, back, rfl, -, hfront⟩ := hsplit id
  obtain ⟨hsd, hfreed⟩ := delete_split hfront back (-1)
  exact ⟨e, rfl, ⟨front, back, rfl, hsd, hfront⟩, hfreed⟩

theorem delete_ctxs (e : SockDb) :
    e.delete.2.map Freed.ctx = e.ctx.toList ∧ e.delete.1.ctx = none := by
  cases hctx : e.ctx <;> simp [SockDb.delete, hctx]

theorem delete_handle (e : SockDb) :
    e.delete.1.handle = e.handle ∧ e.delete.1.conn = e.conn := by
  cases hctx : e.ctx <;> simp [SockDb.delete, hctx]

/-- A free slot without a context is left as it is. -/
theorem delete_free {e : SockDb} (hfd : e.fd = -1) (hctx : e.ctx = none) :
    e.delete.1 = e := by
  cases e
  simp_all [SockDb.delete]

theorem openFds_split (front : List SockDb) (e : SockDb)
    (back : List SockDb) : openFds (front ++ e :: back) =
      openFds front ++ e.slot.toList ++ openFds back := by
  rw [openFds, slots, List.map_append, List.map_cons, keys_append, openFds,
    List.append_assoc]
  cases e.slot <;> rfl

/-- A slot that keeps its descriptor. -/
theorem Replaces.slots_eq {sd sd' : List SockDb} {e e' : SockDb}
    (h : Replaces sd sd' e e') (hfd : e'.fd = e.fd) : slots sd' = slots sd := by
  obtain ⟨front, back, rfl, rfl, -⟩ := h
  simp only [slots, List.map_append, List.map_cons, SockDb.slot, hfd]

/-- Whether other sessions have data to be parsed. -/
theorem Replaces.pending {sd sd' : List SockDb} {e e' : SockDb} {fd : Int}
    (h : Replaces sd sd' e e') (hfd : fd ≠ e.fd) (hfd' : fd ≠ e'.fd) :
    httpdSessPending sd' fd = httpdSessPending sd fd := by
  obtain ⟨front, back, rfl, rfl, -⟩ := h
  have hfind : ∀ s : SockDb, fd ≠ s.fd →
      (front ++ s :: back).find? (·.fd = fd) =
        (front ++ back).find? (·.fd = fd) := by
    intro s hs
    rw [List.find?_append, List.find?_append,
      List.find?_cons_of_neg (by simpa using Ne.symm hs)]
  rw [httpdSessPending, httpdSessPending, hfind e' hfd', hfind e hfd]

theorem Replaces.pending_eq {sd sd' : List SockDb} {e e' : SockDb}
    (h : Replaces sd sd' e e') (heq : e'.fd = e.fd)
    (hlen : e'.pendingLen = e.pendingLen) (fd : Int) :
    httpdSessPending sd' fd = httpdSessPending sd fd := by
  by_cases hfd : fd = e.fd
  · subst hfd
    have hfind' : sd'.find? (·.fd = e.fd) = some e' := by
      obtain ⟨front, back, rfl, rfl, hfront⟩ := h
      rw [List.find?_append, List.find?_eq_none.2 (by simpa using hfront)]
      simp [heq]
    rw [httpdSessPending, httpdSessPending, h.find, hfind']
    simp only [hlen]
  · exact h.pending hfd (heq ▸ hfd)

theorem pending_updateTimestamp (sd : List SockDb) (fd t fd' : Int) :
    httpdSessPending (httpdSessUpdateTimestamp sd fd t) fd' =
      httpdSessPending sd fd' := by
  rw [httpdSessUpdateTimestamp]
  split
  · rename_i i hi
    obtain ⟨e, -, -, hsplit⟩ := get_split hi
    exact (hsplit _).pending_eq rfl rfl fd'
  · rfl

theorem slots_updateTimestamp (sd : List SockDb) (fd t : Int) :
    slots (httpdSessUpdateTimestamp sd fd t) = slots sd := by
  rw [httpdSessUpdateTimestamp]
  split
  · rename_i i hi
    obtain ⟨e, -, -, hsplit⟩ := get_split hi
    exact (hsplit _).slots_eq rfl
  · rfl

/-- The sessions that are left when one is deleted. -/
theorem openFds_delete {sd : List SockDb} {fd : Int} (hfd : fd ≠ -1)
    (pre : Int) :
    openFds (httpdSessDelete fd sd pre).1 = (openFds sd).erase fd := by
  rw [openFds, delete_slots sd hfd, keys_clear, openFds]

/-- The iteration ends when no session is left. -/
theorem iterate_end {sd : List SockDb} {fd : Int}
    (hfd : fd = -1 ∨ fd ∉ openFds sd) (h : httpdSessIterate sd fd = -1) :
    openFds sd = [] := by
  have hnext : next (slots sd) (cursor fd) = (openFds sd).head? := by
    rw [cursor]
    split
    · rfl
    · rename_i hne
      exact next_absent fun hmem =>
        (hfd.resolve_left hne) (mem_keys.2 hmem)
  rw [iterate_eq, hnext] at h
  cases hopen : openFds sd with
  | nil => rfl
  | cons k rest =>
      rw [hopen] at h
      obtain ⟨-, -, -, hne⟩ := mem_openFds.1 (hopen ▸ List.mem_cons_self)
      exact absurd h hne

/-! ## The least recently used session -/

/-- The loop finds a session that was not used later than any other. -/
theorem lruFd_spec {sd : List SockDb} {t fd r : Int}
    (h : lruFd sd t fd = some r) :
    (∀ s ∈ sd, s.fd ≠ -1) ∧
      (r = fd ∧ (∀ s ∈ sd, t ≤ s.timestamp) ∨
        ∃ s ∈ sd, s.fd = r ∧ s.timestamp < t ∧
          ∀ s' ∈ sd, s.timestamp ≤ s'.timestamp) := by
  induction sd generalizing t fd with
  | nil =>
      cases h
      exact ⟨nofun, .inl ⟨rfl, nofun⟩⟩
  | cons s sd ih =>
      rw [lruFd, Option.ite_none_left_eq_some] at h
      obtain ⟨hfd, h⟩ := h
      split at h
      · rename_i hlt
        obtain ⟨hopen, hmin⟩ := ih h
        refine ⟨by simpa [hfd] using hopen, .inr ?_⟩
        rcases hmin with ⟨rfl, hle⟩ | ⟨s', hs', hr, hlt', hle⟩
        · exact ⟨s, by simp, rfl, hlt, by simpa using hle⟩
        · refine ⟨s', by simp [hs'], hr, by omega, ?_⟩
          simp only [List.mem_cons, forall_eq_or_imp]
          exact ⟨by omega, hle⟩
      · rename_i hge
        obtain ⟨hopen, hmin⟩ := ih h
        refine ⟨by simpa [hfd] using hopen, ?_⟩
        rcases hmin with ⟨rfl, hle⟩ | ⟨s', hs', hr, hlt', hle⟩
        · refine .inl ⟨rfl, ?_⟩
          simp only [List.mem_cons, forall_eq_or_imp]
          exact ⟨by omega, hle⟩
        · refine .inr ⟨s', by simp [hs'], hr, hlt', ?_⟩
          simp only [List.mem_cons, forall_eq_or_imp]
          exact ⟨by omega, hle⟩

/-- The slot that a closure is queued for. -/
theorem trigger_spec {sd : List SockDb} {fd : Int} {i : Nat} {e : SockDb}
    (h : httpdTriggerSessClose sd fd = some (i, e)) :
    sd[i]? = some e ∧ e.fd = fd := by
  simp only [httpdTriggerSessClose, Option.bind_eq_some_iff,
    Option.map_eq_some_iff, Prod.mk.injEq] at h
  obtain ⟨j, hj, e', he', rfl, rfl⟩ := h
  obtain ⟨e, he, hfd, -⟩ := get_split hj
  rw [he'] at he
  obtain rfl := Option.some.inj he
  exact ⟨he', hfd⟩

/-- It is open, and no session was used less recently. -/
theorem closeLru_spec {sd : List SockDb} {i : Nat} {e : SockDb}
    (h : httpdSessCloseLru sd = some (i, e)) :
    (∀ s ∈ sd, s.fd ≠ -1) ∧ sd[i]? = some e ∧
      ((openFds sd).Nodup → ∀ s ∈ sd, e.timestamp ≤ s.timestamp) := by
  obtain ⟨fd, hlru, htrigger⟩ := Option.bind_eq_some_iff.1 h
  obtain ⟨hopen, hmin⟩ := lruFd_spec hlru
  obtain ⟨hi, hfd⟩ := trigger_spec htrigger
  have he := List.mem_of_getElem? hi
  refine ⟨hopen, hi, fun hnodup => ?_⟩
  rcases hmin with ⟨rfl, -⟩ | ⟨s, hs, rfl, -, hle⟩
  · exact absurd hfd (hopen e he)
  · rw [eq_of_fd hnodup he hs (hopen e he) hfd]
    exact hle

end EspAdf.Ports.HttpdSess
