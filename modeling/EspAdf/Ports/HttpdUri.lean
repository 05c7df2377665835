import EspAdf.Verified.Machine
import EspAdf.Verified.Table

/-!
# `httpd_uri.c`: the handlers of a server

`hd_calls` has a slot for each handler that may be registered.  A handler is
found by its URI and its method; a request whose URI is there only with other
methods is answered with 405, one whose URI is not there with 404.

The abstract registry is a finite map, and `registry_is_map` says that the
table behaves like it, in every run in which no copy of a URI fails for want
of memory.  When one does, `httpd_register_uri_handler` frees the entry and
leaves the slot pointing at it, and a search that passes the slot reads what
was freed.
-/

namespace EspAdf.Ports.HttpdUri

open EspAdf.Verified
open EspAdf.Verified.Table

/-- `httpd_uri_t`; a URI is the bytes in front of its zero. -/
structure HttpdUriT where
  uri : List UInt8
  method : Nat
  handler : Nat
  userCtx : Nat
  deriving DecidableEq, Repr

/-- A pointer of `hd_calls`. -/
inductive Slot where
  | null
  | call (u : HttpdUriT)
  /-- It points at an entry that was freed. -/
  | dangling
  deriving DecidableEq, Repr

inductive Err where
  | ok
  | handlerExists
  | allocMem
  | handlersFull
  | notFound
  deriving DecidableEq, Repr

/-- What the heap gives to `httpd_register_uri_handler`. -/
inductive Alloc where
  | ok
  /-- `malloc` fails. -/
  | noEntry
  /-- `strdup` fails. -/
  | noString
  deriving DecidableEq, Repr

/-- `httpd_find_uri_handler`: the index or -1; none if it reads an entry that
was freed. -/
def httpdFindUriHandler (uri : List UInt8) (method : Nat) :
    List Slot → Option (Option Nat)
  | [] => some none
  | .null :: cs => (httpdFindUriHandler uri method cs).map (·.map (· + 1))
  | .dangling :: _ => none
  | .call u :: cs =>
      if u.method = method ∧ u.uri = uri then some (some 0)
      else (httpdFindUriHandler uri method cs).map (·.map (· + 1))

/-- The loop of `httpd_register_uri_handler`. -/
def install (u : HttpdUriT) (alloc : Alloc) : List Slot → Err × List Slot
  | [] => (.handlersFull, [])
  | .null :: cs =>
      match alloc with
      | .ok => (.ok, .call u :: cs)
      | .noEntry => (.allocMem, .null :: cs)
      | .noString => (.allocMem, .dangling :: cs)
  | c :: cs => ((install u alloc cs).1, c :: (install u alloc cs).2)

def httpdRegisterUriHandler (u : HttpdUriT) (alloc : Alloc)
    (cs : List Slot) : Option (Err × List Slot) :=
  (httpdFindUriHandler u.uri u.method cs).map fun
    | some _ => (.handlerExists, cs)
    | none => install u alloc cs

def httpdUnregisterUriHandler (uri : List UInt8) (method : Nat)
    (cs : List Slot) : Option (Err × List Slot) :=
  (httpdFindUriHandler uri method cs).map fun
    | some i => (.ok, cs.set i .null)
    | none => (.notFound, cs)

/-- The loop of `httpd_unregister_uri`: whether one was found, and the table;
none if it reads an entry that was freed. -/
def unregisterLoop (uri : List UInt8) :
    List Slot → Option (Bool × List Slot)
  | [] => some (false, [])
  | .null :: cs =>
      (unregisterLoop uri cs).map fun r => (r.1, .null :: r.2)
  | .dangling :: _ => none
  | .call u :: cs =>
      (unregisterLoop uri cs).map fun r =>
        if u.uri = uri then (true, .null :: r.2) else (r.1, .call u :: r.2)

def httpdUnregisterUri (uri : List UInt8) (cs : List Slot) :
    Option (Err × List Slot) :=
  (unregisterLoop uri cs).map fun r => (if r.1 then .ok else .notFound, r.2)

inductive HttpErr where
  | notFound404
  | methodNotAllowed405
  deriving DecidableEq, Repr

/-- `httpd_find_uri_handler2`, with the error so far. -/
def findUriHandler2 (path : List UInt8) (method : Nat) :
    List Slot → Option HttpErr → Option (Except HttpErr HttpdUriT)
  | [], err => some (.error (err.getD .notFound404))
  | .null :: cs, err => findUriHandler2 path method cs err
  | .dangling :: _, _ => none
  | .call u :: cs, err =>
      if u.uri = path then
        if u.method = method then some (.ok u)
        else findUriHandler2 path method cs (some .methodNotAllowed405)
      else findUriHandler2 path method cs err

/-- The handler that `httpd_uri` calls for a request, or the error that it
sends; none if it reads an entry that was freed. -/
def httpdUri (path : List UInt8) (method : Nat) (cs : List Slot) :
    Option (Except HttpErr HttpdUriT) := findUriHandler2 path method cs none

inductive Act where
  | register (u : HttpdUriT) (alloc : Alloc)
  | unregister (uri : List UInt8) (method : Nat)
  | unregisterUri (uri : List UInt8)
  deriving DecidableEq, Repr

/-- The table, and what the calls have returned. -/
structure Server where
  calls : List Slot
  returned : List Err
  deriving DecidableEq, Repr

def Server.init (maxUriHandlers : Nat) : Server :=
  ⟨List.replicate maxUriHandlers .null, []⟩

def uriCall (cs : List Slot) : Act → Option (Err × List Slot)
  | .register u alloc => httpdRegisterUriHandler u alloc cs
  | .unregister uri method => httpdUnregisterUriHandler uri method cs
  | .unregisterUri uri => httpdUnregisterUri uri cs

def uriMachine : Machine Server Act where
  step s a := (uriCall s.calls a).map fun r => ⟨r.2, s.returned ++ [r.1]⟩

/-! ## The registry -/

abbrev Key := List UInt8 × Nat

def HttpdUriT.key (u : HttpdUriT) : Key := (u.uri, u.method)

/-- The handlers that are registered, by URI and method. -/
abbrev Registry := Key → Option HttpdUriT

noncomputable def Registry.size (M : Registry) : Nat :=
  Set.ncard {k | M k ≠ none}

open Classical in
/-- What a call returns, and the registry after it. -/
noncomputable def Registry.call (maxUriHandlers : Nat) (M : Registry) :
    Act → Err × Registry
  | .register u alloc =>
      if M u.key ≠ none then (.handlerExists, M)
      else if M.size = maxUriHandlers then (.handlersFull, M)
      else if alloc = .ok then (.ok, Function.update M u.key (some u))
      else (.allocMem, M)
  | .unregister uri method =>
      if M (uri, method) ≠ none then
        (.ok, fun k => if k = (uri, method) then none else M k)
      else (.notFound, M)
  | .unregisterUri uri =>
      (if ∃ method, M (uri, method) ≠ none then .ok else .notFound,
        fun k => if k.1 = uri then none else M k)

open Classical in
/-- The handler of a request. -/
noncomputable def Registry.dispatch (M : Registry) (path : List UInt8)
    (method : Nat) : Except HttpErr HttpdUriT :=
  match M (path, method) with
  | some u => .ok u
  | none =>
      if ∃ method', M (path, method') ≠ none then
        .error .methodNotAllowed405
      else .error .notFound404

structure Abstract where
  registry : Registry
  returned : List Err

noncomputable def registryMachine (maxUriHandlers : Nat) :
    Machine Abstract Act where
  step s a :=
    some ⟨(s.registry.call maxUriHandlers a).2,
      s.returned ++ [(s.registry.call maxUriHandlers a).1]⟩

/-! ## The table represents it -/

/-- The entries of the table. -/
def entries (cs : List Slot) : List HttpdUriT :=
  cs.filterMap fun
    | .call u => some u
    | _ => none

variable {cs : List Slot} {M : Registry} {uri : List UInt8}

@[simp] theorem entries_nil : entries [] = [] := rfl

@[simp] theorem entries_null (cs : List Slot) :
    entries (.null :: cs) = entries cs := rfl

@[simp] theorem entries_call (u : HttpdUriT) (cs : List Slot) :
    entries (.call u :: cs) = u :: entries cs := rfl

@[simp] theorem entries_append (front back : List Slot) :
    entries (front ++ back) = entries front ++ entries back :=
  List.filterMap_append

/-- What a search returns that meets no dangling pointer. -/
theorem find_spec (uri : List UInt8) (method : Nat)
    (hclean : Slot.dangling ∉ cs) :
    (∃ front u back, cs = front ++ .call u :: back ∧ u.key = (uri, method) ∧
      httpdFindUriHandler uri method cs = some (some front.length)) ∨
    httpdFindUriHandler uri method cs = some none ∧
      ∀ u ∈ entries cs, u.key ≠ (uri, method) := by
  induction cs with
  | nil => exact .inr ⟨rfl, by simp⟩
  | cons c cs ih =>
      simp only [List.mem_cons, not_or] at hclean
      have hrest := ih hclean.2
      cases c with
      | dangling => exact absurd rfl hclean.1
      | null =>
          rw [httpdFindUriHandler]
          rcases hrest with ⟨front, u, back, rfl, hkey, hfind⟩ | ⟨hfind, hno⟩
          · exact .inl ⟨.null :: front, u, back, rfl, hkey, by rw [hfind]; rfl⟩
          · exact .inr ⟨by rw [hfind]; rfl, hno⟩
      | call u =>
          rw [httpdFindUriHandler]
          by_cases hu : u.method = method ∧ u.uri = uri
          · rw [if_pos hu]
            exact .inl ⟨[], u, cs, rfl, Prod.ext hu.2 hu.1, rfl⟩
          · rw [if_neg hu]
            rcases hrest with
              ⟨front, u', back, rfl, hkey, hfind⟩ | ⟨hfind, hno⟩
            · exact .inl ⟨.call u :: front, u', back, rfl, hkey,
                by rw [hfind]; rfl⟩
            · refine .inr ⟨by rw [hfind]; rfl, ?_⟩
              rw [entries_call, List.forall_mem_cons]
              refine ⟨fun hkey => hu ?_, hno⟩
              rw [HttpdUriT.key, Prod.mk.injEq] at hkey
              exact hkey.symm

/-- The first free slot is used. -/
theorem install_spec (u : HttpdUriT) (alloc : Alloc) (cs : List Slot) :
    (∃ front back, cs = front ++ .null :: back ∧ .null ∉ front ∧
      install u alloc cs = match alloc with
        | .ok => (.ok, front ++ .call u :: back)
        | .noEntry => (.allocMem, cs)
        | .noString => (.allocMem, front ++ .dangling :: back)) ∨
    .null ∉ cs ∧ install u alloc cs = (.handlersFull, cs) := by
  induction cs with
  | nil => exact .inr ⟨by simp, rfl⟩
  | cons c cs ih =>
      have hother : c ≠ .null → install u alloc (c :: cs) =
          ((install u alloc cs).1, c :: (install u alloc cs).2) := by
        intro hc
        cases c with
        | null => exact absurd rfl hc
        | call _ => rfl
        | dangling => rfl
      by_cases hc : c = .null
      · subst hc
        refine .inl ⟨[], cs, rfl, by simp, ?_⟩
        cases alloc <;> rfl
      · rw [hother hc]
        rcases ih with ⟨front, back, rfl, hfront, hinst⟩ | ⟨hfull, hinst⟩
        · refine .inl ⟨c :: front, back, rfl, ?_, ?_⟩
          · simp [Ne.symm hc, hfront]
          · rw [hinst]
            cases alloc <;> rfl
        · exact .inr ⟨by simp [Ne.symm hc, hfull], by rw [hinst]⟩

theorem unregisterLoop_spec (uri : List UInt8)
    (hclean : Slot.dangling ∉ cs) :
    ∃ found cs', unregisterLoop uri cs = some (found, cs') ∧
      (found = true ↔ ∃ u ∈ entries cs, u.uri = uri) ∧
      entries cs' = (entries cs).filter (fun u => u.uri ≠ uri) ∧
      cs'.length = cs.length ∧ Slot.dangling ∉ cs' := by
  induction cs with
  | nil => exact ⟨false, [], rfl, by simp, rfl, rfl, by simp⟩
  | cons c cs ih =>
      simp only [List.mem_cons, not_or] at hclean
      obtain ⟨found, cs', hloop, hfound, hentries, hlen, hclean'⟩ :=
        ih hclean.2
      cases c with
      | dangling => exact absurd rfl hclean.1
      | null =>
          refine ⟨found, .null :: cs', ?_, hfound, hentries,
            congrArg (· + 1) hlen, by simp [hclean']⟩
          rw [unregisterLoop, hloop]
          rfl
      | call u =>
          rw [unregisterLoop, hloop, Option.map_some]
          by_cases hu : u.uri = uri
          · refine ⟨true, .null :: cs', by rw [if_pos hu], ?_, ?_,
              congrArg (· + 1) hlen, by simp [hclean']⟩
            · exact iff_of_true rfl ⟨u, by simp, hu⟩
            · rw [entries_null, hentries, entries_call, List.filter_cons,
                if_neg (by simpa using hu)]
          · refine ⟨found, .call u :: cs', by rw [if_neg hu], ?_, ?_,
              congrArg (· + 1) hlen, by simp [hclean']⟩
            · simp [hfound, hu]
            · rw [entries_call, hentries, entries_call, List.filter_cons,
                if_pos (by simpa using hu)]

/-- What `httpd_find_uri_handler2` returns if it meets no dangling pointer. -/
theorem findUriHandler2_spec (path : List UInt8) (method : Nat)
    (hclean : Slot.dangling ∉ cs) (err : Option HttpErr) :
    (∃ u ∈ entries cs, u.key = (path, method) ∧
      findUriHandler2 path method cs err = some (.ok u)) ∨
    (∀ u ∈ entries cs, u.key ≠ (path, method)) ∧
      findUriHandler2 path method cs err = some (.error
        (if ∃ u ∈ entries cs, u.uri = path then .methodNotAllowed405
          else err.getD .notFound404)) := by
  induction cs generalizing err with
  | nil => exact .inr ⟨by simp, by simp [findUriHandler2]⟩
  | cons c cs ih =>
      simp only [List.mem_cons, not_or] at hclean
      cases c with
      | dangling => exact absurd rfl hclean.1
      | null => exact ih hclean.2 err
      | call u =>
          rw [findUriHandler2]
          by_cases hpath : u.uri = path
          · rw [if_pos hpath]
            by_cases hmethod : u.method = method
            · rw [if_pos hmethod]
              exact .inl ⟨u, by simp, Prod.ext hpath hmethod, rfl⟩
            · rw [if_neg hmethod]
              rcases ih hclean.2 (some .methodNotAllowed405) with
                ⟨u', hu', hkey, hfind⟩ | ⟨hno, hfind⟩
              · exact .inl ⟨u', by simp [hu'], hkey, hfind⟩
              · refine .inr ⟨?_, ?_⟩
                · rw [entries_call, List.forall_mem_cons]
                  exact ⟨fun hkey => hmethod (congrArg Prod.snd hkey), hno⟩
                · rw [hfind]
                  simp [hpath]
          · rw [if_neg hpath]
            rcases ih hclean.2 err with
              ⟨u', hu', hkey, hfind⟩ | ⟨hno, hfind⟩
            · exact .inl ⟨u', by simp [hu'], hkey, hfind⟩
            · refine .inr ⟨?_, ?_⟩
              · rw [entries_call, List.forall_mem_cons]
                exact ⟨fun hkey => hpath (congrArg Prod.fst hkey), hno⟩
              · rw [hfind]
                simp [hpath]

/-- A table without dangling pointers, and the registry it stands for. -/
structure Tracks (n : Nat) (cs : List Slot) (M : Registry) : Prop where
  clean : Slot.dangling ∉ cs
  length : cs.length = n
  represents : Represents HttpdUriT.key (entries cs) M

variable {n : Nat}

theorem length_entries_iff (hclean : Slot.dangling ∉ cs) :
    (entries cs).length ≤ cs.length ∧
      ((entries cs).length = cs.length ↔ .null ∉ cs) := by
  induction cs with
  | nil => simp
  | cons c cs ih =>
      simp only [List.mem_cons, not_or] at hclean
      obtain ⟨hle, hiff⟩ := ih hclean.2
      cases c with
      | dangling => exact absurd rfl hclean.1
      | null =>
          simp only [entries_null, List.length_cons, List.mem_cons, true_or,
            not_true_eq_false, iff_false]
          omega
      | call u => simp [hiff, hle]

theorem Tracks.start : Tracks n (List.replicate n .null) fun _ => none := by
  have hentries : entries (List.replicate n .null) = [] := by
    induction n with
    | zero => rfl
    | succ n ih => exact ih
  refine ⟨by simp [List.mem_replicate], List.length_replicate, ?_⟩
  rw [hentries]
  exact .nil

theorem Tracks.full_iff (h : Tracks n cs M) :
    M.size = n ↔ .null ∉ cs := by
  rw [Registry.size, h.represents.size, ← h.length]
  exact (length_entries_iff h.clean).2

theorem Tracks.none_iff (h : Tracks n cs M) (k : Key) :
    M k = none ↔ ∀ u ∈ entries cs, u.key ≠ k := h.represents.eq_none_iff

theorem Tracks.some_of_mem (h : Tracks n cs M) {u : HttpdUriT}
    (hu : u ∈ entries cs) : M u.key = some u :=
  (h.represents.iff _ _).2 ⟨hu, rfl⟩

/-- If a copy of a URI is made, it does not fail. -/
def CopiesUri (s : Server) : Act → Prop
  | .register u .noString =>
      (∃ e ∈ entries s.calls, e.key = u.key) ∨ Slot.null ∉ s.calls
  | _ => True

theorem Tracks.register (h : Tracks n cs M) (u : HttpdUriT) {alloc : Alloc}
    (hcopies : alloc = .noString →
      (∃ e ∈ entries cs, e.key = u.key) ∨ Slot.null ∉ cs) :
    ∃ cs', httpdRegisterUriHandler u alloc cs =
        some ((M.call n (.register u alloc)).1, cs') ∧
      Tracks n cs' (M.call n (.register u alloc)).2 := by
  rw [httpdRegisterUriHandler]
  rcases find_spec u.uri u.method h.clean with
    ⟨front, e, back, rfl, hkey, hfind⟩ | ⟨hfind, hno⟩
  · have hthere : M u.key ≠ none := by
      rw [← show e.key = u.key from hkey, h.some_of_mem (by simp)]
      simp
    refine ⟨_, by rw [hfind, Registry.call, if_pos hthere]; rfl, ?_⟩
    rw [Registry.call, if_pos hthere]
    exact h
  · have hnew : M u.key = none := (h.none_iff _).2 hno
    have hnot : ¬M u.key ≠ none := not_not.2 hnew
    rw [hfind, Registry.call, if_neg hnot]
    rcases install_spec u alloc cs with
      ⟨front, back, rfl, -, hinst⟩ | ⟨hfull, hinst⟩
    · rw [if_neg (by rw [h.full_iff]; simp)]
      cases alloc with
      | ok =>
          refine ⟨_, congrArg some hinst, ⟨?_, ?_, ?_⟩⟩
          · simpa using h.clean
          · simpa using h.length
          · have hadd := h.represents.insert hnew
            refine hadd.perm ?_
            simpa using (List.perm_middle (a := u)).symm
      | noEntry => exact ⟨_, congrArg some hinst, h⟩
      | noString =>
          rcases hcopies rfl with ⟨e, he, hkey⟩ | hfull
          · exact absurd hkey (hno e he)
          · simp at hfull
    · rw [if_pos (h.full_iff.2 hfull)]
      exact ⟨_, congrArg some hinst, h⟩

theorem Tracks.unregister (h : Tracks n cs M) (uri : List UInt8)
    (method : Nat) :
    ∃ cs', httpdUnregisterUriHandler uri method cs =
        some ((M.call n (.unregister uri method)).1, cs') ∧
      Tracks n cs' (M.call n (.unregister uri method)).2 := by
  rw [httpdUnregisterUriHandler]
  rcases find_spec uri method h.clean with
    ⟨front, e, back, rfl, hkey, hfind⟩ | ⟨hfind, hno⟩
  · have hthere : M (uri, method) ≠ none := by
      rw [← hkey, h.some_of_mem (by simp)]
      simp
    rw [hfind, Registry.call, if_pos hthere]
    refine ⟨_, rfl, ?_⟩
    have hset : (front ++ Slot.call e :: back).set front.length .null =
        front ++ .null :: back := by
      rw [List.set_append_right _ _ (Nat.le_refl _), Nat.sub_self,
        List.set_cons_zero]
    rw [hset]
    refine ⟨?_, ?_, ?_⟩
    · simpa using h.clean
    · simpa using h.length
    · have hrep := h.represents
      rw [entries_append, entries_call] at hrep
      rw [entries_append, entries_null, ← hkey]
      exact hrep.erase
  · have hnone : M (uri, method) = none := (h.none_iff _).2 hno
    rw [hfind, Registry.call, if_neg (not_not.2 hnone)]
    exact ⟨_, rfl, h⟩

theorem Tracks.unregisterUri (h : Tracks n cs M) (uri : List UInt8) :
    ∃ cs', httpdUnregisterUri uri cs =
        some ((M.call n (.unregisterUri uri)).1, cs') ∧
      Tracks n cs' (M.call n (.unregisterUri uri)).2 := by
  obtain ⟨found, cs', hloop, hfound, hentries, hlen, hclean⟩ :=
    unregisterLoop_spec uri h.clean
  have hthere : found = true ↔ ∃ method, M (uri, method) ≠ none := by
    rw [hfound]
    constructor
    · rintro ⟨u, hu, rfl⟩
      exact ⟨u.method, by
        rw [show (u.uri, u.method) = u.key from rfl, h.some_of_mem hu]
        simp⟩
    · rintro ⟨method, hne⟩
      obtain ⟨u, hu⟩ := Option.ne_none_iff_exists'.1 hne
      obtain ⟨hmem, hkey⟩ := (h.represents.iff _ _).1 hu
      exact ⟨u, hmem, congrArg Prod.fst hkey⟩
  refine ⟨cs', ?_, hclean, hlen.trans h.length, ?_⟩
  · rw [httpdUnregisterUri, hloop, Registry.call]
    by_cases hf : found = true
    · rw [if_pos (hthere.1 hf)]
      simp [hf]
    · rw [if_neg (mt hthere.2 hf)]
      simp [hf]
  · have hmap : (M.call n (.unregisterUri uri)).2 =
        fun k => if decide (k.1 ≠ uri) = true then M k else none := by
      funext k
      by_cases hk : k.1 = uri <;> simp [Registry.call, hk]
    rw [hentries, hmap]
    exact h.represents.filter fun k => k.1 ≠ uri

/-- A call does what the registry does. -/
theorem Tracks.call (h : Tracks n cs M) {a : Act} (log : List Err)
    (hcopies : CopiesUri ⟨cs, log⟩ a) :
    ∃ cs', uriCall cs a = some ((M.call n a).1, cs') ∧
      Tracks n cs' (M.call n a).2 := by
  cases a with
  | register u alloc =>
      refine h.register u ?_
      rintro rfl
      exact hcopies
  | unregister uri method => exact h.unregister uri method
  | unregisterUri uri => exact h.unregisterUri uri

/-- A request is served as the registry says. -/
theorem Tracks.dispatch (h : Tracks n cs M) (path : List UInt8)
    (method : Nat) :
    httpdUri path method cs = some (M.dispatch path method) := by
  rw [httpdUri, Registry.dispatch]
  rcases findUriHandler2_spec path method h.clean none with
    ⟨u, hu, hkey, hfind⟩ | ⟨hno, hfind⟩
  · rw [hfind, ← hkey, h.some_of_mem hu]
  · have hthere : (∃ u ∈ entries cs, u.uri = path) ↔
        ∃ method', M (path, method') ≠ none := by
      constructor
      · rintro ⟨u, hu, rfl⟩
        exact ⟨u.method, by
          rw [show (u.uri, u.method) = u.key from rfl, h.some_of_mem hu]
          simp⟩
      · rintro ⟨method', hne⟩
        obtain ⟨u, hu⟩ := Option.ne_none_iff_exists'.1 hne
        obtain ⟨hmem, hkey⟩ := (h.represents.iff _ _).1 hu
        exact ⟨u, hmem, congrArg Prod.fst hkey⟩
    rw [hfind, (h.none_iff _).2 hno]
    by_cases hp : ∃ u ∈ entries cs, u.uri = path
    · rw [if_pos hp]
      simp [hthere.1 hp]
    · rw [if_neg hp]
      simp [mt hthere.2 hp]

/-! ## After a failed copy -/

theorem find_dangling (hmem : Slot.dangling ∈ cs)
    (hno : ∀ u ∈ entries cs, u.uri ≠ uri) (err : Option HttpErr) :
    findUriHandler2 uri method cs err = none := by
  induction cs generalizing err with
  | nil => simp at hmem
  | cons c cs ih =>
      cases c with
      | dangling => rfl
      | null => exact ih (by simpa using hmem) hno err
      | call u =>
          rw [entries_call, List.forall_mem_cons] at hno
          rw [findUriHandler2, if_neg hno.1]
          exact ih (by simpa using hmem) hno.2 err

theorem find_call (uri : List UInt8) (method : Nat) {i : Nat}
    (h : httpdFindUriHandler uri method cs = some (some i)) :
    ∃ u, cs[i]? = some (.call u) := by
  induction cs generalizing i with
  | nil => cases h
  | cons c cs ih =>
      have hnext : (httpdFindUriHandler uri method cs).map (·.map (· + 1)) =
          some (some i) → ∃ u, (c :: cs)[i]? = some (.call u) := by
        intro hmap
        obtain ⟨o, ho, hi⟩ := Option.map_eq_some_iff.1 hmap
        obtain ⟨j, rfl, rfl⟩ := Option.map_eq_some_iff.1 hi
        exact ih ho
      cases c with
      | dangling => cases h
      | null => exact hnext h
      | call u =>
          rw [httpdFindUriHandler] at h
          split at h
          · cases h
            exact ⟨u, rfl⟩
          · exact hnext h

theorem install_dangling (u : HttpdUriT) (alloc : Alloc)
    (hmem : Slot.dangling ∈ cs) : Slot.dangling ∈ (install u alloc cs).2 := by
  rcases install_spec u alloc cs with
    ⟨front, back, rfl, -, hinst⟩ | ⟨-, hinst⟩
  · rw [hinst]
    have : Slot.dangling ∈ front ∨ Slot.dangling ∈ back := by simpa using hmem
    cases alloc <;> simp [this]
  · rw [hinst]
    exact hmem

theorem unregisterLoop_dangling (uri : List UInt8)
    (hmem : Slot.dangling ∈ cs) : unregisterLoop uri cs = none := by
  induction cs with
  | nil => simp at hmem
  | cons c cs ih =>
      cases c with
      | dangling => rfl
      | null => rw [unregisterLoop, ih (by simpa using hmem)]; rfl
      | call u => rw [unregisterLoop, ih (by simpa using hmem)]; rfl

/-- A dangling pointer stays in the table. -/
theorem call_dangling {a : Act} {r : Err × List Slot}
    (hmem : Slot.dangling ∈ cs) (h : uriCall cs a = some r) :
    Slot.dangling ∈ r.2 := by
  cases a with
  | register u alloc =>
      obtain ⟨o, -, rfl⟩ := Option.map_eq_some_iff.1 h
      cases o with
      | some i => exact hmem
      | none => exact install_dangling u alloc hmem
  | unregister uri method =>
      obtain ⟨o, ho, rfl⟩ := Option.map_eq_some_iff.1 h
      cases o with
      | none => exact hmem
      | some i =>
          obtain ⟨u, hu⟩ := find_call uri method ho
          obtain ⟨j, hj⟩ := List.mem_iff_getElem?.1 hmem
          have hne : i ≠ j := by
            rintro rfl
            rw [hu] at hj
            cases hj
          refine List.mem_iff_getElem?.2 ⟨j, ?_⟩
          rw [List.getElem?_set_ne hne]
          exact hj
  | unregisterUri uri =>
      rw [uriCall, httpdUnregisterUri, unregisterLoop_dangling uri hmem] at h
      cases h

/-- A copy that fails leaves one. -/
theorem register_dangling {u : HttpdUriT} {r : Err × List Slot}
    (hclean : Slot.dangling ∉ cs) (hfree : Slot.null ∈ cs)
    (hnew : ∀ e ∈ entries cs, e.key ≠ u.key)
    (h : httpdRegisterUriHandler u .noString cs = some r) :
    Slot.dangling ∈ r.2 := by
  rw [httpdRegisterUriHandler] at h
  rcases find_spec u.uri u.method hclean with
    ⟨front, e, back, rfl, hkey, -⟩ | ⟨hfind, -⟩
  · exact absurd hkey (hnew e (by simp))
  · rw [hfind, Option.map_some] at h
    cases h
    rcases install_spec u .noString cs with
      ⟨front, back, rfl, -, hinst⟩ | ⟨hfull, -⟩
    · rw [hinst]
      simp
    · exact absurd hfree hfull

/-! ## Runs -/

theorem run_tracks (acts : List Act) {s : Server} {t : Abstract}
    (h : Tracks n s.calls t.registry) (hlog : s.returned = t.returned)
    (hmeets : uriMachine.Meets CopiesUri s acts) :
    ∃ s' t', uriMachine.run s acts = some s' ∧
      (registryMachine n).run t acts = some t' ∧
      Tracks n s'.calls t'.registry ∧ s'.returned = t'.returned := by
  induction acts generalizing s t with
  | nil => exact ⟨s, t, rfl, rfl, h, hlog⟩
  | cons a acts ih =>
      obtain ⟨cs', hcall, htracks⟩ := h.call s.returned hmeets.1
      have hs : uriMachine.step s a = some
          ⟨cs', s.returned ++ [(t.registry.call n a).1]⟩ := by
        rw [uriMachine]
        simp only [hcall, Option.map_some]
      obtain ⟨s', t', hrun, hrun', hres⟩ := ih htracks
        (s := ⟨cs', s.returned ++ [(t.registry.call n a).1]⟩)
        (t := ⟨(t.registry.call n a).2,
          t.returned ++ [(t.registry.call n a).1]⟩)
        (by rw [hlog]) (hmeets.2 _ hs)
      refine ⟨s', t', ?_, hrun', hres⟩
      rw [Machine.run_cons, hs]
      exact hrun

theorem run_clean {acts : List Act} {s : Server}
    (h : uriMachine.run (.init n) acts = some s)
    (hmeets : uriMachine.Meets CopiesUri (.init n) acts) :
    Slot.dangling ∉ s.calls := by
  obtain ⟨s', t, hs', -, htracks, -⟩ :=
    run_tracks acts (t := ⟨fun _ => none, []⟩) Tracks.start rfl hmeets
  obtain rfl := Option.some.inj (h.symm.trans hs')
  exact htracks.clean

theorem run_dangling {acts : List Act} {s : Server}
    (h : uriMachine.run (.init n) acts = some s) :
    ¬uriMachine.Meets CopiesUri (.init n) acts →
      Slot.dangling ∈ s.calls := by
  refine Machine.run_induction (P := fun acts s =>
    ¬uriMachine.Meets CopiesUri (.init n) acts → Slot.dangling ∈ s.calls)
    (fun hno => absurd trivial hno) ?_ h
  intro as u a v hu ih hstep hno
  obtain ⟨r, hr, rfl⟩ := Option.map_eq_some_iff.1 hstep
  rw [Machine.meets_concat hu, not_and] at hno
  by_cases hmeets : uriMachine.Meets CopiesUri (.init n) as
  · have hbad := hno hmeets
    have hclean := run_clean hu hmeets
    match a, hbad, hr with
    | .register e .noString, hbad, hr =>
        simp only [CopiesUri, not_or, not_not, not_exists, not_and] at hbad
        exact register_dangling hclean hbad.2 hbad.1 hr
    | .register e .ok, hbad, _ => exact absurd trivial hbad
    | .register e .noEntry, hbad, _ => exact absurd trivial hbad
    | .unregister _ _, hbad, _ => exact absurd trivial hbad
    | .unregisterUri _, hbad, _ => exact absurd trivial hbad
  · exact call_dangling (ih hmeets) hr

/-- **The table of handlers is a map.**  As long as no copy of a URI fails,
every call returns what the finite map returns, and every request is served
as the map says.  After a copy that failed there is a request on which the
server reads what was freed. -/
theorem registry_is_map (n : Nat) (acts : List Act) :
    (uriMachine.Meets CopiesUri (.init n) acts → ∃ s t,
      uriMachine.run (.init n) acts = some s ∧
      (registryMachine n).run ⟨fun _ => none, []⟩ acts = some t ∧
      s.returned = t.returned ∧ ∀ path method,
        httpdUri path method s.calls =
          some (t.registry.dispatch path method)) ∧
    ∀ s, uriMachine.run (.init n) acts = some s →
      (uriMachine.Meets CopiesUri (.init n) acts ↔
        ∀ path method, httpdUri path method s.calls ≠ none) := by
  have hmap : uriMachine.Meets CopiesUri (.init n) acts → ∃ s t,
      uriMachine.run (.init n) acts = some s ∧
      (registryMachine n).run ⟨fun _ => none, []⟩ acts = some t ∧
      s.returned = t.returned ∧ ∀ path method,
        httpdUri path method s.calls =
          some (t.registry.dispatch path method) := by
    intro hmeets
    obtain ⟨s, t, hs, ht, htracks, hlog⟩ := run_tracks acts
      (t := ⟨fun _ => none, []⟩) Tracks.start rfl hmeets
    exact ⟨s, t, hs, ht, hlog, htracks.dispatch⟩
  refine ⟨hmap, fun s hs => ⟨fun hmeets path method => ?_, fun hall => ?_⟩⟩
  · obtain ⟨s', t, hs', -, -, hserved⟩ := hmap hmeets
    obtain rfl := Option.some.inj (hs.symm.trans hs')
    rw [hserved]
    simp
  · by_contra hno
    -- a URI that no handler has
    obtain ⟨path, hpath⟩ := Infinite.exists_notMem_finset
      ((entries s.calls).map HttpdUriT.uri).toFinset
    refine hall path 0 (find_dangling (run_dangling hs hno) ?_ none)
    intro u hu heq
    refine hpath (List.mem_toFinset.2 ?_)
    exact heq ▸ List.mem_map_of_mem hu

end EspAdf.Ports.HttpdUri
