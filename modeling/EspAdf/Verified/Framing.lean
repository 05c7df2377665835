import Mathlib.Data.List.Basic
import Mathlib.Data.List.TakeDrop

/-!
# Messages in a stream: heads that are found symbol by symbol

A `Scanner` reads symbols until it knows its verdict.  In a `Format` the
verdict says how many of the symbols it has read lie behind the head of the
message, and how long the body is.  `messages` cuts a stream into messages.

* `feed_append` — reading a stream in pieces is reading it at once.
* `next_eq_some_iff` — what is cut off a stream is a well formed message in
  front of the rest, and every such message is cut off.
* `messages_eq_iff` — the same for a list of messages.

The module names nothing of the modelled repository.
-/

namespace EspAdf.Verified.Framing

/-- An automaton that reads symbols until it stops with a verdict. -/
structure Scanner (State Symbol Verdict : Type*) where
  start : State
  step : State → Symbol → State ⊕ Verdict

/-- Where an automaton is after some symbols: still reading, or stopped
behind so many of them. -/
inductive Fed (State Verdict : Type*) where
  | more (s : State)
  | stop (n : Nat) (v : Verdict)
  deriving DecidableEq, Repr

variable {State Symbol Verdict : Type*}

/-- The position as it is behind `k` more symbols. -/
def Fed.shift (k : Nat) : Fed State Verdict → Fed State Verdict
  | .more s => .more s
  | .stop n v => .stop (k + n) v

@[simp] theorem Fed.shift_more (k : Nat) (s : State) :
    (Fed.more s : Fed State Verdict).shift k = .more s := rfl

@[simp] theorem Fed.shift_stop (k n : Nat) (v : Verdict) :
    (Fed.stop n v : Fed State Verdict).shift k = .stop (k + n) v := rfl

@[simp] theorem Fed.shift_zero (f : Fed State Verdict) : f.shift 0 = f := by
  cases f with
  | more s => rfl
  | stop n v => rw [Fed.shift_stop, Nat.zero_add]

theorem Fed.shift_shift (j k : Nat) (f : Fed State Verdict) :
    (f.shift j).shift k = f.shift (k + j) := by
  cases f with
  | more s => rfl
  | stop n v =>
      rw [Fed.shift_stop, Fed.shift_stop, Fed.shift_stop, Nat.add_assoc]

namespace Scanner

variable (M : Scanner State Symbol Verdict)

def feed (s : State) : List Symbol → Fed State Verdict
  | [] => .more s
  | x :: xs =>
      match M.step s x with
      | .inl s' => (feed s' xs).shift 1
      | .inr v => .stop 1 v

variable {M} {s t : State} {xs : List Symbol} {n : Nat} {v : Verdict}

/-- Reading on from where a piece of the stream led. -/
theorem feed_append (ys : List Symbol) (h : M.feed s xs = .more t) :
    M.feed s (xs ++ ys) = (M.feed t ys).shift xs.length := by
  induction xs generalizing s with
  | nil =>
      cases h
      exact (Fed.shift_zero _).symm
  | cons x xs ih =>
      rw [feed] at h
      rw [List.cons_append, feed]
      cases hstep : M.step s x with
      | inr v =>
          rw [hstep] at h
          cases h
      | inl s' =>
          simp only [hstep] at h ⊢
          cases hfed : M.feed s' xs with
          | stop n v =>
              rw [hfed] at h
              cases h
          | more u =>
              rw [hfed] at h
              cases h
              rw [ih hfed, Fed.shift_shift, List.length_cons, Nat.add_comm]

/-- What follows the symbol that decides is not looked at. -/
theorem feed_append_stop (ys : List Symbol)
    (h : M.feed s xs = .stop n v) : M.feed s (xs ++ ys) = .stop n v := by
  induction xs generalizing s n with
  | nil => cases h
  | cons x xs ih =>
      rw [feed] at h
      rw [List.cons_append, feed]
      cases hstep : M.step s x with
      | inr v =>
          rw [hstep] at h
          exact h
      | inl s' =>
          simp only [hstep] at h ⊢
          cases hfed : M.feed s' xs with
          | more u =>
              rw [hfed] at h
              cases h
          | stop m w =>
              rw [hfed] at h
              cases h
              rw [ih hfed]
              rfl

theorem feed_stop_bounds (h : M.feed s xs = .stop n v) :
    0 < n ∧ n ≤ xs.length := by
  induction xs generalizing s n with
  | nil => cases h
  | cons x xs ih =>
      rw [feed] at h
      cases hstep : M.step s x with
      | inr w =>
          rw [hstep] at h
          cases h
          exact ⟨Nat.one_pos, by simp⟩
      | inl s' =>
          simp only [hstep] at h
          cases hfed : M.feed s' xs with
          | more u =>
              rw [hfed] at h
              cases h
          | stop m w =>
              rw [hfed] at h
              cases h
              have := ih hfed
              rw [List.length_cons]
              omega

/-- A stream is decided as soon as the symbols up to the verdict are read. -/
theorem feed_of_append {ys : List Symbol}
    (h : M.feed s (xs ++ ys) = .stop n v) (hn : n ≤ xs.length) :
    M.feed s xs = .stop n v := by
  cases hfed : M.feed s xs with
  | stop m w => rw [← h, feed_append_stop ys hfed]
  | more t =>
      rw [feed_append ys hfed] at h
      cases hrest : M.feed t ys with
      | more u =>
          rw [hrest] at h
          cases h
      | stop m w =>
          rw [hrest] at h
          cases h
          have := feed_stop_bounds hrest
          omega

end Scanner

/-- Messages of a head, which a scanner finds, and a body. -/
structure Format (State Symbol Verdict : Type*) extends
    Scanner State Symbol Verdict where
  /-- How many symbols the scanner may read. -/
  limit : Nat
  /-- How many of the symbols it has read lie behind the head. -/
  look : Verdict → Nat
  /-- The length of the body; none if the head is malformed. -/
  bodyLength : Verdict → Option Nat
  look_le : ∀ v k, bodyLength v = some k → look v ≤ k

structure Message (Symbol Verdict : Type*) where
  head : List Symbol
  verdict : Verdict
  body : List Symbol
  deriving DecidableEq, Repr

def Message.symbols (m : Message Symbol Verdict) : List Symbol :=
  m.head ++ m.body

namespace Format

variable (F : Format State Symbol Verdict)

/-- The message is one of the format. -/
structure Ok (m : Message Symbol Verdict) : Prop where
  stops : F.feed F.start m.symbols =
    .stop (m.head.length + F.look m.verdict) m.verdict
  limit : m.head.length + F.look m.verdict ≤ F.limit
  body : F.bodyLength m.verdict = some m.body.length

/-- The first message of a stream, and what follows it. -/
def next (stream : List Symbol) :
    Option (Message Symbol Verdict × List Symbol) :=
  match F.feed F.start stream with
  | .more _ => none
  | .stop n v =>
      if n ≤ F.limit ∧ F.look v ≤ n then
        (F.bodyLength v).bind fun k =>
          let rest := stream.drop (n - F.look v)
          if k ≤ rest.length then
            some (⟨stream.take (n - F.look v), v, rest.take k⟩, rest.drop k)
          else none
      else none

/-- The first messages of a stream, as many as asked for. -/
def messages : Nat → List Symbol → List (Message Symbol Verdict)
  | 0, _ => []
  | k + 1, stream =>
      match F.next stream with
      | none => []
      | some (m, rest) => m :: messages k rest

variable {F} {stream rest : List Symbol} {m : Message Symbol Verdict}

theorem next_of_ok (h : F.Ok m) (rest : List Symbol) :
    F.next (m.symbols ++ rest) = some (m, rest) := by
  rw [next, Scanner.feed_append_stop rest h.stops]
  have hhead : m.symbols ++ rest = m.head ++ (m.body ++ rest) :=
    List.append_assoc _ _ _
  simp only [Nat.add_sub_cancel, hhead, List.take_left, List.drop_left,
    h.body, Option.bind_some]
  rw [if_pos ⟨h.limit, Nat.le_add_left _ _⟩, if_pos (by simp)]

theorem ok_of_next (h : F.next stream = some (m, rest)) :
    F.Ok m ∧ stream = m.symbols ++ rest := by
  rw [next] at h
  cases hfed : F.feed F.start stream with
  | more s =>
      rw [hfed] at h
      cases h
  | stop n v =>
      simp only [hfed, Option.ite_none_right_eq_some,
        Option.bind_eq_some_iff] at h
      obtain ⟨⟨hlimit, hlook⟩, k, hbody, hk, heq⟩ := h
      cases heq
      have hn := (Scanner.feed_stop_bounds hfed).2
      have hle := F.look_le v k hbody
      have hlen : (stream.take (n - F.look v)).length = n - F.look v := by
        rw [List.length_take, Nat.min_eq_left (by omega)]
      have hcut : stream.take (n - F.look v) ++
          ((stream.drop (n - F.look v)).take k ++
            (stream.drop (n - F.look v)).drop k) = stream := by
        rw [List.take_append_drop, List.take_append_drop]
      refine ⟨⟨?_, ?_, ?_⟩, ?_⟩
      · rw [hlen, Nat.sub_add_cancel hlook]
        rw [← hcut, ← List.append_assoc] at hfed
        refine Scanner.feed_of_append hfed ?_
        rw [Message.symbols, List.length_append, hlen, List.length_take,
          Nat.min_eq_left hk]
        omega
      · rw [hlen, Nat.sub_add_cancel hlook]
        exact hlimit
      · rw [hbody, List.length_take, Nat.min_eq_left hk]
      · rw [Message.symbols, List.append_assoc]
        exact hcut.symm

/-- What is cut off a stream is a message of the format in front of the
rest. -/
theorem next_eq_some_iff : F.next stream = some (m, rest) ↔
    F.Ok m ∧ stream = m.symbols ++ rest := by
  refine ⟨ok_of_next, ?_⟩
  rintro ⟨hok, rfl⟩
  exact next_of_ok hok rest

/-- A stream is cut into the messages `ms` exactly if it starts with them and
each is of the format. -/
theorem messages_eq_iff {ms : List (Message Symbol Verdict)} :
    F.messages ms.length stream = ms ↔
      (∀ m ∈ ms, F.Ok m) ∧
        ∃ rest, stream = ms.flatMap Message.symbols ++ rest := by
  induction ms generalizing stream with
  | nil => simp [messages]
  | cons m ms ih =>
      rw [List.length_cons, messages]
      constructor
      · intro h
        cases hnext : F.next stream with
        | none =>
            rw [hnext] at h
            cases h
        | some p =>
            obtain ⟨m', rest⟩ := p
            simp only [hnext, List.cons.injEq] at h
            obtain ⟨rfl, h⟩ := h
            obtain ⟨hok, rfl⟩ := next_eq_some_iff.1 hnext
            obtain ⟨hall, rest', rfl⟩ := ih.1 h
            refine ⟨List.forall_mem_cons.2 ⟨hok, hall⟩, rest', ?_⟩
            rw [List.flatMap_cons, List.append_assoc]
      · rintro ⟨hall, rest, rfl⟩
        obtain ⟨hok, hall⟩ := List.forall_mem_cons.1 hall
        rw [List.flatMap_cons, List.append_assoc, next_of_ok hok]
        simp only [List.cons.injEq, true_and]
        exact ih.2 ⟨hall, rest, rfl⟩

end Format

end EspAdf.Verified.Framing
