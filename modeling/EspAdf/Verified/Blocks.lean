import Mathlib

/-!
# Released blocks

A program that allocates and frees is modelled with its memory intact, and
with a ledger beside it: which blocks have been released, and whether one of
them was used or released again after that.  A fault stays, whatever is done
then.

* `faulted_touchAll`, `faulted_release` — when an access faults.
* `Clean` — every block of a list was released once, and no access faulted.

The module names nothing of the modelled repository.
-/

namespace EspAdf.Verified

/-- What was released, and whether that was respected. -/
structure Blocks (Block : Type*) where
  released : List Block
  faulted : Bool
  deriving DecidableEq, Repr

namespace Blocks

variable {Block : Type*} [DecidableEq Block]

/-- Nothing is released. -/
def empty : Blocks Block := ⟨[], false⟩

/-- The blocks `bs` are used. -/
def touchAll (h : Blocks Block) (bs : List Block) : Blocks Block :=
  { h with faulted := h.faulted || bs.any fun b => b ∈ h.released }

/-- `b` is released. -/
def release (h : Blocks Block) (b : Block) : Blocks Block :=
  ⟨b :: h.released, h.faulted || decide (b ∈ h.released)⟩

/-- The blocks `bs` are released, each once, and none was used after that. -/
def Clean (h : Blocks Block) (bs : List Block) : Prop :=
  h.released.Perm bs ∧ h.faulted = false

variable {h : Blocks Block}

@[simp] theorem released_touchAll (bs : List Block) :
    (h.touchAll bs).released = h.released := rfl

@[simp] theorem released_release (b : Block) :
    (h.release b).released = b :: h.released := rfl

theorem faulted_touchAll {bs : List Block} :
    (h.touchAll bs).faulted = false ↔
      h.faulted = false ∧ ∀ b ∈ bs, b ∉ h.released := by
  simp [touchAll]

theorem faulted_release {b : Block} :
    (h.release b).faulted = false ↔ h.faulted = false ∧ b ∉ h.released := by
  simp [release]

end Blocks

end EspAdf.Verified
