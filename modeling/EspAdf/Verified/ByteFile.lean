import Mathlib

/-!
# Writing into the middle of a file

A file is the list of its bytes.  A write at a position replaces what is
there, makes the file longer where it runs over the end, and fills a gap
between the end and the position.  Writing nothing changes nothing, wherever
the position is.

* `writeAt_end`, `writeAt_head` — the two writes whose result is exact: one
  that starts at the end, and one that replaces the head.
* `length_writeAt_le` — no write makes the file longer than where it ends.

The module names nothing of the modelled repository.
-/

namespace EspAdf.Verified

variable {α : Type*}

/-- `ys` written at `pos` into `xs`; a gap is filled with `fill`. -/
def writeAt (fill : α) (xs : List α) (pos : Nat) (ys : List α) : List α :=
  if ys.isEmpty then xs
  else xs.take pos ++ List.replicate (pos - xs.length) fill ++ ys ++
    xs.drop (pos + ys.length)

@[simp] theorem writeAt_nil (fill : α) (xs : List α) (pos : Nat) :
    writeAt fill xs pos [] = xs := rfl

theorem writeAt_of_ne_nil (fill : α) (xs : List α) (pos : Nat)
    {ys : List α} (h : ys ≠ []) :
    writeAt fill xs pos ys =
      xs.take pos ++ List.replicate (pos - xs.length) fill ++ ys ++
        xs.drop (pos + ys.length) := by
  rw [writeAt, if_neg (by simpa using h)]

/-- A write at the end appends. -/
theorem writeAt_end (fill : α) (xs ys : List α) :
    writeAt fill xs xs.length ys = xs ++ ys := by
  by_cases h : ys = []
  · rw [h, writeAt_nil, List.append_nil]
  · rw [writeAt_of_ne_nil fill xs _ h, List.take_length, Nat.sub_self,
      List.drop_eq_nil_of_le (Nat.le_add_right _ _)]
    simp

/-- A write at the beginning replaces a head of its own length. -/
theorem writeAt_head (fill : α) {hd ys : List α} (xs : List α)
    (h : ys.length = hd.length) :
    writeAt fill (hd ++ xs) 0 ys = ys ++ xs := by
  by_cases hnil : ys = []
  · rw [hnil] at h ⊢
    have hhd : hd = [] := List.eq_nil_of_length_eq_zero h.symm
    rw [hhd, writeAt_nil]
  · rw [writeAt_of_ne_nil fill _ _ hnil, Nat.zero_add, h, List.drop_left]
    simp

/-- A write leaves the length, or the file ends where the write does. -/
theorem length_writeAt_le (fill : α) (xs : List α) (pos : Nat)
    (ys : List α) :
    (writeAt fill xs pos ys).length ≤ max xs.length (pos + ys.length) := by
  by_cases h : ys = []
  · rw [h, writeAt_nil]
    exact Nat.le_max_left _ _
  · rw [writeAt_of_ne_nil fill xs _ h]
    simp only [List.length_append, List.length_take, List.length_replicate,
      List.length_drop]
    omega

end EspAdf.Verified
