import Mathlib

/-!
# Strings in a block of memory

A block is the list of its bytes, a pointer into it is an index, and the
string at a pointer ends before the first zero.  `Holds mem p s` says that
the string at `p` is `s` and that its zero is in the block.

* `Holds.tail` — behind a part of a string stands the rest of it.
* `Holds.cut`, `Holds.behind` — a zero written into a string ends it there,
  and leaves its rest behind the zero.
* `Holds.of_take` — a string is not touched by what happens behind its zero.
* `take_store`, `Holds.of_prefix` — bytes written behind what is known of a
  block, and the strings in it.

The module names nothing of the modelled repository.
-/

namespace EspAdf.Verified.CString

/-- The string that starts with these bytes. -/
def cString (mem : List UInt8) : List UInt8 := mem.takeWhile fun c => c != 0

/-- The string at `p` is `s`, and ends in the block. -/
def Holds (mem : List UInt8) (p : Nat) (s : List UInt8) : Prop :=
  0 ∉ s ∧ ∃ pre z, mem = pre ++ (s ++ 0 :: z) ∧ pre.length = p

variable {mem : List UInt8} {p : Nat} {s : List UInt8}

theorem cString_append (h : 0 ∉ s) (z : List UInt8) :
    cString (s ++ 0 :: z) = s := by
  rw [cString, List.takeWhile_append_of_pos]
  · simp
  · intro c hc
    simp only [bne_iff_ne, ne_eq]
    exact fun h0 => h (h0 ▸ hc)

/-! ## What stands at a pointer -/

theorem Holds.cString (h : Holds mem p s) : cString (mem.drop p) = s := by
  obtain ⟨hs, pre, z, rfl, rfl⟩ := h
  rw [List.drop_left, cString_append hs]

theorem Holds.lt (h : Holds mem p s) : p + s.length < mem.length := by
  obtain ⟨-, pre, z, rfl, rfl⟩ := h
  simp

/-- The byte at `p + i`. -/
theorem Holds.byte (h : Holds mem p s) {i : Nat} (hi : i ≤ s.length) :
    mem[p + i]? = (s ++ [0])[i]? := by
  obtain ⟨-, pre, z, rfl, rfl⟩ := h
  rw [List.getElem?_append_right (by omega), Nat.add_sub_cancel_left,
    List.append_cons, List.getElem?_append_left (by simp; omega)]

/-- The zero behind the string. -/
theorem Holds.zero (h : Holds mem p s) : mem[p + s.length]? = some 0 := by
  rw [h.byte (Nat.le_refl _)]
  simp

/-- The first byte of a string is no zero, unless the string is empty. -/
theorem Holds.first_zero (h : Holds mem p s) : mem[p]? = some 0 ↔ s = [] := by
  have hbyte := h.byte (Nat.zero_le _)
  rw [Nat.add_zero] at hbyte
  rw [hbyte]
  cases s with
  | nil => simp
  | cons c s =>
      have hc : c ≠ 0 := fun h0 => h.1 (h0 ▸ List.mem_cons_self)
      simp [hc]

/-- Behind a part of a string stands the rest of it. -/
theorem Holds.tail {a b : List UInt8} (h : Holds mem p (a ++ b)) :
    Holds mem (p + a.length) b := by
  obtain ⟨hs, pre, z, rfl, rfl⟩ := h
  refine ⟨fun h0 => hs (List.mem_append_right a h0), pre ++ a, z, ?_, ?_⟩
  · simp
  · rw [List.length_append]

/-! ## A zero written into a string -/

/-- A zero in the place of `c` ends the string before it. -/
theorem Holds.cut {a b : List UInt8} {c : UInt8}
    (h : Holds mem p (a ++ c :: b)) :
    Holds (mem.set (p + a.length) 0) p a := by
  obtain ⟨hs, pre, z, rfl, rfl⟩ := h
  refine ⟨fun h0 => hs (List.mem_append_left _ h0), pre, b ++ 0 :: z, ?_, rfl⟩
  rw [List.set_append_right _ _ (by omega), Nat.add_sub_cancel_left,
    List.append_assoc, List.set_append_right _ _ (Nat.le_refl _), Nat.sub_self]
  rfl

/-- What was behind `c` is behind the zero. -/
theorem Holds.behind {a b : List UInt8} {c : UInt8}
    (h : Holds mem p (a ++ c :: b)) :
    Holds (mem.set (p + a.length) 0) (p + a.length + 1) b := by
  obtain ⟨hs, pre, z, rfl, rfl⟩ := h
  have hb : 0 ∉ b := fun h0 =>
    hs (List.mem_append_right a (List.mem_cons_of_mem c h0))
  refine ⟨hb, pre ++ a ++ [0], z, ?_, by simp [Nat.add_assoc]⟩
  rw [List.set_append_right _ _ (by omega), Nat.add_sub_cancel_left,
    List.append_assoc, List.set_append_right _ _ (Nat.le_refl _), Nat.sub_self]
  simp

/-- A string is not touched by what happens behind its zero. -/
theorem Holds.of_take {mem' : List UInt8} {q : Nat} (h : Holds mem p s)
    (hq : p + s.length < q) (htake : mem'.take q = mem.take q) :
    Holds mem' p s := by
  obtain ⟨hs, pre, z, rfl, rfl⟩ := h
  refine ⟨hs, pre, (z.take (q - (pre.length + s.length + 1))) ++ mem'.drop q,
    ?_, rfl⟩
  obtain ⟨k, rfl⟩ := Nat.exists_eq_add_of_lt hq
  have hmem : (pre ++ (s ++ 0 :: z)).take (pre.length + s.length + k + 1) =
      pre ++ (s ++ 0 :: z.take k) := by
    have hsplit : pre ++ (s ++ 0 :: z) = (pre ++ (s ++ [0])) ++ z := by simp
    rw [hsplit, List.take_append, List.take_of_length_le (by simp; omega)]
    have hrest : pre.length + s.length + k + 1 -
        (pre ++ (s ++ [0])).length = k := by
      simp only [List.length_append, List.length_singleton]
      omega
    rw [hrest]
    simp
  rw [hmem] at htake
  conv_lhs => rw [← List.take_append_drop (pre.length + s.length + k + 1) mem']
  rw [htake]
  have hk : pre.length + s.length + k + 1 -
      (pre.length + s.length + 1) = k := by omega
  rw [hk]
  simp

/-! ## Bytes written into a block -/

/-- `bytes` written at `p`. -/
def store (mem : List UInt8) (p : Nat) (bytes : List UInt8) : List UInt8 :=
  mem.take p ++ (bytes ++ mem.drop (p + bytes.length))

variable {bytes : List UInt8}

theorem length_store (h : p + bytes.length ≤ mem.length) :
    (store mem p bytes).length = mem.length := by
  rw [store, List.length_append, List.length_append, List.length_take,
    List.length_drop]
  omega

/-- What is known of the block grows by what is written behind it. -/
theorem take_store (h : p ≤ mem.length) :
    (store mem p bytes).take (p + bytes.length) = mem.take p ++ bytes := by
  have hlength : (mem.take p ++ bytes).length = p + bytes.length := by
    rw [List.length_append, List.length_take_of_le h]
  rw [store, ← List.append_assoc, ← hlength, List.take_left]

/-- A string in the part that is known. -/
theorem Holds.of_prefix {q : Nat} {a b : List UInt8} (hs : 0 ∉ s)
    (h : mem.take q = a ++ (s ++ 0 :: b)) : Holds mem a.length s := by
  refine ⟨hs, a, b ++ mem.drop q, ?_, rfl⟩
  conv_lhs => rw [← List.take_append_drop q mem, h]
  simp

/-- Bytes in the part that is known. -/
theorem bytes_of_prefix {q : Nat} {a b : List UInt8}
    (h : mem.take q = a ++ (s ++ b)) :
    (mem.drop a.length).take s.length = s := by
  conv_lhs => rw [← List.take_append_drop q mem, h]
  rw [List.append_assoc, List.drop_left, List.append_assoc, List.take_left]

end EspAdf.Verified.CString
