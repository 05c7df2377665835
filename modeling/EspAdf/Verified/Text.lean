import Mathlib.Data.Nat.Digits.Lemmas
import Mathlib.Data.UInt

/-!
# Lines and numerals in bytes

* `splitLine_line` — a line that has no carriage return is read back, with
  what stands behind its end.
* `readNumeral_numeral` — a number that is printed in some base is read back,
  if the digits are.

The module names nothing of the modelled repository.
-/

namespace EspAdf.Verified.Text

/-- The bytes of a literal. -/
def ascii (s : String) : List UInt8 :=
  s.toList.map fun c => UInt8.ofNat c.toNat

/-! ## Lines -/

/-- The first line, and what stands behind its end. -/
def splitLine : List UInt8 → Option (List UInt8 × List UInt8)
  | [] => none
  | c :: rest =>
      if c = 13 ∧ rest.head? = some 10 then some ([], rest.tail)
      else (splitLine rest).map fun r => (c :: r.1, r.2)

theorem splitLine_line {l : List UInt8} (h : 13 ∉ l) (rest : List UInt8) :
    splitLine (l ++ 13 :: 10 :: rest) = some (l, rest) := by
  induction l with
  | nil => rfl
  | cons c l ih =>
      rw [List.mem_cons, not_or] at h
      have hc : ¬(c = 13 ∧ (l ++ 13 :: 10 :: rest).head? = some 10) :=
        fun hend => h.1 hend.1.symm
      rw [List.cons_append, splitLine, if_neg hc, ih h.2]
      rfl

/-! ## Numerals -/

/-- A number in base `b`, the first digit in front. -/
def numeral (b : Nat) (digit : Nat → UInt8) (n : Nat) : List UInt8 :=
  if n = 0 then [digit 0] else (Nat.digits b n).reverse.map digit

/-- The number that some digits stand for. -/
def readNumeral (b : Nat) (value : UInt8 → Option Nat) (s : List UInt8) :
    Option Nat :=
  if s = [] then none
  else (s.mapM value).map fun ds => Nat.ofDigits b ds.reverse

variable {b : Nat} {digit : Nat → UInt8} {value : UInt8 → Option Nat}

theorem mem_numeral (hb : 1 < b) {n : Nat} {c : UInt8}
    (h : c ∈ numeral b digit n) : ∃ d < b, c = digit d := by
  rw [numeral] at h
  split at h
  · exact ⟨0, by omega, List.mem_singleton.1 h⟩
  · obtain ⟨d, hd, rfl⟩ := List.mem_map.1 h
    exact ⟨d, Nat.digits_lt_base hb (List.mem_reverse.1 hd), rfl⟩

theorem mapM_digits (hvalue : ∀ d < b, value (digit d) = some d)
    {ds : List Nat} (hds : ∀ d ∈ ds, d < b) :
    (ds.map digit).mapM value = some ds := by
  induction ds with
  | nil => rfl
  | cons d ds ih =>
      rw [List.forall_mem_cons] at hds
      rw [List.map_cons, List.mapM_cons, hvalue d hds.1, ih hds.2]
      rfl

theorem readNumeral_numeral (hb : 1 < b)
    (hvalue : ∀ d < b, value (digit d) = some d) (n : Nat) :
    readNumeral b value (numeral b digit n) = some n := by
  rw [numeral]
  split
  · rename_i hn
    rw [readNumeral, if_neg (List.cons_ne_nil _ _), List.mapM_cons,
      hvalue 0 (by omega), hn]
    rfl
  · rename_i hn
    have hne : (Nat.digits b n).reverse.map digit ≠ [] := by
      simpa using (Nat.digits_ne_nil_iff_ne_zero.2 hn)
    rw [readNumeral, if_neg hne, mapM_digits hvalue fun d hd =>
      Nat.digits_lt_base hb (List.mem_reverse.1 hd)]
    rw [Option.map_some, List.reverse_reverse, Nat.ofDigits_digits]

/-- A numeral below a power of the base is that short. -/
theorem length_numeral_le (hb : 1 < b) {n k : Nat} (hk : 0 < k)
    (h : n < b ^ k) : (numeral b digit n).length ≤ k := by
  rw [numeral]
  split
  · exact hk
  · rw [List.length_map, List.length_reverse]
    exact (Nat.digits_length_le_iff hb n).2 h

end EspAdf.Verified.Text
