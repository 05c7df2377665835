import Mathlib

/-!
# `i2s_stream.c`: exchanging the samples of mono data

The I2S unit takes the two samples of a frame in the other order, so
`i2s_mono_fix` exchanges them before mono data is written and after it is read.
It has one loop for samples of 16 bits and one for samples of 32 bits.  Both
exchange sample `i` with sample `i + 1`; the first advances `i` by 2, the second
by 4, and leaves every other pair as it is.

After `m` rounds byte `j` of the buffer is the old byte of the `partner` of its
sample (`swaps_getElem?`), and everything else is arithmetic on sample numbers.
-/

namespace EspAdf.Ports.I2sMonoFix

/-! ## The function -/

def ESP_OK : Int := 0
def ESP_FAIL : Int := -1

/-- The exchange of `temp_buf[i]` and `temp_buf[i + 1]`, of `w` bytes each. -/
def exchange (w i : Nat) (sbuff : List UInt8) : List UInt8 :=
  sbuff.take (w * i) ++ (sbuff.drop (w * (i + 1))).take w ++
    (sbuff.drop (w * i)).take w ++ sbuff.drop (w * (i + 2))

/-- The buffer after `m` rounds of a loop with `i += stride`. -/
def swaps (w stride : Nat) (sbuff : List UInt8) : Nat → List UInt8
  | 0 => sbuff
  | m + 1 => exchange w (stride * m) (swaps w stride sbuff m)

/-- How many of `0`, `stride`, `2 * stride`, ... are below `n`. -/
def rounds (n stride : Nat) : Nat := (n + stride - 1) / stride

/-- `i2s_mono_fix`: what it returns, and the buffer. -/
def i2sMonoFix (bits : Int) (sbuff : List UInt8) (len : Nat) :
    Int × List UInt8 :=
  if bits = 16 then (ESP_OK, swaps 2 2 sbuff (rounds (len / 2) 2))
  else if bits = 32 then (ESP_OK, swaps 4 4 sbuff (rounds (len / 4) 4))
  else (ESP_FAIL, sbuff)

/-! ## The property -/

/-- Sample `k`, of `w` bytes. -/
def sample (w : Nat) (sbuff : List UInt8) (k : Nat) : List UInt8 :=
  (sbuff.drop (w * k)).take w

/-- Pair `k` is exchanged. -/
def Exchanged (w : Nat) (sbuff fixed : List UInt8) (k : Nat) : Prop :=
  sample w fixed (2 * k) = sample w sbuff (2 * k + 1) ∧
    sample w fixed (2 * k + 1) = sample w sbuff (2 * k)

/-- Every pair of samples within `len` is exchanged, the bytes behind them stay,
and a second call restores the buffer. -/
structure Fixed (bits : Int) (sbuff : List UInt8) (len : Nat) : Prop where
  pairs : ∀ k, (bits.toNat / 8) * (2 * k + 2) ≤ len →
    Exchanged (bits.toNat / 8) sbuff (i2sMonoFix bits sbuff len).2 k
  behind : (i2sMonoFix bits sbuff len).2.drop len = sbuff.drop len
  twice : (i2sMonoFix bits (i2sMonoFix bits sbuff len).2 len).2 = sbuff

/-! ## One exchange -/

theorem exchange_length {w i : Nat} {sbuff : List UInt8}
    (h : w * (i + 2) ≤ sbuff.length) :
    (exchange w i sbuff).length = sbuff.length := by
  have h1 : w * (i + 1) = w * i + w := Nat.mul_succ w i
  have h2 : w * (i + 2) = w * i + w + w := by rw [Nat.mul_succ, h1]
  simp only [exchange, List.length_append, List.length_take, List.length_drop]
  omega

/-- The sample that stands in the place of sample `s`. -/
def other (i s : Nat) : Nat :=
  if s = i then i + 1 else if s = i + 1 then i else s

/-- Two blocks of `w` bytes from `k` on change places. -/
theorem blocks_getElem? {k w : Nat} {sbuff : List UInt8}
    (h : k + w + w ≤ sbuff.length) (j : Nat) :
    (sbuff.take k ++ (sbuff.drop (k + w)).take w ++ (sbuff.drop k).take w ++
      sbuff.drop (k + w + w))[j]? =
      sbuff[if k ≤ j ∧ j < k + w then j + w
        else if k + w ≤ j ∧ j < k + w + w then j - w else j]? := by
  have hk : (sbuff.take k).length = k := by
    rw [List.length_take]
    omega
  have hsecond : ((sbuff.drop (k + w)).take w).length = w := by
    rw [List.length_take, List.length_drop]
    omega
  have hfirst : ((sbuff.drop k).take w).length = w := by
    rw [List.length_take, List.length_drop]
    omega
  simp only [List.getElem?_append, List.length_append, hk, hsecond, hfirst,
    List.getElem?_take, List.getElem?_drop]
  split_ifs <;> first | rfl | omega | (congr 1; omega)

theorem exchange_getElem? {w i : Nat} {sbuff : List UInt8}
    (h : w * (i + 2) ≤ sbuff.length) {s t : Nat} (ht : t < w) :
    (exchange w i sbuff)[w * s + t]? = sbuff[w * other i s + t]? := by
  have h1 : w * (i + 1) = w * i + w := Nat.mul_succ w i
  have h2 : w * (i + 2) = w * i + w + w := by rw [Nat.mul_succ, h1]
  rw [h2] at h
  rw [exchange, h1, h2, blocks_getElem? h]
  congr 1
  rcases Nat.lt_trichotomy s i with hlt | rfl | hgt
  · have hle : w * s + w ≤ w * i := Nat.mul_le_mul_left w hlt
    rw [other, if_neg (by omega), if_neg (by omega), if_neg (by omega),
      if_neg (by omega)]
  · rw [other, if_pos (by omega), if_pos rfl, h1]
    omega
  · by_cases hnext : s = i + 1
    · have hs : w * s = w * i + w := by rw [hnext, h1]
      rw [other, if_neg (by omega), if_pos (by omega), if_neg (by omega),
        if_pos hnext, hs]
      omega
    · have hge : w * (i + 2) ≤ w * s := Nat.mul_le_mul_left w (by omega)
      rw [other, if_neg (by omega), if_neg (by omega), if_neg (by omega),
        if_neg hnext]

/-! ## The loop -/

/-- The sample that stands in the place of sample `s` after `m` rounds. -/
def partner (stride m s : Nat) : Nat :=
  if s / stride < m then other (stride * (s / stride)) s else s

theorem partner_succ {stride : Nat} (hstride : 2 ≤ stride) (m s : Nat) :
    partner stride m (other (stride * m) s) = partner stride (m + 1) s := by
  have hfirst : stride * m / stride = m := Nat.mul_div_cancel_left m (by omega)
  have hsecond : (stride * m + 1) / stride = m := by
    rw [Nat.mul_add_div (by omega), Nat.div_eq_of_lt (by omega), Nat.add_zero]
  by_cases h0 : s = stride * m
  · subst h0
    simp [partner, other, hfirst, hsecond]
  · by_cases h1 : s = stride * m + 1
    · subst h1
      simp [partner, other, hfirst, hsecond]
    · have hsame : other (stride * m) s = s := by
        rw [other, if_neg h0, if_neg h1]
      rw [hsame, partner, partner]
      by_cases hm : s / stride = m
      · rw [if_neg (by omega), if_pos (by omega), hm, hsame]
      · by_cases hlt : s / stride < m
        · rw [if_pos hlt, if_pos (by omega)]
        · rw [if_neg hlt, if_neg (by omega)]

/-- A partner belongs to the same round. -/
theorem other_div {stride q s : Nat} (hstride : 2 ≤ stride)
    (h : s / stride = q) : other (stride * q) s / stride = q := by
  have hpos : 0 < stride := by omega
  rw [other]
  split_ifs
  · rw [Nat.mul_add_div hpos, Nat.div_eq_of_lt (by omega), Nat.add_zero]
  · exact Nat.mul_div_cancel_left _ hpos
  · exact h

/-- The exchange of a pair is undone by another one. -/
theorem partner_partner {stride : Nat} (hstride : 2 ≤ stride) (m s : Nat) :
    partner stride m (partner stride m s) = s := by
  by_cases hm : s / stride < m
  · rw [partner, partner, if_pos hm, other_div hstride rfl, if_pos hm, other,
      other]
    split_ifs <;> omega
  · rw [partner, partner, if_neg hm, if_neg hm]

section Rounds

variable {w stride m : Nat} {sbuff : List UInt8}

/-- Every round of the loop is within the buffer. -/
theorem swaps_length (h : ∀ k < m, w * (stride * k + 2) ≤ sbuff.length) :
    (swaps w stride sbuff m).length = sbuff.length := by
  induction m with
  | zero => rfl
  | succ m ih =>
      have hrest := ih fun k hk => h k (Nat.lt_succ_of_lt hk)
      rw [swaps, exchange_length (by rw [hrest]; exact h m (Nat.lt_succ_self m)),
        hrest]

/-- **What the loop leaves** in a byte is the old byte of its partner. -/
theorem swaps_getElem? (hstride : 2 ≤ stride)
    (h : ∀ k < m, w * (stride * k + 2) ≤ sbuff.length) (s : Nat) {t : Nat}
    (ht : t < w) : (swaps w stride sbuff m)[w * s + t]? =
      sbuff[w * partner stride m s + t]? := by
  induction m generalizing s with
  | zero => rw [swaps, partner, if_neg (Nat.not_lt_zero _)]
  | succ m ih =>
      have hbefore := fun k hk => h k (Nat.lt_succ_of_lt hk)
      have hlen := swaps_length hbefore
      rw [swaps, exchange_getElem? (by rw [hlen]; exact h m (Nat.lt_succ_self m))
        ht, ih hbefore, partner_succ hstride]

theorem swaps_swaps (hw : 0 < w) (hstride : 2 ≤ stride)
    (h : ∀ k < m, w * (stride * k + 2) ≤ sbuff.length) :
    swaps w stride (swaps w stride sbuff m) m = sbuff := by
  have hlen := swaps_length h
  have h' : ∀ k < m, w * (stride * k + 2) ≤
      (swaps w stride sbuff m).length := by
    rw [hlen]
    exact h
  refine List.ext_getElem? fun j => ?_
  rw [← Nat.div_add_mod j w, swaps_getElem? hstride h' _ (Nat.mod_lt j hw),
    swaps_getElem? hstride h _ (Nat.mod_lt j hw), partner_partner hstride]

theorem sample_swaps (hstride : 2 ≤ stride)
    (h : ∀ k < m, w * (stride * k + 2) ≤ sbuff.length) (s : Nat) :
    sample w (swaps w stride sbuff m) s =
      sample w sbuff (partner stride m s) := by
  refine List.ext_getElem? fun t => ?_
  simp only [sample, List.getElem?_take, List.getElem?_drop]
  split
  · rename_i ht
    exact swaps_getElem? hstride h s ht
  · rfl

theorem swaps_drop (hw : 0 < w) (hstride : 2 ≤ stride)
    (h : ∀ k < m, w * (stride * k + 2) ≤ sbuff.length) {n : Nat}
    (hbehind : ∀ s, n ≤ s → partner stride m s = s) :
    (swaps w stride sbuff m).drop (w * n) = sbuff.drop (w * n) := by
  refine List.ext_getElem? fun j => ?_
  have hj : w * n + j = w * (n + j / w) + j % w := by
    rw [Nat.mul_add, Nat.add_assoc, Nat.div_add_mod]
  rw [List.getElem?_drop, List.getElem?_drop, hj,
    swaps_getElem? hstride h _ (Nat.mod_lt j hw),
    hbehind _ (Nat.le_add_right _ _)]

end Rounds

/-! ## The two widths -/

section Widths

variable {sbuff : List UInt8} {len : Nat}

theorem inside16 (hlen : len ≤ sbuff.length) (hframe : len % 4 = 0) :
    ∀ k < rounds (len / 2) 2, 2 * (2 * k + 2) ≤ sbuff.length := by
  intro k hk
  simp only [rounds] at hk
  omega

/-- The last of the rounds has a whole pair. -/
theorem inside32 (hlen : len ≤ sbuff.length) (hframe : len % 8 = 0) :
    ∀ k < rounds (len / 4) 4, 4 * (4 * k + 2) ≤ sbuff.length := by
  intro k hk
  simp only [rounds] at hk
  omega

theorem partner16 (hframe : len % 4 = 0) (s : Nat) :
    partner 2 (rounds (len / 2) 2) s =
      if 2 * s < len then (if s % 2 = 0 then s + 1 else s - 1) else s := by
  rw [partner, other, rounds]
  split_ifs <;> omega

/-- Of four samples the last two stay. -/
theorem partner32 (hframe : len % 8 = 0) (s : Nat) :
    partner 4 (rounds (len / 4) 4) s =
      if 4 * s < len then
        (if s % 4 = 0 then s + 1 else if s % 4 = 1 then s - 1 else s)
      else s := by
  rw [partner, other, rounds]
  split_ifs <;> omega

theorem fixed16 (hlen : len ≤ sbuff.length) (hframe : len % 4 = 0) :
    Fixed 16 sbuff len := by
  have hin := inside16 hlen hframe
  have hfix : ∀ b, (i2sMonoFix 16 b len).2 =
      swaps 2 2 b (rounds (len / 2) 2) := fun _ => rfl
  refine ⟨fun k hk => ?_, ?_, ?_⟩
  · have hk' : 2 * (2 * k + 2) ≤ len := hk
    have hfirst : partner 2 (rounds (len / 2) 2) (2 * k) = 2 * k + 1 := by
      rw [partner16 hframe]
      split_ifs <;> omega
    have hsecond : partner 2 (rounds (len / 2) 2) (2 * k + 1) = 2 * k := by
      rw [partner16 hframe]
      split_ifs <;> omega
    rw [hfix]
    constructor
    · exact (sample_swaps (Nat.le_refl 2) hin _).trans (by rw [hfirst]; rfl)
    · exact (sample_swaps (Nat.le_refl 2) hin _).trans (by rw [hsecond]; rfl)
  · have hdrop := swaps_drop (n := len / 2) (by decide) (Nat.le_refl 2) hin
      fun s hs => by rw [partner16 hframe, if_neg (by omega)]
    rw [show 2 * (len / 2) = len by omega] at hdrop
    exact hdrop
  · rw [hfix, hfix]
    exact swaps_swaps (by decide) (Nat.le_refl 2) hin

/-- An odd pair stays, so it is right if its samples are equal. -/
theorem exchanged32_iff (hlen : len ≤ sbuff.length) (hframe : len % 8 = 0)
    {k : Nat} (hk : 4 * (2 * k + 2) ≤ len) :
    Exchanged 4 sbuff (swaps 4 4 sbuff (rounds (len / 4) 4)) k ↔
      (k % 2 = 1 → sample 4 sbuff (2 * k) = sample 4 sbuff (2 * k + 1)) := by
  have hin := inside32 hlen hframe
  have hfirst : partner 4 (rounds (len / 4) 4) (2 * k) =
      if k % 2 = 1 then 2 * k else 2 * k + 1 := by
    rw [partner32 hframe]
    split_ifs <;> omega
  have hsecond : partner 4 (rounds (len / 4) 4) (2 * k + 1) =
      if k % 2 = 1 then 2 * k + 1 else 2 * k := by
    rw [partner32 hframe]
    split_ifs <;> omega
  rw [Exchanged, sample_swaps (by decide) hin, sample_swaps (by decide) hin,
    hfirst, hsecond]
  by_cases hodd : k % 2 = 1
  · rw [if_pos hodd, if_pos hodd]
    constructor
    · exact fun h _ => h.1
    · exact fun h => ⟨h hodd, (h hodd).symm⟩
  · rw [if_neg hodd, if_neg hodd]
    exact iff_of_true ⟨rfl, rfl⟩ fun h => absurd h hodd

theorem fixed32_iff (hlen : len ≤ sbuff.length) (hframe : len % 8 = 0) :
    Fixed 32 sbuff len ↔ ∀ k, k % 2 = 1 → 4 * (2 * k + 2) ≤ len →
      sample 4 sbuff (2 * k) = sample 4 sbuff (2 * k + 1) := by
  have hin := inside32 hlen hframe
  have hfix : ∀ b, (i2sMonoFix 32 b len).2 =
      swaps 4 4 b (rounds (len / 4) 4) := fun _ => rfl
  constructor
  · intro h k hodd hk
    exact (exchanged32_iff hlen hframe hk).1 (h.pairs k hk) hodd
  · intro h
    refine ⟨fun k hk => ?_, ?_, ?_⟩
    · exact (exchanged32_iff hlen hframe hk).2 fun hodd => h k hodd hk
    · have hdrop := swaps_drop (n := len / 4) (by decide) (by decide) hin
        fun s hs => by rw [partner32 hframe, if_neg (by omega)]
      rw [show 4 * (len / 4) = len by omega] at hdrop
      exact hdrop
    · rw [hfix, hfix]
      exact swaps_swaps (by decide) (by decide) hin

end Widths

/-! ## The result -/

/-- **The mono fix** exchanges every pair of 16 bit samples.  Of 32 bit samples
it leaves every other pair, which is right exactly if the samples of these are
equal. -/
theorem mono_fix_iff {bits : Int} (hbits : bits = 16 ∨ bits = 32)
    {sbuff : List UInt8} {len : Nat} (hlen : len ≤ sbuff.length)
    (hframe : len % (2 * (bits.toNat / 8)) = 0) :
    Fixed bits sbuff len ↔ (bits = 32 → ∀ k, k % 2 = 1 →
      4 * (2 * k + 2) ≤ len →
        sample 4 sbuff (2 * k) = sample 4 sbuff (2 * k + 1)) := by
  rcases hbits with rfl | rfl
  · exact iff_of_true (fixed16 hlen hframe) nofun
  · rw [fixed32_iff hlen hframe]
    exact ⟨fun h _ => h, fun h => h rfl⟩

/-- Two frames of 16 bits, and two bytes behind them. -/
theorem mono_fix_16 : Fixed 16 [1, 2, 3, 4, 5, 6, 7, 8, 9, 10] 8 :=
  (mono_fix_iff (.inl rfl) (by decide) (by decide)).2 nofun

/-- Two frames of 32 bits, of which the second one stays. -/
theorem mono_fix_32 :
    ¬Fixed 32 [1, 2, 3, 4, 5, 6, 7, 8, 9, 10, 11, 12, 13, 14, 15, 16] 16 := by
  intro h
  exact absurd (h.pairs 1 (by decide)).1 (by decide +kernel)

end EspAdf.Ports.I2sMonoFix
