import Mathlib

/-!
# Circular memories as rotated lists

A circular buffer is a list `mem` together with an offset.  What the buffer
denotes is read off the *rotated* list: position `i` after offset `k` is
entry `i` of `mem.rotate k`.  An offset equal to `mem.length` denotes the
same rotation as `0`, so an implementation that leaves its offset unwrapped
at the end needs no special case.

The two kinds of access are

* a **read** of `n` entries at `k`, in one segment when `k + n ≤ length` and
  in two segments otherwise (`take_rotate_of_le`, `take_rotate_of_gt`);
* a **write** of a list at `k`, by one `splice` or by two
  (`rotate_splice`, `rotate_splice_wrap`): in rotated coordinates both are a
  plain replacement of a prefix.

`take_rotate_append` combines them into the statement a queue needs: writing
right behind a window of length `n` appends to that window.
-/

namespace EspAdf.Verified.Rotation

variable {α : Type*}

/-- Replace the entries of `mem` from offset `off` on by `xs`. -/
def splice (mem : List α) (off : Nat) (xs : List α) : List α :=
  mem.take off ++ xs ++ mem.drop (off + xs.length)

theorem length_splice {mem xs : List α} {off : Nat}
    (h : off + xs.length ≤ mem.length) :
    (splice mem off xs).length = mem.length := by
  simp only [splice, List.length_append, List.length_take, List.length_drop]
  omega

/-! ## Reading -/

/-- A read that does not pass the end is one segment. -/
theorem take_rotate_of_le {mem : List α} {k n : Nat}
    (h : k + n ≤ mem.length) :
    (mem.rotate k).take n = (mem.drop k).take n := by
  rw [List.rotate_eq_drop_append_take (by omega), List.take_append_of_le_length]
  rw [List.length_drop]
  omega

/-- A read that passes the end is the tail segment followed by a segment at
the start. -/
theorem take_rotate_of_gt {mem : List α} {k n : Nat} (hk : k ≤ mem.length)
    (hn : n ≤ mem.length) (h : mem.length < k + n) :
    (mem.rotate k).take n =
      mem.drop k ++ mem.take (n - (mem.length - k)) := by
  rw [List.rotate_eq_drop_append_take hk, List.take_append,
    List.take_of_length_le (by rw [List.length_drop]; omega), List.length_drop,
    List.take_take, Nat.min_eq_left (by omega)]

/-- Advancing the offset by `n` drops the first `n` entries of a window. -/
theorem take_rotate_add {mem : List α} {k n m : Nat} (hm : m ≤ mem.length)
    (hn : n ≤ m) :
    (mem.rotate (k + n)).take (m - n) = ((mem.rotate k).take m).drop n := by
  have hlen : (mem.rotate k).length = mem.length := List.length_rotate ..
  rw [← List.rotate_rotate, List.rotate_eq_drop_append_take (by omega),
    List.take_append_of_le_length (by rw [List.length_drop]; omega),
    List.drop_take]

/-- An offset at the very end denotes the same rotation as offset zero. -/
theorem rotate_congr {mem : List α} {j k : Nat}
    (h : j % mem.length = k % mem.length) : mem.rotate j = mem.rotate k := by
  rw [← List.rotate_mod mem j, ← List.rotate_mod mem k, h]

/-! ## Writing -/

/-- A write that does not pass the end replaces a prefix of the rotation. -/
theorem rotate_splice {mem xs : List α} {k : Nat}
    (h : k + xs.length ≤ mem.length) :
    (splice mem k xs).rotate k = xs ++ (mem.rotate k).drop xs.length := by
  have hk : k ≤ mem.length := by omega
  have htake : (mem.take k).length = k := List.length_take_of_le hk
  have hlen : (splice mem k xs).length = mem.length := length_splice h
  rw [List.rotate_eq_drop_append_take (by omega),
    List.rotate_eq_drop_append_take hk, splice, List.append_assoc,
    List.drop_left' htake, List.take_left' htake,
    List.drop_append_of_le_length (by rw [List.length_drop]; omega),
    List.drop_drop, List.append_assoc]

/-- A write that passes the end, made of one splice up to the end and one at
the start, replaces a prefix of the rotation too. -/
theorem rotate_splice_wrap {mem xs ys : List α} {k : Nat}
    (hx : k + xs.length = mem.length) (hy : ys.length ≤ k) :
    (splice (splice mem k xs) 0 ys).rotate k =
      (xs ++ ys) ++ (mem.rotate k).drop (xs ++ ys).length := by
  have hk : k ≤ mem.length := by omega
  have htake : (mem.take k).length = k := List.length_take_of_le hk
  have hfirst : splice mem k xs = mem.take k ++ xs := by
    rw [splice, hx, List.drop_length, List.append_nil]
  have hsecond : splice (splice mem k xs) 0 ys =
      (ys ++ (mem.take k).drop ys.length) ++ xs := by
    rw [hfirst, splice, List.take_zero, List.nil_append, Nat.zero_add,
      List.drop_append_of_le_length (by omega), List.append_assoc]
  have hfront : (ys ++ (mem.take k).drop ys.length).length = k := by
    rw [List.length_append, List.length_drop, htake]
    omega
  have hend : (mem.drop k).length = xs.length := by
    rw [List.length_drop]
    omega
  rw [hsecond, List.rotate_eq_drop_append_take (by simp; omega),
    List.drop_left' hfront, List.take_left' hfront,
    List.rotate_eq_drop_append_take hk, List.length_append,
    ← List.drop_drop, List.drop_left' hend, List.append_assoc]

/-- **Writing behind a window appends to it.**  `mem'` agrees with a write of
`xs` at offset `k + n`, and the window of length `n` at `k` grows by `xs`. -/
theorem take_rotate_append {mem mem' xs : List α} {k n : Nat}
    (hlen : mem'.length = mem.length) (hroom : n + xs.length ≤ mem.length)
    (hwrite : mem'.rotate (k + n) =
      xs ++ (mem.rotate (k + n)).drop xs.length) :
    (mem'.rotate k).take (n + xs.length) = (mem.rotate k).take n ++ xs := by
  have hrot : (mem.rotate k).length = mem.length := List.length_rotate ..
  have hrot' : (mem'.rotate k).length = mem.length := by
    rw [List.length_rotate, hlen]
  -- Turning the memory by the missing `length - n` brings offset `k` back.
  have hback : ∀ l : List α, l.length = mem.length →
      (l.rotate n).rotate (mem.length - n) = l := by
    intro l hl
    rw [List.rotate_rotate, show n + (mem.length - n) = l.length by omega,
      List.rotate_length]
  have hturn : (mem'.rotate k).rotate n =
      xs ++ (mem.rotate k).drop (n + xs.length) ++ (mem.rotate k).take n := by
    rw [List.rotate_rotate, hwrite, ← List.rotate_rotate,
      List.rotate_eq_drop_append_take (by omega),
      List.drop_append_of_le_length (by rw [List.length_drop]; omega),
      List.drop_drop, List.append_assoc]
  have hmid : (xs ++ (mem.rotate k).drop (n + xs.length)).length =
      mem.length - n := by
    rw [List.length_append, List.length_drop, hrot]
    omega
  have hkey : mem'.rotate k =
      (mem.rotate k).take n ++ (xs ++ (mem.rotate k).drop (n + xs.length)) := by
    calc mem'.rotate k
        = ((mem'.rotate k).rotate n).rotate (mem.length - n) :=
          (hback _ hrot').symm
      _ = _ := by
          rw [hturn, List.rotate_eq_drop_append_take (by simp; omega),
            List.drop_left' hmid, List.take_left' hmid]
  have hfront : ((mem.rotate k).take n).length = n :=
    List.length_take_of_le (by omega)
  rw [hkey, ← List.append_assoc, List.take_left' (by simp; omega)]

end EspAdf.Verified.Rotation
