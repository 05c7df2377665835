import EspAdf.Verified.Rotation

/-!
# `ringbuf.c`: the ring buffer and its locked sections

`struct ringbuf` with `rb_create`, `rb_reset`, the size queries, and the two
sections that `rb_read` and `rb_write` execute between taking and giving
`rb->lock`.  The pointers `p_r` and `p_w` are offsets from `p_o`; `fill_cnt`
and `size` are 32-bit unsigned; the three semaphores are binary, so each is
the `Bool` that says whether it can be taken.

A `memcpy` outside `[p_o, p_o + size)` has no meaning, so `memcpyFrom` and
`memcpyTo` return `none` there.  Memory safety is therefore a statement that
a section returns `some`.

## Main results

* `readSection_spec`, `writeSection_spec` — on a well-formed ring neither
  section faults, a read removes and hands over the oldest bytes of
  `contents`, a write appends to it, nothing else changes, and the result is
  well formed again.
* `rbCreate_wf`, `rbReset_wf` — rings start, and restart, well formed and
  empty.
-/

namespace EspAdf.Ports.RingBuf

open EspAdf.Verified.Rotation

/-! ## Machine integers and return codes -/

/-- The unsigned 32-bit representative of an integer. -/
def u32 (n : Int) : Nat := (n % 2 ^ 32).toNat

/-- The `int` a 32-bit unsigned value converts to. -/
def toInt (n : Nat) : Int := if n < 2 ^ 31 then n else n - 2 ^ 32

theorem u32_sub {m n : Nat} (h : n ≤ m) (hm : m < 2 ^ 32) :
    u32 ((m : Int) - n) = m - n := by
  unfold u32
  omega

theorem u32_add {m n : Nat} (h : m + n < 2 ^ 32) :
    u32 ((m : Int) + n) = m + n := by
  unfold u32
  omega

def RB_FAIL : Int := -1
def RB_DONE : Int := -2
def RB_ABORT : Int := -3
def RB_TIMEOUT : Int := -4

/-! ## The data model -/

abbrev Byte := UInt8

/-- `struct ringbuf`. -/
structure Ringbuf where
  /-- The bytes of `[p_o, p_o + size)`. -/
  buf : List Byte
  /-- `p_r - p_o`. -/
  pR : Nat
  /-- `p_w - p_o`. -/
  pW : Nat
  fillCnt : Nat
  size : Nat
  canRead : Bool
  canWrite : Bool
  lock : Bool
  abortRead : Bool
  abortWrite : Bool
  isDoneWrite : Bool
  unblockReaderFlag : Bool
  deriving DecidableEq, Repr

/-- `rb_create`.  `allocs` says whether all five allocations succeed; binary
semaphores are created empty and the mutex is created available. -/
def rbCreate (blockSize nBlocks : Int) (allocs : Bool) : Option Ringbuf :=
  if blockSize < 2 then none
  else if allocs then
    some
      { buf := List.replicate (nBlocks * blockSize).toNat 0
        pR := 0, pW := 0, fillCnt := 0
        size := u32 (blockSize * nBlocks)
        canRead := false, canWrite := false, lock := true
        abortRead := false, abortWrite := false
        isDoneWrite := false, unblockReaderFlag := false }
  else none

/-- `rb_reset` on a valid handle: offsets, count and flags go back to their
initial values, the semaphores stay as they are. -/
def rbReset (rb : Ringbuf) : Ringbuf :=
  { rb with
    pR := 0, pW := 0, fillCnt := 0, isDoneWrite := false
    unblockReaderFlag := false, abortRead := false, abortWrite := false }

/-- `rb_bytes_available`. -/
def rbBytesAvailable (rb : Ringbuf) : Int :=
  toInt (u32 ((rb.size : Int) - rb.fillCnt))

/-- `rb_bytes_filled`. -/
def rbBytesFilled (rb : Ringbuf) : Int := toInt rb.fillCnt

/-! ## Copies -/

/-- `memcpy` out of the buffer: `len` bytes from offset `off`. -/
def memcpyFrom (mem : List Byte) (off len : Nat) : Option (List Byte) :=
  if off + len ≤ mem.length then some ((mem.drop off).take len) else none

/-- `memcpy` into the buffer at offset `off`. -/
def memcpyTo (mem : List Byte) (off : Nat) (bytes : List Byte) :
    Option (List Byte) :=
  if off + bytes.length ≤ mem.length then some (splice mem off bytes) else none

theorem memcpyFrom_of_le (mem : List Byte) {off len : Nat}
    (h : off + len ≤ mem.length) :
    memcpyFrom mem off len = some ((mem.drop off).take len) := if_pos h

theorem memcpyTo_of_le (mem : List Byte) {bytes : List Byte} {off : Nat}
    (h : off + bytes.length ≤ mem.length) :
    memcpyTo mem off bytes = some (splice mem off bytes) := if_pos h

/-! ## The locked section of `rb_read` -/

/-- The size of one read: the whole request when it is available, otherwise
what is available rounded down to a multiple of the word size. -/
def readSize (rb : Ringbuf) (bufLen : Nat) : Nat :=
  if rb.fillCnt < bufLen then rb.fillCnt &&& 0xfffffffc else bufLen

/-- Copy `n` bytes out at `p_r` and advance it; `buf` says whether the
caller passed a destination. -/
def readCopy (rb : Ringbuf) (buf : Bool) (n : Nat) :
    Option (Ringbuf × List Byte) :=
  if rb.pR + n > rb.size then
    let rlen1 := rb.size - rb.pR
    let rlen2 := n - rlen1
    if buf then do
      let seg1 ← memcpyFrom rb.buf rb.pR rlen1
      let seg2 ← memcpyFrom rb.buf 0 rlen2
      some ({ rb with pR := rlen2 }, seg1 ++ seg2)
    else some ({ rb with pR := rlen2 }, [])
  else if buf then do
    let seg ← memcpyFrom rb.buf rb.pR n
    some ({ rb with pR := rb.pR + n }, seg)
  else some ({ rb with pR := rb.pR + n }, [])

/-- Everything `rb_read` does between taking and giving the lock for a
remaining request of `bufLen` bytes: the new ring, `read_size`, and the bytes
stored at `buf`. -/
def readSection (rb : Ringbuf) (buf : Bool) (bufLen : Nat) :
    Option (Ringbuf × Nat × List Byte) :=
  let n := readSize rb bufLen
  if n = 0 then some (rb, 0, [])
  else do
    let (rb', out) ← readCopy rb buf n
    some ({ rb' with fillCnt := u32 ((rb'.fillCnt : Int) - n) }, n, out)

/-! ## The locked section of `rb_write` -/

/-- The size of one write: the remaining request, at most the free space. -/
def writeSize (rb : Ringbuf) (bufLen : Nat) : Int :=
  if (bufLen : Int) < rbBytesAvailable rb then bufLen else rbBytesAvailable rb

/-- Copy `bytes` in at `p_w` and advance it. -/
def writeCopy (rb : Ringbuf) (bytes : List Byte) : Option Ringbuf :=
  if rb.pW + bytes.length > rb.size then do
    let wlen1 := rb.size - rb.pW
    let wlen2 := bytes.length - wlen1
    let mem ← memcpyTo rb.buf rb.pW (bytes.take wlen1)
    let mem ← memcpyTo mem 0 (bytes.drop wlen1)
    some { rb with buf := mem, pW := wlen2 }
  else do
    let mem ← memcpyTo rb.buf rb.pW bytes
    some { rb with buf := mem, pW := rb.pW + bytes.length }

/-- Everything `rb_write` does between taking and giving the lock when
`bytes` is what is left of the caller's buffer: the new ring and
`write_size`.  A negative `write_size` is a `memcpy` of more than the address
space. -/
def writeSection (rb : Ringbuf) (bytes : List Byte) :
    Option (Ringbuf × Nat) :=
  let n := writeSize rb bytes.length
  if n = 0 then some (rb, 0)
  else if n < 0 then none
  else do
    let rb' ← writeCopy rb (bytes.take n.toNat)
    some ({ rb' with fillCnt := u32 ((rb'.fillCnt : Int) + n) }, n.toNat)

/-! ## Well-formed rings -/

/-- The queued bytes, oldest first: the window of `fill_cnt` bytes at
`p_r`. -/
def Ringbuf.contents (rb : Ringbuf) : List Byte :=
  (rb.buf.rotate rb.pR).take rb.fillCnt

/-- The representation invariant.  Both offsets may equal `size`, because the
code wraps on a strict `>`; `offsets` therefore relates them modulo
`size`. -/
structure Ringbuf.WF (rb : Ringbuf) : Prop where
  bufLen : rb.buf.length = rb.size
  sizePos : 2 ≤ rb.size
  sizeInt : rb.size < 2 ^ 31
  pRLe : rb.pR ≤ rb.size
  pWLe : rb.pW ≤ rb.size
  fillLe : rb.fillCnt ≤ rb.size
  offsets : rb.pW % rb.size = (rb.pR + rb.fillCnt) % rb.size

theorem Ringbuf.WF.length_contents {rb : Ringbuf} (h : rb.WF) :
    rb.contents.length = rb.fillCnt := by
  have hlen := h.bufLen
  have hfill := h.fillLe
  rw [Ringbuf.contents, List.length_take, List.length_rotate]
  omega

/-- A successful `rb_create` returns a well-formed, empty ring. -/
theorem rbCreate_wf {blockSize nBlocks : Int} {allocs : Bool} {rb : Ringbuf}
    (hn : 1 ≤ nBlocks) (hint : blockSize * nBlocks < 2 ^ 31)
    (h : rbCreate blockSize nBlocks allocs = some rb) :
    rb.WF ∧ rb.contents = [] ∧ (rb.size : Int) = blockSize * nBlocks := by
  unfold rbCreate at h
  split at h
  · contradiction
  · rename_i hb
    split at h
    · obtain rfl := Option.some.inj h
      have hpos : blockSize * 1 ≤ blockSize * nBlocks :=
        Int.mul_le_mul_of_nonneg_left hn (by omega)
      have hsize : u32 (blockSize * nBlocks) = (blockSize * nBlocks).toNat := by
        unfold u32
        omega
      refine ⟨⟨?_, ?_, ?_, ?_, ?_, ?_, ?_⟩, rfl, ?_⟩ <;>
        simp only [List.length_replicate, Int.mul_comm nBlocks, hsize] <;>
        omega
    · contradiction

/-- The mutex is created available. -/
theorem rbCreate_lock {blockSize nBlocks : Int} {allocs : Bool}
    {rb : Ringbuf} (h : rbCreate blockSize nBlocks allocs = some rb) :
    rb.lock = true := by
  unfold rbCreate at h
  split at h
  · contradiction
  · split at h
    · obtain rfl := Option.some.inj h
      rfl
    · contradiction

/-- `rb_reset` makes a well-formed ring empty. -/
theorem rbReset_wf {rb : Ringbuf} (h : rb.WF) :
    (rbReset rb).WF ∧ (rbReset rb).contents = [] :=
  ⟨⟨h.bufLen, h.sizePos, h.sizeInt, Nat.zero_le _, Nat.zero_le _,
    Nat.zero_le _, rfl⟩, rfl⟩

/-! ## What the read section does -/

/-- Masking with `0xfffffffc` rounds a 32-bit value down to a multiple of
four. -/
theorem and_word_mask {n : Nat} (h : n < 2 ^ 32) :
    n &&& 0xfffffffc = n / 4 * 4 := by
  have hmask : (0xfffffffc : Nat) = (2 ^ 30 - 1) * 2 ^ 2 := by decide
  have hround : n / 4 * 4 = n / 2 ^ 2 * 2 ^ 2 := rfl
  apply Nat.eq_of_testBit_eq
  intro i
  rw [hround, hmask, Nat.testBit_and, Nat.testBit_mul_two_pow,
    Nat.testBit_mul_two_pow, Nat.testBit_two_pow_sub_one,
    Nat.testBit_div_two_pow]
  rcases Nat.lt_or_ge i 2 with hi | hi
  · simp [Nat.not_le.mpr hi]
  · rcases Nat.lt_or_ge i 32 with hi' | hi'
    · simp [hi, show i - 2 < 30 by omega]
    · have hbit : n.testBit i = false :=
        Nat.testBit_lt_two_pow
          (Nat.lt_of_lt_of_le h (Nat.pow_le_pow_right (by decide) hi'))
      simp [hi, hbit]

/-- The value of `read_size`. -/
theorem readSize_eq {rb : Ringbuf} (h : rb.WF) (bufLen : Nat) :
    readSize rb bufLen =
      if rb.fillCnt < bufLen then rb.fillCnt / 4 * 4 else bufLen := by
  have hfill := h.fillLe
  have hsize := h.sizeInt
  rw [readSize, and_word_mask (by omega)]

theorem readSize_le_fill {rb : Ringbuf} (h : rb.WF) (bufLen : Nat) :
    readSize rb bufLen ≤ rb.fillCnt := by
  rw [readSize_eq h]
  split <;> omega

/-- A reader finds nothing to read exactly when fewer than a word is queued
and its request is larger still (or empty). -/
theorem readSize_eq_zero_iff {rb : Ringbuf} (h : rb.WF) (bufLen : Nat) :
    readSize rb bufLen = 0 ↔
      bufLen = 0 ∨ (rb.fillCnt < bufLen ∧ rb.fillCnt < 4) := by
  rw [readSize_eq h]
  split <;> omega

/-- A copy out moves `p_r` and nothing else, on any ring. -/
theorem readCopy_frame {rb rb' : Ringbuf} {buf : Bool} {n : Nat}
    {out : List Byte} (h : readCopy rb buf n = some (rb', out)) :
    ∃ p, rb' = { rb with pR := p } := by
  unfold readCopy at h
  by_cases hwrap : rb.pR + n > rb.size <;> cases buf <;>
    simp [hwrap, Option.bind_eq_some_iff] at h <;> grind

/-- The two-way copy of `rb_read` is one read at `p_r` of the circular
memory, and its new offset is `p_r + n` up to a turn. -/
theorem readCopy_spec {rb : Ringbuf} (h : rb.WF) (buf : Bool) {n : Nat}
    (hn : n ≤ rb.fillCnt) :
    ∃ p, p ≤ rb.size ∧ p % rb.size = (rb.pR + n) % rb.size ∧
      readCopy rb buf n = some ({ rb with pR := p },
        if buf then rb.contents.take n else []) := by
  have hlen := h.bufLen
  have hpR := h.pRLe
  have hfill := h.fillLe
  have hcont : rb.contents.take n = (rb.buf.rotate rb.pR).take n := by
    rw [Ringbuf.contents, List.take_take, Nat.min_eq_left hn]
  unfold readCopy
  by_cases hwrap : rb.pR + n > rb.size
  · refine ⟨n - (rb.size - rb.pR), by omega, ?_, ?_⟩
    · rw [show rb.pR + n = n - (rb.size - rb.pR) + rb.size by omega,
        Nat.add_mod_right]
    · rw [if_pos hwrap]
      cases buf with
      | false => rfl
      | true =>
          have hseg1 : rb.pR + (rb.size - rb.pR) ≤ rb.buf.length := by omega
          have hseg2 : 0 + (n - (rb.size - rb.pR)) ≤ rb.buf.length := by omega
          rw [hcont, take_rotate_of_gt (by omega) (by omega)
            (by omega), hlen]
          simp only [if_true, memcpyFrom_of_le rb.buf hseg1,
            memcpyFrom_of_le rb.buf hseg2,
            Option.bind_eq_bind, Option.bind_some, List.drop_zero]
          rw [List.take_of_length_le (l := rb.buf.drop rb.pR)
            (by rw [List.length_drop]; omega)]
  · refine ⟨rb.pR + n, by omega, rfl, ?_⟩
    rw [if_neg hwrap]
    cases buf with
    | false => rfl
    | true =>
        have hseg : rb.pR + n ≤ rb.buf.length := by omega
        rw [hcont, take_rotate_of_le hseg]
        simp only [if_true, memcpyFrom_of_le rb.buf hseg,
          Option.bind_eq_bind, Option.bind_some]

/-- **The read section.**  It never faults, takes exactly `read_size` of the
oldest bytes, hands them over in order, and moves only `p_r` and
`fill_cnt`. -/
theorem readSection_spec {rb : Ringbuf} (h : rb.WF) (buf : Bool)
    (bufLen : Nat) :
    ∃ rb', readSection rb buf bufLen = some (rb', readSize rb bufLen,
        if buf then rb.contents.take (readSize rb bufLen) else []) ∧
      rb'.WF ∧ rb'.contents = rb.contents.drop (readSize rb bufLen) ∧
      (∃ p, rb' = { rb with
        pR := p, fillCnt := rb.fillCnt - readSize rb bufLen }) := by
  have hle := readSize_le_fill h bufLen
  have hfill := h.fillLe
  have hsize := h.sizeInt
  have hlen := h.bufLen
  unfold readSection
  generalize readSize rb bufLen = n at hle
  by_cases hn : n = 0
  · subst hn
    refine ⟨rb, ?_, h, by simp, rb.pR, ?_⟩
    · cases buf <;> simp
    · rfl
  · obtain ⟨p, hp, hmod, hcopy⟩ := readCopy_spec h buf hle
    refine ⟨{ rb with pR := p, fillCnt := rb.fillCnt - n }, ?_, ?_, ?_, p, rfl⟩
    · simp only [if_neg hn, hcopy, Option.bind_eq_bind, Option.bind_some,
        u32_sub hle (show rb.fillCnt < 2 ^ 32 by omega)]
    · exact
        { bufLen := h.bufLen
          sizePos := h.sizePos
          sizeInt := h.sizeInt
          pRLe := hp
          pWLe := h.pWLe
          fillLe := by show rb.fillCnt - n ≤ rb.size; omega
          offsets := by
            show rb.pW % rb.size = (p + (rb.fillCnt - n)) % rb.size
            rw [h.offsets, Nat.add_mod p, hmod, ← Nat.add_mod]
            congr 1
            omega }
    · show (rb.buf.rotate p).take (rb.fillCnt - n) =
        ((rb.buf.rotate rb.pR).take rb.fillCnt).drop n
      rw [rotate_congr (j := p) (k := rb.pR + n)
        (by rw [hlen]; exact hmod), take_rotate_add (by omega) hle]

/-! ## What the write section does -/

/-- `rb_bytes_available` needs no more than a count within the size. -/
theorem rbBytesAvailable_of_le {rb : Ringbuf} (hfill : rb.fillCnt ≤ rb.size)
    (hsize : rb.size < 2 ^ 31) :
    rbBytesAvailable rb = ((rb.size - rb.fillCnt : Nat) : Int) := by
  rw [rbBytesAvailable, u32_sub hfill (by omega), toInt, if_pos (by omega)]

theorem writeSize_of_le {rb : Ringbuf} (hfill : rb.fillCnt ≤ rb.size)
    (hsize : rb.size < 2 ^ 31) (bufLen : Nat) :
    writeSize rb bufLen = ((min bufLen (rb.size - rb.fillCnt) : Nat) : Int) := by
  rw [writeSize, rbBytesAvailable_of_le hfill hsize]
  split <;> omega

/-- The value of `write_size`. -/
theorem writeSize_eq {rb : Ringbuf} (h : rb.WF) (bufLen : Nat) :
    writeSize rb bufLen = ((min bufLen (rb.size - rb.fillCnt) : Nat) : Int) :=
  writeSize_of_le h.fillLe h.sizeInt bufLen

/-- A copy in changes the bytes and `p_w` and nothing else, on any ring. -/
theorem writeCopy_frame {rb rb' : Ringbuf} {bytes : List Byte}
    (h : writeCopy rb bytes = some rb') :
    ∃ mem p, rb' = { rb with buf := mem, pW := p } := by
  unfold writeCopy at h
  by_cases hwrap : rb.pW + bytes.length > rb.size <;>
    simp [hwrap, Option.bind_eq_some_iff] at h <;> grind

/-- The two-way copy of `rb_write` is one write at `p_w` of the circular
memory, and its new offset is `p_w + length` up to a turn. -/
theorem writeCopy_spec {rb : Ringbuf} (h : rb.WF) {bytes : List Byte}
    (hroom : bytes.length ≤ rb.size - rb.fillCnt) :
    ∃ p mem, p ≤ rb.size ∧ p % rb.size = (rb.pW + bytes.length) % rb.size ∧
      mem.length = rb.size ∧
      mem.rotate rb.pW = bytes ++ (rb.buf.rotate rb.pW).drop bytes.length ∧
      writeCopy rb bytes = some { rb with buf := mem, pW := p } := by
  have hlen := h.bufLen
  have hpW := h.pWLe
  unfold writeCopy
  by_cases hwrap : rb.pW + bytes.length > rb.size
  · have hfirst : (bytes.take (rb.size - rb.pW)).length = rb.size - rb.pW :=
      List.length_take_of_le (by omega)
    have hsecond : (bytes.drop (rb.size - rb.pW)).length =
        bytes.length - (rb.size - rb.pW) := List.length_drop
    have hmem : (splice rb.buf rb.pW (bytes.take (rb.size - rb.pW))).length =
        rb.buf.length := length_splice (by omega)
    refine ⟨bytes.length - (rb.size - rb.pW),
      splice (splice rb.buf rb.pW (bytes.take (rb.size - rb.pW))) 0
        (bytes.drop (rb.size - rb.pW)), by omega, ?_, ?_, ?_, ?_⟩
    · rw [show rb.pW + bytes.length =
        bytes.length - (rb.size - rb.pW) + rb.size by omega, Nat.add_mod_right]
    · rw [length_splice (by omega), hmem, hlen]
    · rw [rotate_splice_wrap (by omega) (by omega), List.take_append_drop]
    · rw [if_pos hwrap]
      have hseg1 : rb.pW + (bytes.take (rb.size - rb.pW)).length ≤
          rb.buf.length := by omega
      simp only [memcpyTo_of_le rb.buf hseg1, Option.bind_eq_bind,
        Option.bind_some]
      rw [memcpyTo_of_le _ (by omega), Option.bind_some]
  · refine ⟨rb.pW + bytes.length, splice rb.buf rb.pW bytes, by omega, rfl,
      ?_, rotate_splice (by omega), ?_⟩
    · rw [length_splice (by omega), hlen]
    · rw [if_neg hwrap, memcpyTo_of_le _ (by omega)]
      rfl

/-- **The write section.**  It never faults, appends exactly the next
`min (remaining) (size - fill_cnt)` bytes of the caller's buffer, and moves
only the bytes, `p_w` and `fill_cnt`. -/
theorem writeSection_spec {rb : Ringbuf} (h : rb.WF) (bytes : List Byte) :
    ∃ rb', writeSection rb bytes =
        some (rb', min bytes.length (rb.size - rb.fillCnt)) ∧
      rb'.WF ∧
      rb'.contents = rb.contents ++
        bytes.take (min bytes.length (rb.size - rb.fillCnt)) ∧
      (∃ mem p, rb' = { rb with
        buf := mem, pW := p,
        fillCnt := rb.fillCnt +
          min bytes.length (rb.size - rb.fillCnt) }) := by
  have hfill := h.fillLe
  have hsize := h.sizeInt
  have hlen := h.bufLen
  have hws := writeSize_eq h bytes.length
  unfold writeSection
  generalize hn : min bytes.length (rb.size - rb.fillCnt) = n at hws
  rw [hws]
  by_cases hn0 : n = 0
  · subst hn0
    exact ⟨rb, by simp, h, by simp, rb.buf, rb.pW, rfl⟩
  · have htake : (bytes.take n).length = n :=
      List.length_take_of_le (by omega)
    have hfits : (bytes.take n).length ≤ rb.size - rb.fillCnt := by omega
    obtain ⟨p, mem, hp, hmod, hmem, hrot, hcopy⟩ := writeCopy_spec h hfits
    rw [htake] at hmod hrot
    refine ⟨{ rb with buf := mem, pW := p, fillCnt := rb.fillCnt + n },
      ?_, ?_, ?_, mem, p, rfl⟩
    · simp only [Int.natCast_eq_zero, if_neg hn0, Int.toNat_natCast, hcopy,
        show ¬((n : Int) < 0) by omega, if_false, Option.bind_eq_bind,
        Option.bind_some, u32_add (show rb.fillCnt + n < 2 ^ 32 by omega)]
    · exact
        { bufLen := hmem
          sizePos := h.sizePos
          sizeInt := h.sizeInt
          pRLe := h.pRLe
          pWLe := hp
          fillLe := by show rb.fillCnt + n ≤ rb.size; omega
          offsets := by
            show p % rb.size = (rb.pR + (rb.fillCnt + n)) % rb.size
            rw [hmod, Nat.add_mod, h.offsets, ← Nat.add_mod]
            congr 1
            omega }
    · show (mem.rotate rb.pR).take (rb.fillCnt + n) =
        (rb.buf.rotate rb.pR).take rb.fillCnt ++ bytes.take n
      -- The write at `p_w` is a write right behind the window at `p_r`.
      have hbehind : mem.rotate (rb.pR + rb.fillCnt) = bytes.take n ++
          (rb.buf.rotate (rb.pR + rb.fillCnt)).drop (bytes.take n).length := by
        have hturn : mem.rotate rb.pW = mem.rotate (rb.pR + rb.fillCnt) :=
          rotate_congr (by rw [hmem]; exact h.offsets)
        have hturn' :
            rb.buf.rotate rb.pW = rb.buf.rotate (rb.pR + rb.fillCnt) :=
          rotate_congr (by rw [hlen]; exact h.offsets)
        rw [← hturn, ← hturn', htake]
        exact hrot
      have happ := take_rotate_append (k := rb.pR) (n := rb.fillCnt)
        (by omega) (by rw [htake]; omega) hbehind
      rw [htake] at happ
      exact happ

end EspAdf.Ports.RingBuf
