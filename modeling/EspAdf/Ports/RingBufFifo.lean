import EspAdf.Verified.Machine
import EspAdf.Verified.Fifo
import EspAdf.Ports.RingBuf

/-!
# The ring buffer refines a bounded FIFO of bytes

The locked sections of `rb_read` and `rb_write` and the function `rb_reset`
are the steps of `ringMachine`; one step of a call is one iteration of its
loop, so `bufLen` and `bytes` are what is *left* of the request.  The
abstract side is `pipeMachine`, a `Fifo` of capacity `size` with the bytes
handed to readers.  `Represents` relates them, `ring_step` is the one-step
simulation, and `ring_refines_fifo` lifts it to every finite sequence of
steps from `rb_create`.
-/

namespace EspAdf.Ports.RingBufFifo

open EspAdf.Verified
open EspAdf.Ports.RingBuf

/-- One lock-protected step. -/
inductive RingOp where
  | read (buf : Bool) (bufLen : Nat)
  | write (bytes : List Byte)
  | reset
  deriving DecidableEq, Repr

/-- The step is not a pseudo read, that is a read with `buf == NULL`. -/
def RingOp.HasBuf : RingOp → Prop
  | .read buf _ => buf = true
  | .write _ => True
  | .reset => True

instance (op : RingOp) : Decidable op.HasBuf := by
  cases op <;> unfold RingOp.HasBuf <;> infer_instance

/-! ## The concrete machine -/

/-- A ring with the bytes it took from writers and stored at readers since
the last reset. -/
structure RingLog where
  rb : Ringbuf
  accepted : List Byte
  delivered : List Byte
  deriving DecidableEq, Repr

def RingLog.start (rb : Ringbuf) : RingLog := ⟨rb, [], []⟩

def ringStep (s : RingLog) : RingOp → Option RingLog
  | .read buf bufLen => do
      let (rb, _, out) ← readSection s.rb buf bufLen
      some ⟨rb, s.accepted, s.delivered ++ out⟩
  | .write bytes => do
      let (rb, n) ← writeSection s.rb bytes
      some ⟨rb, s.accepted ++ bytes.take n, s.delivered⟩
  | .reset => some (.start (rbReset s.rb))

def ringMachine : Machine RingLog RingOp := ⟨ringStep⟩

/-! ## The abstract machine -/

/-- A bounded FIFO of bytes and the bytes handed to readers. -/
structure Pipe (cap : Nat) where
  fifo : Fifo Byte cap
  delivered : List Byte

def Pipe.start (cap : Nat) : Pipe cap := ⟨.empty Byte cap, []⟩

/-- How much of a request a queue of `len` bytes serves at once: all of it,
or else whole words. -/
def served (len request : Nat) : Nat :=
  if len < request then len / 4 * 4 else request

def pipeStep {cap : Nat} (p : Pipe cap) : RingOp → Option (Pipe cap)
  | .read buf request =>
      let n := served p.fifo.items.length request
      some ⟨p.fifo.pop n,
        p.delivered ++ if buf then p.fifo.items.take n else []⟩
  | .write bytes => some ⟨p.fifo.push bytes, p.delivered⟩
  | .reset => some (.start cap)

def pipeMachine (cap : Nat) : Machine (Pipe cap) RingOp := ⟨pipeStep⟩

/-- As long as every read has a destination, what was handed over is exactly
what was removed from the queue. -/
theorem pipe_delivered {cap : Nat} (ops : List RingOp)
    (hbuf : ∀ op ∈ ops, op.HasBuf) :
    ∀ p q : Pipe cap, (pipeMachine cap).run p ops = some q →
      p.delivered = p.fifo.removed → q.delivered = q.fifo.removed := by
  induction ops with
  | nil =>
      intro p q hrun hp
      obtain rfl : p = q := by simpa using hrun
      exact hp
  | cons op ops ih =>
      intro p q hrun hp
      rw [Machine.run_cons, Option.bind_eq_some_iff] at hrun
      obtain ⟨m, hm, hrest⟩ := hrun
      refine ih (fun o ho => hbuf o (by simp [ho])) m q hrest ?_
      have hop : op.HasBuf := hbuf op (by simp)
      cases op with
      | read buf request =>
          obtain rfl : buf = true := hop
          obtain rfl := Option.some.inj hm
          show p.delivered ++ _ = (p.fifo.pop _).removed
          rw [hp, Fifo.pop_removed]
          rfl
      | write bytes =>
          obtain rfl := Option.some.inj hm
          show p.delivered = (p.fifo.push bytes).removed
          rw [Fifo.push_removed]
          exact hp
      | reset =>
          obtain rfl := Option.some.inj hm
          rfl

/-! ## The simulation -/

/-- The concrete state represents the abstract queue. -/
structure Represents (s : RingLog) {cap : Nat} (p : Pipe cap) : Prop where
  wf : s.rb.WF
  size : s.rb.size = cap
  contents : s.rb.contents = p.fifo.items
  accepted : s.accepted = p.fifo.accepted
  delivered : s.delivered = p.delivered

theorem Represents.fillCnt {s : RingLog} {cap : Nat} {p : Pipe cap}
    (h : Represents s p) : s.rb.fillCnt = p.fifo.items.length := by
  rw [← h.contents, h.wf.length_contents]

/-- **One step.**  Related states take the same step into related states;
in particular the concrete step never faults. -/
theorem ring_step {cap : Nat} (s : RingLog) (p : Pipe cap) (op : RingOp)
    (h : Represents s p) :
    ∃ s' p', ringMachine.step s op = some s' ∧
      (pipeMachine cap).step p op = some p' ∧ Represents s' p' := by
  have hfill := h.fillCnt
  cases op with
  | read buf bufLen =>
      obtain ⟨rb', hsec, hwf, hcont, q, hframe⟩ :=
        readSection_spec h.wf buf bufLen
      have hn : readSize s.rb bufLen = served p.fifo.items.length bufLen := by
        rw [readSize_eq h.wf, hfill, served]
      have hstep : ringMachine.step s (.read buf bufLen) =
          some ⟨rb', s.accepted, s.delivered ++
            if buf then s.rb.contents.take (readSize s.rb bufLen) else []⟩ := by
        show (readSection s.rb buf bufLen).bind _ = _
        rw [hsec]
        rfl
      refine ⟨_, _, hstep, rfl, hwf, ?_, ?_, ?_, ?_⟩
      · show rb'.size = cap
        rw [hframe]
        exact h.size
      · show rb'.contents = (p.fifo.pop _).items
        rw [Fifo.pop_items, hcont, h.contents, hn]
      · show s.accepted = (p.fifo.pop _).accepted
        rw [Fifo.pop_accepted]
        exact h.accepted
      · show s.delivered ++ _ = p.delivered ++ _
        rw [h.delivered, h.contents, hn]
  | write bytes =>
      obtain ⟨rb', hsec, hwf, hcont, mem, q, hframe⟩ :=
        writeSection_spec h.wf bytes
      have hn : bytes.take (min bytes.length (s.rb.size - s.rb.fillCnt)) =
          bytes.take p.fifo.room := by
        rw [h.size, hfill, Fifo.room, List.take_eq_take_iff]
        omega
      have hstep : ringMachine.step s (.write bytes) =
          some ⟨rb', s.accepted ++ bytes.take p.fifo.room, s.delivered⟩ := by
        show (writeSection s.rb bytes).bind _ = _
        rw [hsec, ← hn]
        rfl
      refine ⟨_, _, hstep, rfl, hwf, ?_, ?_, ?_, h.delivered⟩
      · show rb'.size = cap
        rw [hframe]
        exact h.size
      · show rb'.contents = (p.fifo.push bytes).items
        rw [Fifo.push_items, hcont, h.contents, hn]
      · show s.accepted ++ _ = (p.fifo.push bytes).accepted
        rw [Fifo.push_accepted, h.accepted]
  | reset =>
      obtain ⟨hwf, hempty⟩ := rbReset_wf h.wf
      have hnone : (rbReset s.rb).contents = (Fifo.empty Byte cap).items := by
        rw [Fifo.empty_items]
        exact hempty
      exact ⟨_, _, rfl, rfl, hwf, h.size, hnone, rfl, rfl⟩

/-- **The ring buffer is a bounded FIFO byte queue.**  From `rb_create` on,
every sequence of locked steps runs without a copy outside the buffer, and
ends in a state that represents the queue which took the same steps: the
count is the queue length, both offsets stay within `[0, size]`, and, when
every read has a destination, readers received a prefix of what writers
handed in since the last reset. -/
theorem ring_refines_fifo {blockSize nBlocks : Int} {allocs : Bool}
    {rb : Ringbuf} (hn : 1 ≤ nBlocks)
    (hint : blockSize * nBlocks < 2 ^ 31)
    (hrb : rbCreate blockSize nBlocks allocs = some rb)
    (ops : List RingOp) :
    ∃ (s : RingLog) (p : Pipe (blockSize * nBlocks).toNat),
      ringMachine.run (.start rb) ops = some s ∧
      (pipeMachine _).run (.start _) ops = some p ∧
      Represents s p ∧
      s.rb.fillCnt = p.fifo.items.length ∧ s.rb.fillCnt ≤ s.rb.size ∧
      s.rb.pR ≤ s.rb.size ∧ s.rb.pW ≤ s.rb.size ∧
      ((∀ op ∈ ops, op.HasBuf) → s.delivered <+: s.accepted) := by
  obtain ⟨hwf, hempty, hsize⟩ := rbCreate_wf hn hint hrb
  have hstart : Represents (.start rb)
      (.start (blockSize * nBlocks).toNat) :=
    ⟨hwf, by show rb.size = _; omega, hempty, rfl, rfl⟩
  obtain ⟨s, p, hs, hp, hrep⟩ :=
    Machine.run_simulation ring_step ops _ _ hstart
  refine ⟨s, p, hs, hp, hrep, hrep.fillCnt, hrep.wf.fillLe, hrep.wf.pRLe,
    hrep.wf.pWLe, ?_⟩
  intro hbuf
  rw [hrep.delivered, pipe_delivered ops hbuf _ _ hp rfl, hrep.accepted]
  exact p.fifo.removed_prefix

/-- The refinement on a ring of two blocks of three bytes that wraps, with
an offset left at `size` in between. -/
theorem ring_refines_fifo_wraps :
    ∃ (s : RingLog) (p : Pipe ((3 : Int) * 2).toNat),
      ringMachine.run
        (.start ⟨[0, 0, 0, 0, 0, 0], 0, 0, 0, 6, false, false, true,
          false, false, false, false⟩)
        [.write [1, 2, 3, 4, 5, 6], .read true 5, .write [7, 8],
          .read true 3] = some s ∧
      (pipeMachine _).run (.start _)
        [.write [1, 2, 3, 4, 5, 6], .read true 5, .write [7, 8],
          .read true 3] = some p ∧
      Represents s p ∧
      s.rb.fillCnt = p.fifo.items.length ∧ s.rb.fillCnt ≤ s.rb.size ∧
      s.rb.pR ≤ s.rb.size ∧ s.rb.pW ≤ s.rb.size ∧
      ((∀ op ∈ [RingOp.write [1, 2, 3, 4, 5, 6], .read true 5,
        .write [7, 8], .read true 3], op.HasBuf) →
        s.delivered <+: s.accepted) :=
  ring_refines_fifo (by decide) (by decide)
    (show rbCreate 3 2 true = some _ by decide) _

end EspAdf.Ports.RingBufFifo
