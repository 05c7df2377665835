import EspAdf.Verified.Machine
import EspAdf.Ports.RingBuf

/-!
# `rb_read` and `rb_write` as concurrent tasks

One task runs `rb_read` calls, one task runs `rb_write` calls, and any number
of other tasks run `rb_abort`, `rb_done_write` and `rb_unblock_reader` on the
same ring.  A call is a program counter with its local variables; one action
is one access to shared state.  The section between taking and giving
`rb->lock` is one action here (`RingBufLock` takes it apart), so the lock is
available between actions; every test of a flag, every take and give of
`can_read` and `can_write`, and every store to a flag is an action of its
own.

A take of an empty semaphore is blocked (`none`); a call with a finite
`ticks_to_wait` may instead time out.  The flags and semaphores live in
`Ringbuf`, so the state is the ring, the two calls, the control calls in
progress, and the bytes accepted and delivered so far.

`ReadMove` and `WriteMove` say once everything one action of a call can do on
a well-formed ring; the invariants of later modules are proved from them.
-/

namespace EspAdf.Ports.RingBufTasks

open EspAdf.Verified
open EspAdf.Ports.RingBuf

/-- `ticks_to_wait`: `portMAX_DELAY` or a finite number of ticks. -/
inductive Ticks where
  | maxDelay
  | finite
  deriving DecidableEq, Repr

/-! ## Calls in progress -/

/-- Where an `rb_read` call stands. -/
inductive ReadPc where
  /-- Between calls. -/
  | idle
  | takeLock
  | testDone
  | testAbort
  | testUnblock
  | takeCanRead
  | readErr
  | clearUnblock
  deriving DecidableEq, Repr

/-- An `rb_read` call and its local variables.  `seen` is the `fill_cnt` that
the last locked section found; it only records history. -/
structure ReadCall where
  pc : ReadPc
  buf : Bool
  bufLen : Nat
  ticks : Ticks
  totalReadSize : Nat
  retVal : Int
  seen : Nat
  deriving DecidableEq, Repr

def ReadCall.idle : ReadCall := ⟨.idle, true, 0, .maxDelay, 0, 0, 0⟩

/-- The call enters `while (buf_len)`. -/
def ReadCall.start (buf : Bool) (bufLen : Nat) (ticks : Ticks) : ReadCall :=
  ⟨if bufLen = 0 then .readErr else .takeLock, buf, bufLen, ticks, 0, 0, 0⟩

/-- The value `rb_read` returns. -/
def ReadCall.result (c : ReadCall) : Int :=
  let total : Int :=
    if c.retVal = RB_FAIL ∨ c.retVal = RB_ABORT then c.retVal
    else c.totalReadSize
  if total > 0 then total else c.retVal

/-- Where an `rb_write` call stands. -/
inductive WritePc where
  | idle
  | takeLock
  | testDone
  | testAbort
  | takeCanWrite
  | writeErr
  deriving DecidableEq, Repr

/-- An `rb_write` call and its local variables; `buf` is what is left of the
caller's buffer, so `buf_len` is its length. -/
structure WriteCall where
  pc : WritePc
  buf : List Byte
  ticks : Ticks
  totalWriteSize : Nat
  retVal : Int
  deriving DecidableEq, Repr

def WriteCall.idle : WriteCall := ⟨.idle, [], .maxDelay, 0, 0⟩

def WriteCall.start (buf : List Byte) (ticks : Ticks) : WriteCall :=
  ⟨if buf.length = 0 then .writeErr else .takeLock, buf, ticks, 0, 0⟩

/-- The value `rb_write` returns. -/
def WriteCall.result (c : WriteCall) : Int :=
  let total : Int :=
    if c.retVal = RB_FAIL ∨ c.retVal = RB_ABORT then c.retVal
    else c.totalWriteSize
  if total > 0 then total else c.retVal

/-- The reader found nothing to read and has not been woken since. -/
def ReadWaits (c : ReadCall) : Prop :=
  c.pc = .testDone ∨ c.pc = .testAbort ∨ c.pc = .testUnblock ∨
    c.pc = .takeCanRead

/-- The writer found the ring full and has not been woken since. -/
def WriteWaits (c : WriteCall) : Prop :=
  c.pc = .testDone ∨ c.pc = .testAbort ∨ c.pc = .takeCanWrite

/-- The remaining statements of a control call made by another task. -/
inductive CtlPc where
  | abortReadFlag
  | abortReadGive
  | abortWriteFlag
  | abortWriteGive
  | abortLockGive
  | doneFlag
  | doneGive
  | unblockFlag
  | unblockGive
  deriving DecidableEq, Repr

/-- `rb_abort`, `rb_done_write` and `rb_unblock_reader`. -/
inductive Ctl where
  | abort
  | doneWrite
  | unblockReader
  deriving DecidableEq, Repr

def Ctl.start : Ctl → CtlPc
  | .abort => .abortReadFlag
  | .doneWrite => .doneFlag
  | .unblockReader => .unblockFlag

/-! ## One action of each party -/

/-- The next action of an `rb_read` call: the ring, the call, and the bytes
just stored at `buf`. -/
def readNext (rb : Ringbuf) (c : ReadCall) :
    Option (Ringbuf × ReadCall × List Byte) :=
  match c.pc with
  | .idle => none
  | .takeLock => do
      let (rb', n, out) ← readSection rb c.buf c.bufLen
      if n = 0 then
        some (rb', { c with pc := .testDone, seen := rb.fillCnt }, out)
      else
        some (rb', { c with
          pc := if c.bufLen - n = 0 then .readErr else .takeLock
          bufLen := c.bufLen - n
          totalReadSize := c.totalReadSize + n
          seen := rb.fillCnt }, out)
  | .testDone =>
      if rb.isDoneWrite then
        some (rb, { c with pc := .readErr, retVal := RB_DONE }, [])
      else some (rb, { c with pc := .testAbort }, [])
  | .testAbort =>
      if rb.abortRead then
        some (rb, { c with pc := .readErr, retVal := RB_ABORT }, [])
      else some (rb, { c with pc := .testUnblock }, [])
  | .testUnblock =>
      if rb.unblockReaderFlag then
        some (rb, { c with pc := .readErr, retVal := RB_TIMEOUT }, [])
      else some (rb, { c with pc := .takeCanRead }, [])
  | .takeCanRead =>
      if rb.canRead then
        some ({ rb with canRead := false }, { c with pc := .takeLock }, [])
      else none
  | .readErr =>
      some (if c.totalReadSize > 0 then { rb with canWrite := true } else rb,
        { c with pc := .clearUnblock }, [])
  | .clearUnblock =>
      some ({ rb with unblockReaderFlag := false }, { c with pc := .idle }, [])

/-- The next action of an `rb_write` call: the ring, the call, and the bytes
just taken from the caller's buffer. -/
def writeNext (rb : Ringbuf) (c : WriteCall) :
    Option (Ringbuf × WriteCall × List Byte) :=
  match c.pc with
  | .idle => none
  | .takeLock => do
      let (rb', n) ← writeSection rb c.buf
      if n = 0 then some (rb', { c with pc := .testDone }, [])
      else
        some (rb', { c with
          pc := if c.buf.length - n = 0 then .writeErr else .takeLock
          buf := c.buf.drop n
          totalWriteSize := c.totalWriteSize + n }, c.buf.take n)
  | .testDone =>
      if rb.isDoneWrite then
        some (rb, { c with pc := .writeErr, retVal := RB_DONE }, [])
      else some (rb, { c with pc := .testAbort }, [])
  | .testAbort =>
      if rb.abortWrite then
        some (rb, { c with pc := .writeErr, retVal := RB_ABORT }, [])
      else some (rb, { c with pc := .takeCanWrite }, [])
  | .takeCanWrite =>
      if rb.canWrite then
        some ({ rb with canWrite := false }, { c with pc := .takeLock }, [])
      else none
  | .writeErr =>
      some (if c.totalWriteSize > 0 then { rb with canRead := true } else rb,
        { c with pc := .idle }, [])

/-- The next statement of a control call and what is left of the call. -/
def ctlNext (rb : Ringbuf) : CtlPc → Ringbuf × Option CtlPc
  | .abortReadFlag => ({ rb with abortRead := true }, some .abortReadGive)
  | .abortReadGive => ({ rb with canRead := true }, some .abortWriteFlag)
  | .abortWriteFlag => ({ rb with abortWrite := true }, some .abortWriteGive)
  | .abortWriteGive => ({ rb with canWrite := true }, some .abortLockGive)
  | .abortLockGive => ({ rb with lock := true }, none)
  | .doneFlag => ({ rb with isDoneWrite := true }, some .doneGive)
  | .doneGive => ({ rb with canRead := true }, none)
  | .unblockFlag => ({ rb with unblockReaderFlag := true }, some .unblockGive)
  | .unblockGive => ({ rb with canRead := true }, none)

/-! ## The system -/

/-- The ring, the calls in progress, and the bytes that writers handed in and
readers received. -/
structure Sys where
  rb : Ringbuf
  reader : ReadCall
  writer : WriteCall
  ctls : List CtlPc
  accepted : List Byte
  delivered : List Byte
  deriving DecidableEq, Repr

/-- Nobody is inside a call. -/
def Sys.start (rb : Ringbuf) : Sys := ⟨rb, .idle, .idle, [], [], []⟩

inductive Act where
  | readStart (buf : Bool) (bufLen : Nat) (ticks : Ticks)
  | readStep
  | readTimeout
  | writeStart (buf : List Byte) (ticks : Ticks)
  | writeStep
  | writeTimeout
  | ctlStart (c : Ctl)
  | ctlStep (i : Nat)
  deriving DecidableEq, Repr

def sysStep (s : Sys) : Act → Option Sys
  | .readStart buf bufLen ticks =>
      if s.reader.pc = .idle then
        some { s with reader := .start buf bufLen ticks }
      else none
  | .readStep => do
      let (rb, c, out) ← readNext s.rb s.reader
      some { s with rb := rb, reader := c, delivered := s.delivered ++ out }
  | .readTimeout =>
      if s.reader.pc = .takeCanRead ∧ s.rb.canRead = false ∧
          s.reader.ticks = .finite then
        some { s with
          reader := { s.reader with pc := .readErr, retVal := RB_TIMEOUT } }
      else none
  | .writeStart buf ticks =>
      if s.writer.pc = .idle then
        some { s with writer := .start buf ticks }
      else none
  | .writeStep => do
      let (rb, c, bytes) ← writeNext s.rb s.writer
      some { s with rb := rb, writer := c, accepted := s.accepted ++ bytes }
  | .writeTimeout =>
      if s.writer.pc = .takeCanWrite ∧ s.rb.canWrite = false ∧
          s.writer.ticks = .finite then
        some { s with
          writer := { s.writer with pc := .writeErr, retVal := RB_TIMEOUT } }
      else none
  | .ctlStart c => some { s with ctls := s.ctls ++ [c.start] }
  | .ctlStep i =>
      match s.ctls[i]? with
      | none => none
      | some pc =>
          let (rb, rest) := ctlNext s.rb pc
          some { s with
            rb := rb
            ctls := match rest with
              | some next => s.ctls.set i next
              | none => s.ctls.eraseIdx i }

def sysMachine : Machine Sys Act := ⟨sysStep⟩

/-! ## What one action of a call can do -/

/-- Everything one action of an `rb_read` call can do on a well-formed
ring. -/
inductive ReadMove (rb : Ringbuf) (c : ReadCall) :
    Ringbuf → ReadCall → List Byte → Prop where
  | nothing (hpc : c.pc = .takeLock) (hzero : readSize rb c.bufLen = 0) :
      ReadMove rb c rb { c with pc := .testDone, seen := rb.fillCnt } []
  | moved (p : Nat) (hpc : c.pc = .takeLock)
      (hpos : 0 < readSize rb c.bufLen)
      (hwf : { rb with
        pR := p, fillCnt := rb.fillCnt - readSize rb c.bufLen }.WF)
      (hcont : { rb with
          pR := p, fillCnt := rb.fillCnt - readSize rb c.bufLen }.contents =
        rb.contents.drop (readSize rb c.bufLen)) :
      ReadMove rb c
        { rb with pR := p, fillCnt := rb.fillCnt - readSize rb c.bufLen }
        { c with
          pc := if c.bufLen - readSize rb c.bufLen = 0 then .readErr
            else .takeLock
          bufLen := c.bufLen - readSize rb c.bufLen
          totalReadSize := c.totalReadSize + readSize rb c.bufLen
          seen := rb.fillCnt }
        (if c.buf then rb.contents.take (readSize rb c.bufLen) else [])
  | gotDone (hpc : c.pc = .testDone) (hflag : rb.isDoneWrite = true) :
      ReadMove rb c rb { c with pc := .readErr, retVal := RB_DONE } []
  | notDone (hpc : c.pc = .testDone) (hflag : rb.isDoneWrite = false) :
      ReadMove rb c rb { c with pc := .testAbort } []
  | gotAbort (hpc : c.pc = .testAbort) (hflag : rb.abortRead = true) :
      ReadMove rb c rb { c with pc := .readErr, retVal := RB_ABORT } []
  | notAbort (hpc : c.pc = .testAbort) (hflag : rb.abortRead = false) :
      ReadMove rb c rb { c with pc := .testUnblock } []
  | gotUnblock (hpc : c.pc = .testUnblock)
      (hflag : rb.unblockReaderFlag = true) :
      ReadMove rb c rb { c with pc := .readErr, retVal := RB_TIMEOUT } []
  | notUnblock (hpc : c.pc = .testUnblock)
      (hflag : rb.unblockReaderFlag = false) :
      ReadMove rb c rb { c with pc := .takeCanRead } []
  | took (hpc : c.pc = .takeCanRead) (hflag : rb.canRead = true) :
      ReadMove rb c { rb with canRead := false } { c with pc := .takeLock } []
  | gave (hpc : c.pc = .readErr) (hpos : 0 < c.totalReadSize) :
      ReadMove rb c { rb with canWrite := true }
        { c with pc := .clearUnblock } []
  | kept (hpc : c.pc = .readErr) (hzero : c.totalReadSize = 0) :
      ReadMove rb c rb { c with pc := .clearUnblock } []
  | returned (hpc : c.pc = .clearUnblock) :
      ReadMove rb c { rb with unblockReaderFlag := false }
        { c with pc := .idle } []

/-- Outside its section the call does so on any ring. -/
theorem readNext_unlocked {rb rb' : Ringbuf} {c c' : ReadCall}
    {out : List Byte} (hunlocked : c.pc ≠ .takeLock)
    (hn : readNext rb c = some (rb', c', out)) :
    ReadMove rb c rb' c' out := by
  unfold readNext at hn
  split at hn
  case h_1 => contradiction
  case h_2 hpc => contradiction
  case h_8 hpc =>
      simp only [Option.some.injEq, Prod.mk.injEq] at hn
      obtain ⟨rfl, rfl, rfl⟩ := hn
      exact .returned hpc
  case h_7 hpc =>
      simp only [Option.some.injEq, Prod.mk.injEq] at hn
      obtain ⟨rfl, rfl, rfl⟩ := hn
      split
      · rename_i ht
        exact .gave hpc ht
      · rename_i ht
        exact .kept hpc (by omega)
  case h_6 hpc =>
      split at hn
      · rename_i hf
        simp only [Option.some.injEq, Prod.mk.injEq] at hn
        obtain ⟨rfl, rfl, rfl⟩ := hn
        exact .took hpc hf
      · contradiction
  case h_5 hpc =>
      split at hn <;> rename_i hf <;>
        simp only [Option.some.injEq, Prod.mk.injEq] at hn <;>
        obtain ⟨rfl, rfl, rfl⟩ := hn
      · exact .gotUnblock hpc hf
      · exact .notUnblock hpc (by simpa using hf)
  case h_4 hpc =>
      split at hn <;> rename_i hf <;>
        simp only [Option.some.injEq, Prod.mk.injEq] at hn <;>
        obtain ⟨rfl, rfl, rfl⟩ := hn
      · exact .gotAbort hpc hf
      · exact .notAbort hpc (by simpa using hf)
  case h_3 hpc =>
      split at hn <;> rename_i hf <;>
        simp only [Option.some.injEq, Prod.mk.injEq] at hn <;>
        obtain ⟨rfl, rfl, rfl⟩ := hn
      · exact .gotDone hpc hf
      · exact .notDone hpc (by simpa using hf)

theorem readNext_move {rb rb' : Ringbuf} {c c' : ReadCall}
    {out : List Byte} (h : rb.WF) (hn : readNext rb c = some (rb', c', out)) :
    ReadMove rb c rb' c' out := by
  by_cases hpc : c.pc = .takeLock
  · obtain ⟨rb₁, hsec, hwf, hcont, p, hframe⟩ :=
      readSection_spec h c.buf c.bufLen
    simp only [readNext, hpc, hsec, Option.bind_eq_bind, Option.bind_some]
      at hn
    by_cases hz : readSize rb c.bufLen = 0
    · -- An empty section leaves the ring as it is.
      have hout : readSection rb c.buf c.bufLen = some (rb, 0, []) := by
        rw [readSection, if_pos hz]
      rw [hsec, Option.some.injEq, Prod.mk.injEq, Prod.mk.injEq] at hout
      obtain ⟨rfl, -, ho⟩ := hout
      simp only [if_pos hz, ho, Option.some.injEq, Prod.mk.injEq] at hn
      obtain ⟨rfl, rfl, rfl⟩ := hn
      exact .nothing hpc hz
    · simp only [if_neg hz, Option.some.injEq, Prod.mk.injEq] at hn
      obtain ⟨rfl, rfl, rfl⟩ := hn
      subst hframe
      exact .moved p hpc (by omega) hwf hcont
  · exact readNext_unlocked hpc hn

/-- Everything one action of an `rb_write` call can do on a well-formed
ring. -/
inductive WriteMove (rb : Ringbuf) (c : WriteCall) :
    Ringbuf → WriteCall → List Byte → Prop where
  | nothing (hpc : c.pc = .takeLock)
      (hzero : min c.buf.length (rb.size - rb.fillCnt) = 0) :
      WriteMove rb c rb { c with pc := .testDone } []
  | moved (n : Nat) (mem : List Byte) (p : Nat) (hpc : c.pc = .takeLock)
      (hn : n = min c.buf.length (rb.size - rb.fillCnt)) (hpos : 0 < n)
      (hwf : { rb with buf := mem, pW := p, fillCnt := rb.fillCnt + n }.WF)
      (hcont :
        { rb with buf := mem, pW := p, fillCnt := rb.fillCnt + n }.contents =
          rb.contents ++ c.buf.take n) :
      WriteMove rb c
        { rb with buf := mem, pW := p, fillCnt := rb.fillCnt + n }
        { c with
          pc := if c.buf.length - n = 0 then .writeErr else .takeLock
          buf := c.buf.drop n
          totalWriteSize := c.totalWriteSize + n }
        (c.buf.take n)
  | gotDone (hpc : c.pc = .testDone) (hflag : rb.isDoneWrite = true) :
      WriteMove rb c rb { c with pc := .writeErr, retVal := RB_DONE } []
  | notDone (hpc : c.pc = .testDone) (hflag : rb.isDoneWrite = false) :
      WriteMove rb c rb { c with pc := .testAbort } []
  | gotAbort (hpc : c.pc = .testAbort) (hflag : rb.abortWrite = true) :
      WriteMove rb c rb { c with pc := .writeErr, retVal := RB_ABORT } []
  | notAbort (hpc : c.pc = .testAbort) (hflag : rb.abortWrite = false) :
      WriteMove rb c rb { c with pc := .takeCanWrite } []
  | took (hpc : c.pc = .takeCanWrite) (hflag : rb.canWrite = true) :
      WriteMove rb c { rb with canWrite := false }
        { c with pc := .takeLock } []
  | gave (hpc : c.pc = .writeErr) (hpos : 0 < c.totalWriteSize) :
      WriteMove rb c { rb with canRead := true } { c with pc := .idle } []
  | kept (hpc : c.pc = .writeErr) (hzero : c.totalWriteSize = 0) :
      WriteMove rb c rb { c with pc := .idle } []

theorem writeNext_unlocked {rb rb' : Ringbuf} {c c' : WriteCall}
    {bytes : List Byte} (hunlocked : c.pc ≠ .takeLock)
    (hn : writeNext rb c = some (rb', c', bytes)) :
    WriteMove rb c rb' c' bytes := by
  unfold writeNext at hn
  split at hn
  case h_1 => contradiction
  case h_2 hpc => contradiction
  case h_6 hpc =>
      simp only [Option.some.injEq, Prod.mk.injEq] at hn
      obtain ⟨rfl, rfl, rfl⟩ := hn
      split
      · rename_i ht
        exact .gave hpc ht
      · rename_i ht
        exact .kept hpc (by omega)
  case h_5 hpc =>
      split at hn
      · rename_i hf
        simp only [Option.some.injEq, Prod.mk.injEq] at hn
        obtain ⟨rfl, rfl, rfl⟩ := hn
        exact .took hpc hf
      · contradiction
  case h_4 hpc =>
      split at hn <;> rename_i hf <;>
        simp only [Option.some.injEq, Prod.mk.injEq] at hn <;>
        obtain ⟨rfl, rfl, rfl⟩ := hn
      · exact .gotAbort hpc hf
      · exact .notAbort hpc (by simpa using hf)
  case h_3 hpc =>
      split at hn <;> rename_i hf <;>
        simp only [Option.some.injEq, Prod.mk.injEq] at hn <;>
        obtain ⟨rfl, rfl, rfl⟩ := hn
      · exact .gotDone hpc hf
      · exact .notDone hpc (by simpa using hf)

theorem writeNext_move {rb rb' : Ringbuf} {c c' : WriteCall}
    {bytes : List Byte} (h : rb.WF)
    (hn : writeNext rb c = some (rb', c', bytes)) :
    WriteMove rb c rb' c' bytes := by
  by_cases hpc : c.pc = .takeLock
  · obtain ⟨rb₁, hsec, hwf, hcont, mem, p, hframe⟩ :=
      writeSection_spec h c.buf
    simp only [writeNext, hpc, hsec, Option.bind_eq_bind, Option.bind_some]
      at hn
    by_cases hz : min c.buf.length (rb.size - rb.fillCnt) = 0
    · have hout : writeSection rb c.buf = some (rb, 0) := by
        rw [writeSection, writeSize_eq h, hz]
        rfl
      rw [hsec, Option.some.injEq, Prod.mk.injEq] at hout
      obtain ⟨rfl, -⟩ := hout
      simp only [if_pos hz, Option.some.injEq, Prod.mk.injEq] at hn
      obtain ⟨rfl, rfl, rfl⟩ := hn
      exact .nothing hpc hz
    · simp only [if_neg hz, Option.some.injEq, Prod.mk.injEq] at hn
      obtain ⟨rfl, rfl, rfl⟩ := hn
      subst hframe
      exact .moved _ mem p hpc rfl (by omega) hwf hcont
  · exact writeNext_unlocked hpc hn

/-! ## Two facts about every action -/

/-- Two rings hold the same bytes; flags and semaphores may differ. -/
structure SameBytes (rb rb' : Ringbuf) : Prop where
  buf : rb'.buf = rb.buf
  pR : rb'.pR = rb.pR
  pW : rb'.pW = rb.pW
  fillCnt : rb'.fillCnt = rb.fillCnt
  size : rb'.size = rb.size

theorem SameBytes.refl (rb : Ringbuf) : SameBytes rb rb :=
  ⟨rfl, rfl, rfl, rfl, rfl⟩

theorem SameBytes.wf {rb rb' : Ringbuf} (hwf : rb.WF)
    (h : SameBytes rb rb') : rb'.WF := by
  obtain ⟨hb, hr, hw, hf, hs⟩ := h
  exact
    { bufLen := by rw [hb, hs]; exact hwf.bufLen
      sizePos := by rw [hs]; exact hwf.sizePos
      sizeInt := by rw [hs]; exact hwf.sizeInt
      pRLe := by rw [hr, hs]; exact hwf.pRLe
      pWLe := by rw [hw, hs]; exact hwf.pWLe
      fillLe := by rw [hf, hs]; exact hwf.fillLe
      offsets := by rw [hw, hs, hr, hf]; exact hwf.offsets }

theorem SameBytes.contents {rb rb' : Ringbuf} (h : SameBytes rb rb') :
    rb'.contents = rb.contents := by
  rw [Ringbuf.contents, Ringbuf.contents, h.buf, h.pR, h.fillCnt]

/-- A control call touches flags and semaphores only. -/
theorem ctlNext_sameBytes (rb : Ringbuf) (pc : CtlPc) :
    SameBytes rb (ctlNext rb pc).1 := by
  cases pc <;> exact ⟨rfl, rfl, rfl, rfl, rfl⟩

theorem ReadMove.wf {rb rb' : Ringbuf} {c c' : ReadCall} {out : List Byte}
    (hwf : rb.WF) (h : ReadMove rb c rb' c' out) : rb'.WF := by
  cases h with
  | moved p hpc hpos hwf' hcont => exact hwf'
  | _ => exact SameBytes.wf hwf ⟨rfl, rfl, rfl, rfl, rfl⟩

theorem ReadMove.size {rb rb' : Ringbuf} {c c' : ReadCall} {out : List Byte}
    (h : ReadMove rb c rb' c' out) : rb'.size = rb.size := by
  cases h <;> rfl

/-- A call with a buffer hands over the front of the queue. -/
theorem ReadMove.contents {rb rb' : Ringbuf} {c c' : ReadCall}
    {out : List Byte} (hbuf : c.buf = true) (h : ReadMove rb c rb' c' out) :
    out ++ rb'.contents = rb.contents := by
  cases h with
  | moved p hpc hpos hwf hcont =>
      rw [hcont, if_pos hbuf, List.take_append_drop]
  | _ => exact SameBytes.contents ⟨rfl, rfl, rfl, rfl, rfl⟩

/-- A call that looks or waits has something left to read. -/
theorem ReadMove.bufLen_pos {rb rb' : Ringbuf} {c c' : ReadCall}
    {out : List Byte} (h : ReadMove rb c rb' c' out)
    (hreq : c.pc = .takeLock ∨ ReadWaits c → 0 < c.bufLen) :
    c'.pc = .takeLock ∨ ReadWaits c' → 0 < c'.bufLen := by
  cases h with
  | nothing hpc hzero => exact fun _ => hreq (.inl hpc)
  | moved p hpc hpos hwf hcont =>
      intro hp
      -- The call goes on only with something left to read.
      by_cases hz : c.bufLen - readSize rb c.bufLen = 0
      · simp [hz, ReadWaits] at hp
      · show 0 < c.bufLen - readSize rb c.bufLen
        omega
  | notDone hpc hflag => exact fun _ => hreq (.inr (.inl hpc))
  | notAbort hpc hflag => exact fun _ => hreq (.inr (.inr (.inl hpc)))
  | notUnblock hpc hflag =>
      exact fun _ => hreq (.inr (.inr (.inr (.inl hpc))))
  | took hpc hflag => exact fun _ => hreq (.inr (.inr (.inr (.inr hpc))))
  | _ =>
      intro hp
      simp [ReadWaits] at hp

/-- A call that waits has just looked in vain, or was waiting already. -/
theorem ReadMove.waits {rb rb' : Ringbuf} {c c' : ReadCall}
    {out : List Byte} (h : ReadMove rb c rb' c' out) (hw : ReadWaits c') :
    rb' = rb ∧ c'.bufLen = c.bufLen ∧ c'.totalReadSize = c.totalReadSize ∧
      ((c.pc = .takeLock ∧ readSize rb c.bufLen = 0) ∨ ReadWaits c) := by
  cases h with
  | nothing hpc hzero => exact ⟨rfl, rfl, rfl, .inl ⟨hpc, hzero⟩⟩
  | moved p hpc hpos hwf hcont =>
      by_cases hz : c.bufLen - readSize rb c.bufLen = 0 <;>
        simp [hz, ReadWaits] at hw
  | notDone hpc hflag => exact ⟨rfl, rfl, rfl, .inr (.inl hpc)⟩
  | notAbort hpc hflag => exact ⟨rfl, rfl, rfl, .inr (.inr (.inl hpc))⟩
  | notUnblock hpc hflag =>
      exact ⟨rfl, rfl, rfl, .inr (.inr (.inr (.inl hpc)))⟩
  | _ => simp [ReadWaits] at hw

theorem WriteMove.wf {rb rb' : Ringbuf} {c c' : WriteCall}
    {bytes : List Byte} (hwf : rb.WF) (h : WriteMove rb c rb' c' bytes) :
    rb'.WF := by
  cases h with
  | moved n mem p hpc hn hpos hwf' hcont => exact hwf'
  | _ => exact SameBytes.wf hwf ⟨rfl, rfl, rfl, rfl, rfl⟩

/-- What leaves the caller's buffer joins the back of the queue. -/
theorem WriteMove.contents {rb rb' : Ringbuf} {c c' : WriteCall}
    {bytes : List Byte} (h : WriteMove rb c rb' c' bytes) :
    rb'.contents = rb.contents ++ bytes := by
  cases h with
  | moved n mem p hpc hn hpos hwf hcont => exact hcont
  | _ =>
      exact (SameBytes.contents ⟨rfl, rfl, rfl, rfl, rfl⟩).trans
        (List.append_nil _).symm

theorem WriteMove.size {rb rb' : Ringbuf} {c c' : WriteCall}
    {bytes : List Byte} (h : WriteMove rb c rb' c' bytes) :
    rb'.size = rb.size := by
  cases h <;> rfl

/-- A call that looks or waits has something left to write. -/
theorem WriteMove.length_pos {rb rb' : Ringbuf} {c c' : WriteCall}
    {bytes : List Byte} (h : WriteMove rb c rb' c' bytes)
    (hreq : c.pc = .takeLock ∨ WriteWaits c → 0 < c.buf.length) :
    c'.pc = .takeLock ∨ WriteWaits c' → 0 < c'.buf.length := by
  cases h with
  | nothing hpc hzero => exact fun _ => hreq (.inl hpc)
  | moved n mem p hpc hn hpos hwf hcont =>
      intro hp
      by_cases hz : c.buf.length - n = 0
      · simp [hz, WriteWaits] at hp
      · show 0 < (c.buf.drop n).length
        rw [List.length_drop]
        omega
  | notDone hpc hflag => exact fun _ => hreq (.inr (.inl hpc))
  | notAbort hpc hflag => exact fun _ => hreq (.inr (.inr (.inl hpc)))
  | took hpc hflag => exact fun _ => hreq (.inr (.inr (.inr hpc)))
  | _ =>
      intro hp
      simp [WriteWaits] at hp

/-- A call that waits has just found the ring full, or was waiting
already. -/
theorem WriteMove.waits {rb rb' : Ringbuf} {c c' : WriteCall}
    {bytes : List Byte} (h : WriteMove rb c rb' c' bytes)
    (hw : WriteWaits c') :
    rb' = rb ∧ c'.totalWriteSize = c.totalWriteSize ∧
      ((c.pc = .takeLock ∧ min c.buf.length (rb.size - rb.fillCnt) = 0) ∨
        WriteWaits c) := by
  cases h with
  | nothing hpc hzero => exact ⟨rfl, rfl, .inl ⟨hpc, hzero⟩⟩
  | moved n mem p hpc hn hpos hwf hcont =>
      by_cases hz : c.buf.length - n = 0 <;> simp [hz, WriteWaits] at hw
  | notDone hpc hflag => exact ⟨rfl, rfl, .inr (.inl hpc)⟩
  | notAbort hpc hflag => exact ⟨rfl, rfl, .inr (.inr (.inl hpc))⟩
  | _ => simp [WriteWaits] at hw

theorem WriteMove.not_idle {rb rb' : Ringbuf} {c c' : WriteCall}
    {bytes : List Byte} (h : WriteMove rb c rb' c' bytes) :
    c.pc ≠ .idle := by
  intro hidle
  cases h <;> simp_all only [reduceCtorEq]

theorem WriteMove.isDoneWrite {rb rb' : Ringbuf} {c c' : WriteCall}
    {bytes : List Byte} (h : WriteMove rb c rb' c' bytes) :
    rb'.isDoneWrite = rb.isDoneWrite := by
  cases h <;> rfl

/-- An action of the reader's call, on any ring. -/
theorem sysStep_readNext {s t : Sys} (h : sysStep s .readStep = some t) :
    ∃ rb c out, readNext s.rb s.reader = some (rb, c, out) ∧
      t = { s with rb := rb, reader := c, delivered := s.delivered ++ out } := by
  simp only [sysStep, Option.bind_eq_bind, Option.bind_eq_some_iff] at h
  obtain ⟨⟨rb, c, out⟩, hn, ht⟩ := h
  exact ⟨rb, c, out, hn, (Option.some.inj ht).symm⟩

/-- An action of the writer's call, on any ring. -/
theorem sysStep_writeNext {s t : Sys} (h : sysStep s .writeStep = some t) :
    ∃ rb c bytes, writeNext s.rb s.writer = some (rb, c, bytes) ∧
      t = { s with rb := rb, writer := c, accepted := s.accepted ++ bytes } := by
  simp only [sysStep, Option.bind_eq_bind, Option.bind_eq_some_iff] at h
  obtain ⟨⟨rb, c, bytes⟩, hn, ht⟩ := h
  exact ⟨rb, c, bytes, hn, (Option.some.inj ht).symm⟩

theorem sysStep_readStep {s t : Sys} (hwf : s.rb.WF)
    (h : sysStep s .readStep = some t) :
    ∃ rb c out, ReadMove s.rb s.reader rb c out ∧
      t = { s with rb := rb, reader := c, delivered := s.delivered ++ out } := by
  obtain ⟨rb, c, out, hn, ht⟩ := sysStep_readNext h
  exact ⟨rb, c, out, readNext_move hwf hn, ht⟩

theorem sysStep_writeStep {s t : Sys} (hwf : s.rb.WF)
    (h : sysStep s .writeStep = some t) :
    ∃ rb c bytes, WriteMove s.rb s.writer rb c bytes ∧
      t = { s with rb := rb, writer := c, accepted := s.accepted ++ bytes } := by
  obtain ⟨rb, c, bytes, hn, ht⟩ := sysStep_writeNext h
  exact ⟨rb, c, bytes, writeNext_move hwf hn, ht⟩

/-- A statement of a control call changes the ring's flags and semaphores and
moves on in the list of control calls, nothing else. -/
theorem sysStep_ctlStep {s t : Sys} {i : Nat}
    (h : sysStep s (.ctlStep i) = some t) :
    ∃ pc, s.ctls[i]? = some pc ∧
      t = { s with
        rb := (ctlNext s.rb pc).1
        ctls := match (ctlNext s.rb pc).2 with
          | some next => s.ctls.set i next
          | none => s.ctls.eraseIdx i } := by
  simp only [sysStep] at h
  split at h
  · contradiction
  · rename_i pc hpc
    exact ⟨pc, hpc, (Option.some.inj h).symm⟩

/-- The actions of the reader's task. -/
def Act.reads : Act → Bool
  | .readStart _ _ _ => true
  | .readStep => true
  | .readTimeout => true
  | _ => false

/-- The actions of the writer's task. -/
def Act.writes : Act → Bool
  | .writeStart _ _ => true
  | .writeStep => true
  | .writeTimeout => true
  | _ => false

/-- A call is moved by its own task only. -/
theorem sysStep_calls {s t : Sys} {a : Act} (h : sysStep s a = some t) :
    (a.reads = false → t.reader = s.reader) ∧
      (a.writes = false → t.writer = s.writer) := by
  cases a with
  | readStep =>
      obtain ⟨rb, c, out, -, rfl⟩ := sysStep_readNext h
      exact ⟨nofun, fun _ => rfl⟩
  | writeStep =>
      obtain ⟨rb, c, bytes, -, rfl⟩ := sysStep_writeNext h
      exact ⟨fun _ => rfl, nofun⟩
  | ctlStep i =>
      obtain ⟨pc, -, rfl⟩ := sysStep_ctlStep h
      exact ⟨fun _ => rfl, fun _ => rfl⟩
  | ctlStart c =>
      obtain rfl := Option.some.inj h
      exact ⟨fun _ => rfl, fun _ => rfl⟩
  | _ =>
      simp only [sysStep, Option.ite_none_right_eq_some] at h
      obtain rfl := Option.some.inj h.2
      refine ⟨fun hno => ?_, fun hno => ?_⟩ <;> first | rfl | contradiction

/-- Whatever control calls remain after a statement were there before it, or
are what the statement leaves of its own call. -/
theorem mem_ctls_ctlStep {s : Sys} {i : Nat} {pc q : CtlPc}
    (hq : q ∈ (match (ctlNext s.rb pc).2 with
      | some next => s.ctls.set i next
      | none => s.ctls.eraseIdx i)) :
    q ∈ s.ctls ∨ (ctlNext s.rb pc).2 = some q := by
  split at hq
  · rename_i next hnext
    rcases List.mem_or_eq_of_mem_set hq with h | h
    · exact .inl h
    · exact .inr (by rw [hnext, h])
  · exact .inl (List.mem_of_mem_eraseIdx hq)

/-- Every action keeps the ring well formed. -/
theorem sysStep_wf {s t : Sys} {a : Act} (hwf : s.rb.WF)
    (h : sysStep s a = some t) : t.rb.WF ∧ t.rb.size = s.rb.size := by
  cases a with
  | readStep =>
      obtain ⟨rb, c, out, hm, rfl⟩ := sysStep_readStep hwf h
      exact ⟨hm.wf hwf, hm.size⟩
  | writeStep =>
      obtain ⟨rb, c, bytes, hm, rfl⟩ := sysStep_writeStep hwf h
      exact ⟨hm.wf hwf, hm.size⟩
  | ctlStep i =>
      obtain ⟨pc, -, rfl⟩ := sysStep_ctlStep h
      have hsame := ctlNext_sameBytes s.rb pc
      exact ⟨hsame.wf hwf, hsame.size⟩
  | ctlStart c =>
      obtain rfl := Option.some.inj h
      exact ⟨hwf, rfl⟩
  | readStart buf bufLen ticks =>
      simp only [sysStep, Option.ite_none_right_eq_some] at h
      obtain ⟨-, h⟩ := h
      obtain rfl := Option.some.inj h
      exact ⟨hwf, rfl⟩
  | readTimeout =>
      simp only [sysStep, Option.ite_none_right_eq_some] at h
      obtain ⟨-, h⟩ := h
      obtain rfl := Option.some.inj h
      exact ⟨hwf, rfl⟩
  | writeStart buf ticks =>
      simp only [sysStep, Option.ite_none_right_eq_some] at h
      obtain ⟨-, h⟩ := h
      obtain rfl := Option.some.inj h
      exact ⟨hwf, rfl⟩
  | writeTimeout =>
      simp only [sysStep, Option.ite_none_right_eq_some] at h
      obtain ⟨-, h⟩ := h
      obtain rfl := Option.some.inj h
      exact ⟨hwf, rfl⟩

end EspAdf.Ports.RingBufTasks
