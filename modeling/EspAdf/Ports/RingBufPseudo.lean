import EspAdf.Ports.RingBufTasks

/-!
# Is a pseudo read a read that copies nothing?

`rb_read` with `buf == NULL` is meant to advance the pointers only.  It tests
`buf` before every copy, but it also advances `buf` by what it has read.  So
when the first round does not serve the whole request and the reader finds
more later, `buf` is no longer NULL, and the bytes are copied to an address
that is the number of bytes read so far.

Here `buf` is an address.  `pseudo_read_iff` proves that for every schedule of
the other tasks a pseudo read leaves the ring as a real one does and returns
the same, and that it copies nothing exactly when it reads in one round.
-/

namespace EspAdf.Ports.RingBufPseudo

open EspAdf.Verified
open EspAdf.Ports.RingBuf
open EspAdf.Ports.RingBufTasks

/-! ## One call of `rb_read` -/

/-- A call of `rb_read` among the other tasks. -/
structure PtrSys where
  sys : Sys
  /-- `buf`; NULL is 0. -/
  buf : Nat
  /-- History: where `memcpy` has stored what. -/
  copies : List (Nat × List Byte)
  deriving DecidableEq, Repr

/-- `rb_read(rb, buf, bufLen, ticks)` is called. -/
def Sys.callRead (s : RingBufTasks.Sys) (buf bufLen : Nat) (ticks : Ticks) :
    PtrSys :=
  ⟨{ s with reader := .start (decide (buf ≠ 0)) bufLen ticks }, buf, []⟩

/-- The call as it tests `buf`. -/
def PtrSys.reader (s : PtrSys) : ReadCall :=
  { s.sys.reader with buf := decide (s.buf ≠ 0) }

def ptrStep (s : PtrSys) : Act → Option PtrSys
  | .readStart _ _ _ => none
  | .readStep => do
      let (rb, c, out) ← readNext s.sys.rb s.reader
      let n := c.totalReadSize - s.sys.reader.totalReadSize
      some
        { sys := { s.sys with
            rb := rb, reader := c, delivered := s.sys.delivered ++ out }
          buf := s.buf + n
          copies := if n ≠ 0 ∧ s.buf ≠ 0 then s.copies ++ [(s.buf, out)]
            else s.copies }
  | a => (sysStep s.sys a).map fun t => { s with sys := t }

def ptrMachine : Machine PtrSys Act := ⟨ptrStep⟩

/-! ## The property and the condition -/

/-- `s` copied nothing, and is otherwise like `t`. -/
def PseudoRead (s t : PtrSys) : Prop :=
  s.copies = [] ∧ s.sys.rb = t.sys.rb ∧ s.sys.reader.pc = t.sys.reader.pc ∧
    s.sys.reader.result = t.sys.reader.result

/-- The condition on a step: a call that has read something finds nothing more
to read. -/
def OneRound (s : PtrSys) : Act → Prop
  | .readStep => s.sys.reader.pc = .takeLock →
      0 < s.sys.reader.totalReadSize →
        readSize s.sys.rb s.sys.reader.bufLen = 0
  | _ => True

instance (s : PtrSys) (a : Act) : Decidable (OneRound s a) :=
  match a with
  | .readStep => inferInstanceAs (Decidable (_ → _))
  | .readStart _ _ _ => inferInstanceAs (Decidable True)
  | .readTimeout => inferInstanceAs (Decidable True)
  | .writeStart _ _ => inferInstanceAs (Decidable True)
  | .writeStep => inferInstanceAs (Decidable True)
  | .writeTimeout => inferInstanceAs (Decidable True)
  | .ctlStart _ => inferInstanceAs (Decidable True)
  | .ctlStep _ => inferInstanceAs (Decidable True)

/-! ## Reading with and without a destination -/

/-- Where a copy leaves `p_r` does not depend on the destination. -/
theorem readCopy_ring {rb rb' : Ringbuf} {buf : Bool} {n : Nat}
    {out : List Byte} (h : readCopy rb buf n = some (rb', out)) :
    rb' = { rb with pR := if rb.pR + n > rb.size then n - (rb.size - rb.pR)
      else rb.pR + n } := by
  unfold readCopy at h
  by_cases hwrap : rb.pR + n > rb.size <;> cases buf <;>
    simp [hwrap, Option.bind_eq_some_iff] at h ⊢ <;> grind

/-- The locked section of a read does the same to the ring with another
`buf`. -/
theorem readSection_ring {rb rb' : Ringbuf} {buf : Bool} {bufLen n : Nat}
    {out : List Byte} (hwf : rb.WF)
    (h : readSection rb buf bufLen = some (rb', n, out)) (buf' : Bool) :
    ∃ out', readSection rb buf' bufLen = some (rb', n, out') := by
  obtain ⟨rb₂, hsec, -⟩ := readSection_spec hwf buf' bufLen
  have hn : n = readSize rb bufLen ∧ rb₂ = rb' := by
    unfold readSection at h hsec
    by_cases hz : readSize rb bufLen = 0
    · simp only [if_pos hz, Option.some.injEq, Prod.mk.injEq] at h hsec
      exact ⟨h.2.1.symm.trans hz.symm, hsec.1.symm.trans h.1⟩
    · simp only [if_neg hz, Option.bind_eq_bind, Option.bind_eq_some_iff,
        Option.some.injEq, Prod.mk.injEq, Prod.exists] at h hsec
      obtain ⟨r₁, o₁, hcopy₁, rfl, rfl, -⟩ := h
      obtain ⟨r₂, o₂, hcopy₂, rfl, -⟩ := hsec
      have hr : r₂ = r₁ := by
        rw [readCopy_ring hcopy₁, readCopy_ring hcopy₂]
      exact ⟨rfl, by rw [hr]⟩
  rw [hn.1, ← hn.2]
  exact ⟨_, hsec⟩

/-- So does every action of a call. -/
theorem readNext_ring {rb rb' : Ringbuf} {c c' : ReadCall} {out : List Byte}
    (hwf : rb.WF) (h : readNext rb c = some (rb', c', out)) (buf : Bool) :
    ∃ out', readNext rb { c with buf := buf } =
      some (rb', { c' with buf := buf }, out') := by
  by_cases hpc : c.pc = .takeLock
  · simp only [readNext, hpc, Option.bind_eq_bind, Option.bind_eq_some_iff,
      Prod.exists] at h ⊢
    obtain ⟨r, n, o, hsec, hrest⟩ := h
    obtain ⟨o', hsec'⟩ := readSection_ring hwf hsec buf
    refine ⟨o', r, n, o', hsec', ?_⟩
    by_cases hz : n = 0
    · rw [if_pos hz, Option.some.injEq, Prod.mk.injEq, Prod.mk.injEq] at hrest
      obtain ⟨rfl, rfl, -⟩ := hrest
      rw [if_pos hz]
    · rw [if_neg hz, Option.some.injEq, Prod.mk.injEq, Prod.mk.injEq] at hrest
      obtain ⟨rfl, rfl, -⟩ := hrest
      rw [if_neg hz]
  · -- The other actions do not look at `buf`.
    have hmove := readNext_unlocked hpc h
    cases hmove <;> simp_all [readNext]

/-! ## The two runs side by side -/

/-- Two systems that differ in the reader's destination and in what it
received only. -/
structure Alike (s t : RingBufTasks.Sys) : Prop where
  wf : s.rb.WF
  rb : t.rb = s.rb
  reader : t.reader = { s.reader with buf := t.reader.buf }
  writer : t.writer = s.writer
  ctls : t.ctls = s.ctls

/-- The reader's actions keep two systems alike. -/
theorem ptrStep_alike_readStep {s t s' : PtrSys} (h : Alike s.sys t.sys)
    (hs : ptrStep s .readStep = some s') :
    ∃ t', ptrStep t .readStep = some t' ∧ Alike s'.sys t'.sys := by
  simp only [ptrStep, Option.bind_eq_bind, Option.bind_eq_some_iff,
    Option.some.injEq, Prod.exists] at hs
  obtain ⟨rb, c, out, hn, rfl⟩ := hs
  obtain ⟨out', hn'⟩ := readNext_ring h.wf hn (decide (t.buf ≠ 0))
  have hcall : t.reader = { s.reader with buf := decide (t.buf ≠ 0) } := by
    unfold PtrSys.reader
    rw [h.reader]
  simp only [ptrStep, h.rb, hcall, hn', Option.bind_eq_bind, Option.bind_some]
  exact ⟨_, rfl, (readNext_move h.wf hn).wf h.wf, rfl, rfl, h.writer, h.ctls⟩

/-- So do the actions of the other tasks and the reader's timeout. -/
theorem sysStep_alike {s t s' : RingBufTasks.Sys} {a : Act} (h : Alike s t)
    (hstart : ∀ buf n ticks, a ≠ .readStart buf n ticks)
    (hread : a ≠ .readStep) (hs : sysStep s a = some s') :
    ∃ t', sysStep t a = some t' ∧ Alike s' t' := by
  have hwf := (sysStep_wf h.wf hs).1
  obtain ⟨-, hrb, hreader, hwriter, hctls⟩ := h
  have hpc : t.reader.pc = s.reader.pc := by rw [hreader]
  have hticks : t.reader.ticks = s.reader.ticks := by rw [hreader]
  cases a with
  | readStart buf n ticks => exact absurd rfl (hstart buf n ticks)
  | readStep => exact absurd rfl hread
  | readTimeout =>
      simp only [sysStep, hpc, hticks, hrb] at hs ⊢
      split at hs
      · rename_i hcond
        obtain rfl := Option.some.inj hs
        rw [if_pos hcond]
        exact ⟨_, rfl, hwf, rfl, by rw [hreader], hwriter, hctls⟩
      · contradiction
  | writeStart buf ticks =>
      simp only [sysStep, hwriter] at hs ⊢
      split at hs
      · rename_i hcond
        obtain rfl := Option.some.inj hs
        rw [if_pos hcond]
        exact ⟨_, rfl, hwf, hrb, hreader, rfl, hctls⟩
      · contradiction
  | writeStep =>
      simp only [sysStep, hwriter, hrb, Option.bind_eq_bind,
        Option.bind_eq_some_iff, Option.some.injEq, Prod.exists] at hs ⊢
      obtain ⟨rb, c, bytes, hn, rfl⟩ := hs
      exact ⟨_, ⟨rb, c, bytes, hn, rfl⟩, hwf, rfl, hreader, rfl, hctls⟩
  | writeTimeout =>
      simp only [sysStep, hwriter, hrb] at hs ⊢
      split at hs
      · rename_i hcond
        obtain rfl := Option.some.inj hs
        rw [if_pos hcond]
        exact ⟨_, rfl, hwf, rfl, hreader, rfl, hctls⟩
      · contradiction
  | ctlStart c =>
      obtain rfl := Option.some.inj hs
      exact ⟨_, rfl, hwf, hrb, hreader, hwriter, by rw [hctls]⟩
  | ctlStep i =>
      simp only [sysStep, hctls, hrb] at hs ⊢
      split at hs
      · contradiction
      · obtain rfl := Option.some.inj hs
        exact ⟨_, rfl, hwf, rfl, hreader, hwriter, rfl⟩

/-- The other tasks add nothing to what the call has read. -/
theorem sysStep_total {s t : RingBufTasks.Sys} {a : Act}
    (hstart : ∀ buf n ticks, a ≠ .readStart buf n ticks)
    (hread : a ≠ .readStep) (hs : sysStep s a = some t) :
    t.reader.totalReadSize = s.reader.totalReadSize := by
  cases a with
  | readStart buf n ticks => exact absurd rfl (hstart buf n ticks)
  | readStep => exact absurd rfl hread
  | readTimeout =>
      obtain ⟨-, hs⟩ := Option.ite_none_right_eq_some.1 hs
      obtain rfl := Option.some.inj hs
      rfl
  | writeStart buf ticks =>
      obtain ⟨-, hs⟩ := Option.ite_none_right_eq_some.1 hs
      obtain rfl := Option.some.inj hs
      rfl
  | writeStep =>
      obtain ⟨rb, c, bytes, -, rfl⟩ := sysStep_writeNext hs
      rfl
  | writeTimeout =>
      obtain ⟨-, hs⟩ := Option.ite_none_right_eq_some.1 hs
      obtain rfl := Option.some.inj hs
      rfl
  | ctlStart c =>
      obtain rfl := Option.some.inj hs
      rfl
  | ctlStep i =>
      obtain ⟨pc, -, rfl⟩ := sysStep_ctlStep hs
      rfl

/-- What the other tasks do, `buf` does not see. -/
theorem ptrStep_other {a : Act}
    (hstart : ∀ buf n ticks, a ≠ .readStart buf n ticks)
    (hread : a ≠ .readStep) (s : PtrSys) :
    ptrStep s a = (sysStep s.sys a).map fun t => { s with sys := t } := by
  cases a with
  | readStart buf n ticks => exact absurd rfl (hstart buf n ticks)
  | readStep => exact absurd rfl hread
  | _ => rfl

theorem ptrStep_not_readStart {s s' : PtrSys} {a : Act}
    (hs : ptrStep s a = some s') (buf : Bool) (n : Nat) (ticks : Ticks) :
    a ≠ .readStart buf n ticks := by
  rintro rfl
  contradiction

theorem ptrStep_alike {s t s' : PtrSys} {a : Act} (h : Alike s.sys t.sys)
    (hs : ptrMachine.step s a = some s') :
    ∃ t', ptrMachine.step t a = some t' ∧ Alike s'.sys t'.sys := by
  change ptrStep s a = some s' at hs
  by_cases hread : a = .readStep
  · subst hread
    exact ptrStep_alike_readStep h hs
  · have hstart := ptrStep_not_readStart hs
    rw [ptrStep_other hstart hread, Option.map_eq_some_iff] at hs
    obtain ⟨v, hv, rfl⟩ := hs
    obtain ⟨w, hw, hvw⟩ := sysStep_alike h hstart hread hv
    refine ⟨{ t with sys := w }, ?_, hvw⟩
    show ptrStep t a = _
    rw [ptrStep_other hstart hread, hw]
    rfl

/-! ## What a pseudo read copies -/

/-- `buf` is what the call has read so far, and the schedule has kept to one
round as long as nothing is copied. -/
structure PseudoInv (s : PtrSys) (as : List Act) (t : PtrSys) : Prop where
  wf : t.sys.rb.WF
  buf : t.buf = t.sys.reader.totalReadSize
  copies : t.copies = [] ↔ ptrMachine.Meets OneRound s as

/-- Only the locked section adds to what a call has read. -/
theorem readMove_total {rb rb' : Ringbuf} {c c' : ReadCall} {out : List Byte}
    (h : ReadMove rb c rb' c' out) :
    c'.totalReadSize - c.totalReadSize =
        (if c.pc = .takeLock then readSize rb c.bufLen else 0) ∧
      c.totalReadSize ≤ c'.totalReadSize := by
  cases h <;> simp_all

/-- A call that has read something stores what it reads next. -/
theorem readStep_copies {s s' : PtrSys} (hwf : s.sys.rb.WF)
    (hbuf : s.buf = s.sys.reader.totalReadSize)
    (hs : ptrStep s .readStep = some s') :
    s'.sys.rb.WF ∧ s'.buf = s'.sys.reader.totalReadSize ∧
      (s'.copies = [] ↔ s.copies = [] ∧ OneRound s .readStep) := by
  simp only [ptrStep, Option.bind_eq_bind, Option.bind_eq_some_iff,
    Option.some.injEq, Prod.exists] at hs
  obtain ⟨rb, c, out, hn, rfl⟩ := hs
  have hmove := readNext_move hwf hn
  obtain ⟨htotal, hle⟩ := readMove_total hmove
  have hsame : s.reader.totalReadSize = s.sys.reader.totalReadSize := rfl
  rw [hsame] at htotal hle
  refine ⟨hmove.wf hwf, ?_, ?_⟩
  · show s.buf + (c.totalReadSize - s.sys.reader.totalReadSize) =
      c.totalReadSize
    omega
  · have hcopied : (c.totalReadSize - s.sys.reader.totalReadSize ≠ 0 ∧
        s.buf ≠ 0) ↔ ¬OneRound s .readStep := by
      rw [htotal, hbuf, OneRound]
      simp only [PtrSys.reader]
      by_cases hpc : s.sys.reader.pc = .takeLock <;> simp [hpc]
      omega
    show (if _ then _ else _) = [] ↔ _
    by_cases hone : OneRound s .readStep
    · rw [if_neg fun h => hcopied.1 h hone]
      exact (and_iff_left hone).symm
    · rw [if_pos (hcopied.2 hone)]
      simp [hone]

theorem PseudoInv.step {s t u : PtrSys} {as : List Act} {a : Act}
    (hrun : ptrMachine.run s as = some t) (h : PseudoInv s as t)
    (hs : ptrMachine.step t a = some u) : PseudoInv s (as ++ [a]) u := by
  change ptrStep t a = some u at hs
  have hmeets : ptrMachine.Meets OneRound s (as ++ [a]) ↔
      ptrMachine.Meets OneRound s as ∧ OneRound t a :=
    Machine.meets_concat hrun a
  by_cases hread : a = .readStep
  · subst hread
    obtain ⟨hwf, hbuf, hcopies⟩ := readStep_copies h.wf h.buf hs
    exact ⟨hwf, hbuf, by rw [hcopies, h.copies, hmeets]⟩
  · have hstart := ptrStep_not_readStart hs
    rw [ptrStep_other hstart hread, Option.map_eq_some_iff] at hs
    obtain ⟨v, hv, rfl⟩ := hs
    have hone : OneRound t a := by
      cases a with
      | readStep => exact absurd rfl hread
      | _ => trivial
    refine ⟨(sysStep_wf h.wf hv).1, ?_, ?_⟩
    · show t.buf = v.reader.totalReadSize
      rw [h.buf, sysStep_total hstart hread hv]
    · rw [hmeets, ← h.copies]
      exact (and_iff_left hone).symm

/-- For every schedule, a read without a destination and one with a destination
`p` do the same to the ring and return the same; the former copies nothing
exactly when it reads in one round. -/
theorem pseudo_read_iff {s : RingBufTasks.Sys} (hwf : s.rb.WF) (n : Nat)
    (ticks : Ticks) (p : Nat) {as : List Act} {t : PtrSys}
    (h : ptrMachine.run (Sys.callRead s 0 n ticks) as = some t) :
    ∃ u, ptrMachine.run (Sys.callRead s p n ticks) as = some u ∧
      (PseudoRead t u ↔
        ptrMachine.Meets OneRound (Sys.callRead s 0 n ticks) as) := by
  have hstart : Alike (Sys.callRead s 0 n ticks).sys
      (Sys.callRead s p n ticks).sys := ⟨hwf, rfl, rfl, rfl, rfl⟩
  obtain ⟨u, hu, halike⟩ := Machine.run_forward
    (R := fun v w : PtrSys => Alike v.sys w.sys)
    (fun v w a v' hvw hs => ptrStep_alike hvw hs) hstart h
  have hinv : PseudoInv (Sys.callRead s 0 n ticks) as t :=
    Machine.run_induction (P := PseudoInv (Sys.callRead s 0 n ticks))
      ⟨hwf, rfl, ⟨fun _ => trivial, fun _ => rfl⟩⟩
      (fun _ _ _ _ hrun hP hs => hP.step hrun hs) h
  refine ⟨u, hu, ?_⟩
  rw [PseudoRead, hinv.copies, halike.rb, halike.reader]
  exact and_iff_left ⟨rfl, rfl, rfl⟩

/-! ## One round and two -/

/-- A ring of eight bytes. -/
def smallRing : Ringbuf := (rbCreate 8 1 true).get rfl

theorem smallRing_wf : smallRing.WF :=
  (rbCreate_wf (by decide) (by decide) (Option.some_get rfl).symm).1

/-- A write of `bytes` and its steps. -/
def writes (bytes : List Byte) (steps : Nat) : List Act :=
  .writeStart bytes .maxDelay :: List.replicate steps .writeStep

/-- All eight bytes are there when the read looks. -/
theorem pseudo_read_one_round : ∃ t u,
    ptrMachine.run (Sys.callRead (.start smallRing) 0 8 .finite)
      (writes [1, 2, 3, 4, 5, 6, 7, 8] 2 ++ List.replicate 3 .readStep) =
        some t ∧
    ptrMachine.run (Sys.callRead (.start smallRing) 256 8 .finite)
      (writes [1, 2, 3, 4, 5, 6, 7, 8] 2 ++ List.replicate 3 .readStep) =
        some u ∧ PseudoRead t u := by
  have h : (ptrMachine.runIf OneRound
      (Sys.callRead (.start smallRing) 0 8 .finite)
      (writes [1, 2, 3, 4, 5, 6, 7, 8] 2 ++
        List.replicate 3 .readStep)).isSome := by
    decide +kernel
  obtain ⟨t, ht⟩ := Option.isSome_iff_exists.1 h
  obtain ⟨hrun, hmeets⟩ := Machine.meets_of_runIf ht
  obtain ⟨u, hu, hiff⟩ :=
    pseudo_read_iff (s := .start smallRing) smallRing_wf 8 .finite 256 hrun
  exact ⟨t, u, hrun, hu, hiff.2 hmeets⟩

/-- Four more bytes come after the first round, and go to address 4. -/
theorem pseudo_read_two_rounds : ∃ t u,
    ptrMachine.run (Sys.callRead (.start smallRing) 0 8 .finite)
      (writes [1, 2, 3, 4] 2 ++ [.readStep] ++ writes [5, 6, 7, 8] 2 ++
        List.replicate 3 .readStep) = some t ∧
    ptrMachine.run (Sys.callRead (.start smallRing) 256 8 .finite)
      (writes [1, 2, 3, 4] 2 ++ [.readStep] ++ writes [5, 6, 7, 8] 2 ++
        List.replicate 3 .readStep) = some u ∧
    t.sys.reader.result = 8 ∧ u.sys.reader.result = 8 ∧
    t.copies = [(4, [5, 6, 7, 8])] ∧ ¬PseudoRead t u := by
  have h : ((ptrMachine.run (Sys.callRead (.start smallRing) 0 8 .finite)
      (writes [1, 2, 3, 4] 2 ++ [.readStep] ++ writes [5, 6, 7, 8] 2 ++
        List.replicate 3 .readStep)).map
      fun t => (t.sys.reader.result, t.copies)) =
      some (8, [(4, [5, 6, 7, 8])]) := by
    decide +kernel
  have h' : ((ptrMachine.run (Sys.callRead (.start smallRing) 256 8 .finite)
      (writes [1, 2, 3, 4] 2 ++ [.readStep] ++ writes [5, 6, 7, 8] 2 ++
        List.replicate 3 .readStep)).map
      fun u => u.sys.reader.result) = some 8 := by
    decide +kernel
  simp only [Option.map_eq_some_iff, Prod.mk.injEq] at h h'
  obtain ⟨t, ht, htres, hcopies⟩ := h
  obtain ⟨u, hu, hures⟩ := h'
  refine ⟨t, u, ht, hu, htres, hures, hcopies, ?_⟩
  rintro ⟨hnone, -⟩
  rw [hcopies] at hnone
  contradiction

end EspAdf.Ports.RingBufPseudo
