import EspAdf.Ports.RingBufLock

/-!
# No wake-up is lost

A control call sets a flag and then gives the semaphore; the call it is meant
for tests the flags, outside the lock, and then takes the semaphore.  The
semaphores are binary, so a give may merge with an older one.

`Wakes` is what holds for each flag all the same: if it is set and the call
has passed its test, there is a token to take, or the control call that set
it has its give still before it.  A token that is taken sends the call back
to the tests.  `no_lost_wakeup` reads it off when no control call is in
progress, for every interleaving of the single accesses of all tasks, the
broken lock of `RingBufLock` included.
-/

namespace EspAdf.Ports.RingBufWakeup

open EspAdf.Verified
open EspAdf.Ports.RingBuf
open EspAdf.Ports.RingBufTasks
open EspAdf.Ports.RingBufLock

/-- A flag that was passed unset and is set now has a token, or a give to
come. -/
def Wakes (flag : Bool) (passed : Prop) (token : Bool) (toCome : Prop) :
    Prop :=
  flag = true → passed → token = true ∨ toCome

section Wakes

variable {flag token : Bool} {passed passed' toCome toCome' : Prop}

theorem Wakes.of_unset (h : flag = false) : Wakes flag passed token toCome :=
  fun hset => absurd hset (by simp [h])

theorem Wakes.of_token (h : token = true) : Wakes flag passed token toCome :=
  fun _ _ => .inl h

theorem Wakes.of_toCome (h : toCome) : Wakes flag passed token toCome :=
  fun _ _ => .inr h

theorem Wakes.of_unpassed (h : ¬passed) : Wakes flag passed token toCome :=
  fun _ hpassed => absurd hpassed h

theorem Wakes.mono (h : Wakes flag passed token toCome)
    (hpassed : passed' → passed) (htoCome : toCome → toCome') :
    Wakes flag passed' token toCome' := by
  intro hset hp
  rcases h hset (hpassed hp) with htoken | hc
  · exact .inl htoken
  · exact .inr (htoCome hc)

/-- Only the give to come may change. -/
theorem Wakes.kept (h : Wakes flag passed token toCome)
    (htoCome : toCome → toCome') : Wakes flag passed token toCome' :=
  h.mono id htoCome

end Wakes

/-- The reader's call has tested `is_done_write` since it last looked at the
ring. -/
def PassedDone (c : ReadCall) : Prop :=
  c.pc = .testAbort ∨ c.pc = .testUnblock ∨ c.pc = .takeCanRead

/-- It has tested `abort_read` as well. -/
def PassedAbort (c : ReadCall) : Prop :=
  c.pc = .testUnblock ∨ c.pc = .takeCanRead

structure Inv (s : Sys) : Prop where
  done : Wakes s.rb.isDoneWrite (PassedDone s.reader) s.rb.canRead
    (.doneGive ∈ s.ctls)
  abortRead : Wakes s.rb.abortRead (PassedAbort s.reader) s.rb.canRead
    (.abortReadGive ∈ s.ctls)
  unblock : Wakes s.rb.unblockReaderFlag (s.reader.pc = .takeCanRead)
    s.rb.canRead (.unblockGive ∈ s.ctls)
  abortWrite : Wakes s.rb.abortWrite (s.writer.pc = .takeCanWrite)
    s.rb.canWrite (.abortWriteGive ∈ s.ctls)

theorem Inv.start (rb : Ringbuf) : Inv (.start rb) := by
  constructor <;>
    simp [Sys.start, ReadCall.idle, WriteCall.idle, Wakes, PassedDone,
      PassedAbort]

/-- A reader before its tests or behind its loop asks for nothing. -/
theorem Inv.of_unpassed {s : Sys} (hpc : ¬PassedDone s.reader)
    (hwrite : Wakes s.rb.abortWrite (s.writer.pc = .takeCanWrite)
      s.rb.canWrite (.abortWriteGive ∈ s.ctls)) : Inv s where
  done := .of_unpassed hpc
  abortRead := .of_unpassed fun h => hpc (.inr h)
  unblock := .of_unpassed fun h => hpc (.inr (.inr h))
  abortWrite := hwrite

/-! ## Calls -/

/-- An action of the reader's call outside its section.  A test that passes
found its flag unset; every other action leads before the tests or behind the
loop. -/
theorem Inv.readNext {s : Sys} {rb : Ringbuf} {c : ReadCall}
    {out : List Byte} (h : Inv s) (hpc : s.reader.pc ≠ .takeLock)
    (hn : readNext s.rb s.reader = some (rb, c, out)) :
    Inv { s with rb := rb, reader := c, delivered := s.delivered ++ out } := by
  have hmove := readNext_unlocked hpc hn
  cases hmove with
  | nothing hlock hzero => contradiction
  | moved p hlock hpos hwf hcont => contradiction
  | notDone htest hflag =>
      exact
        { done := .of_unset hflag
          abortRead := .of_unpassed (by simp [PassedAbort])
          unblock := .of_unpassed (by simp)
          abortWrite := h.abortWrite }
  | notAbort htest hflag =>
      have hdone : PassedDone s.reader := .inl htest
      exact
        { done := h.done.mono (fun _ => hdone) id
          abortRead := .of_unset hflag
          unblock := .of_unpassed (by simp)
          abortWrite := h.abortWrite }
  | notUnblock htest hflag =>
      have habort : PassedAbort s.reader := .inl htest
      have hdone : PassedDone s.reader := .inr habort
      exact
        { done := h.done.mono (fun _ => hdone) id
          abortRead := h.abortRead.mono (fun _ => habort) id
          unblock := .of_unset hflag
          abortWrite := h.abortWrite }
  | gave htest hpos =>
      exact .of_unpassed (by simp [PassedDone]) (.of_token rfl)
  | _ => exact .of_unpassed (by simp [PassedDone]) h.abortWrite

/-- An action of the writer's call outside its section. -/
theorem Inv.writeNext {s : Sys} {rb : Ringbuf} {c : WriteCall}
    {bytes : List Byte} (h : Inv s) (hpc : s.writer.pc ≠ .takeLock)
    (hn : writeNext s.rb s.writer = some (rb, c, bytes)) :
    Inv { s with rb := rb, writer := c, accepted := s.accepted ++ bytes } := by
  have hmove := writeNext_unlocked hpc hn
  cases hmove with
  | nothing hlock hzero => contradiction
  | moved n mem p hlock hn hpos hwf hcont => contradiction
  | notAbort htest hflag =>
      exact ⟨h.done, h.abortRead, h.unblock, .of_unset hflag⟩
  | gave htest hpos =>
      exact
        { done := .of_token rfl
          abortRead := .of_token rfl
          unblock := .of_token rfl
          abortWrite := .of_unpassed (by simp) }
  | _ => exact ⟨h.done, h.abortRead, h.unblock, .of_unpassed (by simp)⟩

/-! ## Control calls -/

/-- What the other control calls have before them stays. -/
theorem mem_ctls_of_ne {l : List CtlPc} {i : Nat} {pc q : CtlPc}
    (hpc : l[i]? = some pc) (hq : q ∈ l) (hne : q ≠ pc)
    (rest : Option CtlPc) : q ∈ (match rest with
      | some next => l.set i next
      | none => l.eraseIdx i) := by
  rcases List.mem_iff_getElem?.1 hq with ⟨j, hj⟩
  have hji : j ≠ i := by
    rintro rfl
    exact hne (Option.some.inj (hj.symm.trans hpc))
  cases rest with
  | some next =>
      apply List.mem_of_getElem? (i := j)
      rw [List.getElem?_set_ne (Ne.symm hji)]
      exact hj
  | none =>
      exact List.mem_eraseIdx_iff_getElem?.2 ⟨j, hji, hj⟩

/-- What a statement leaves of its own call is in progress. -/
theorem mem_ctls_next {l : List CtlPc} {i : Nat} {pc q : CtlPc}
    (hpc : l[i]? = some pc) : q ∈ l.set i q := by
  exact List.mem_set (List.getElem?_eq_some_iff.1 hpc).1 q

/-- A statement that raises a flag has its give next; a give puts a token. -/
theorem Inv.ctlStep {s t : Sys} {i : Nat} (h : Inv s)
    (hs : sysStep s (.ctlStep i) = some t) : Inv t := by
  rcases sysStep_ctlStep hs with ⟨pc, hpc, rfl⟩
  have hother : ∀ q, q ≠ pc → q ∈ s.ctls →
      q ∈ (match (ctlNext s.rb pc).2 with
        | some next => s.ctls.set i next
        | none => s.ctls.eraseIdx i) := by
    intro q hne hq
    exact mem_ctls_of_ne hpc hq hne _
  cases pc with
  | abortReadFlag =>
      exact
        { done := h.done.kept (hother _ (by decide))
          abortRead := .of_toCome (mem_ctls_next hpc)
          unblock := h.unblock.kept (hother _ (by decide))
          abortWrite := h.abortWrite.kept (hother _ (by decide)) }
  | abortWriteFlag =>
      exact
        { done := h.done.kept (hother _ (by decide))
          abortRead := h.abortRead.kept (hother _ (by decide))
          unblock := h.unblock.kept (hother _ (by decide))
          abortWrite := .of_toCome (mem_ctls_next hpc) }
  | doneFlag =>
      exact
        { done := .of_toCome (mem_ctls_next hpc)
          abortRead := h.abortRead.kept (hother _ (by decide))
          unblock := h.unblock.kept (hother _ (by decide))
          abortWrite := h.abortWrite.kept (hother _ (by decide)) }
  | unblockFlag =>
      exact
        { done := h.done.kept (hother _ (by decide))
          abortRead := h.abortRead.kept (hother _ (by decide))
          unblock := .of_toCome (mem_ctls_next hpc)
          abortWrite := h.abortWrite.kept (hother _ (by decide)) }
  | abortWriteGive =>
      exact
        { done := h.done.kept (hother _ (by decide))
          abortRead := h.abortRead.kept (hother _ (by decide))
          unblock := h.unblock.kept (hother _ (by decide))
          abortWrite := .of_token rfl }
  | abortLockGive =>
      exact
        { done := h.done.kept (hother _ (by decide))
          abortRead := h.abortRead.kept (hother _ (by decide))
          unblock := h.unblock.kept (hother _ (by decide))
          abortWrite := h.abortWrite.kept (hother _ (by decide)) }
  | _ =>
      -- The gives of `can_read`.
      exact
        { done := .of_token rfl
          abortRead := .of_token rfl
          unblock := .of_token rfl
          abortWrite := h.abortWrite.kept (hother _ (by decide)) }

/-- Starting a call or a control call, and giving up waiting. -/
theorem Inv.other {s t : Sys} {a : Act} (h : Inv s) (hread : a ≠ .readStep)
    (hwrite : a ≠ .writeStep) (hs : sysStep s a = some t) : Inv t := by
  cases a with
  | readStep => exact absurd rfl hread
  | writeStep => exact absurd rfl hwrite
  | ctlStep i => exact h.ctlStep hs
  | ctlStart c =>
      obtain rfl := Option.some.inj hs
      exact
        { done := h.done.kept (List.mem_append_left _)
          abortRead := h.abortRead.kept (List.mem_append_left _)
          unblock := h.unblock.kept (List.mem_append_left _)
          abortWrite := h.abortWrite.kept (List.mem_append_left _) }
  | readStart buf bufLen ticks =>
      simp only [sysStep, Option.ite_none_right_eq_some] at hs
      obtain rfl := Option.some.inj hs.2
      refine .of_unpassed ?_ h.abortWrite
      by_cases hlen : bufLen = 0 <;> simp [PassedDone, ReadCall.start, hlen]
  | readTimeout =>
      simp only [sysStep, Option.ite_none_right_eq_some] at hs
      obtain rfl := Option.some.inj hs.2
      exact .of_unpassed (by simp [PassedDone]) h.abortWrite
  | writeStart buf ticks =>
      simp only [sysStep, Option.ite_none_right_eq_some] at hs
      obtain rfl := Option.some.inj hs.2
      refine ⟨h.done, h.abortRead, h.unblock, .of_unpassed ?_⟩
      by_cases hlen : buf.length = 0 <;> simp [WriteCall.start, hlen]
  | writeTimeout =>
      simp only [sysStep, Option.ite_none_right_eq_some] at hs
      obtain rfl := Option.some.inj hs.2
      exact ⟨h.done, h.abortRead, h.unblock, .of_unpassed (by simp)⟩

/-! ## Locked sections -/

/-- The flags and semaphores are as before; the bytes and the lock may
differ. -/
structure SameFlags (rb rb' : Ringbuf) : Prop where
  isDoneWrite : rb'.isDoneWrite = rb.isDoneWrite
  abortRead : rb'.abortRead = rb.abortRead
  abortWrite : rb'.abortWrite = rb.abortWrite
  unblock : rb'.unblockReaderFlag = rb.unblockReaderFlag
  canRead : rb'.canRead = rb.canRead
  canWrite : rb'.canWrite = rb.canWrite

/-- An access inside the reader's section touches no flag, and the call stays
where it is or goes to a place before the tests or behind the loop. -/
theorem readSectNext_flags {rb : Ringbuf} {c : ReadCall} {p : ReadSect}
    {r : SectResult ReadCall ReadSect} (h : readSectNext rb c p = some r) :
    SameFlags rb r.rb ∧ (r.call.pc = c.pc ∨ r.call.pc = .testDone ∨
      r.call.pc = .readErr ∨ r.call.pc = .takeLock) := by
  cases p with
  | copy n =>
      simp only [readSectNext, Option.bind_eq_bind, Option.bind_eq_some_iff]
        at h
      rcases h with ⟨⟨rb', out⟩, hcopy, hr⟩
      rcases readCopy_frame hcopy with ⟨p, rfl⟩
      obtain rfl := Option.some.inj hr
      exact ⟨⟨rfl, rfl, rfl, rfl, rfl, rfl⟩, .inl rfl⟩
  | give =>
      obtain rfl := Option.some.inj h
      refine ⟨⟨rfl, rfl, rfl, rfl, rfl, rfl⟩, ?_⟩
      by_cases hlen : c.bufLen = 0
      · exact .inr (.inr (.inl (if_pos hlen)))
      · exact .inr (.inr (.inr (if_neg hlen)))
  | giveEmpty =>
      obtain rfl := Option.some.inj h
      exact ⟨⟨rfl, rfl, rfl, rfl, rfl, rfl⟩, .inr (.inl rfl)⟩
  | _ =>
      obtain rfl := Option.some.inj h
      exact ⟨⟨rfl, rfl, rfl, rfl, rfl, rfl⟩, .inl rfl⟩

theorem writeSectNext_flags {rb : Ringbuf} {c : WriteCall} {p : WriteSect}
    {r : SectResult WriteCall WriteSect}
    (h : writeSectNext rb c p = some r) :
    SameFlags rb r.rb ∧ (r.call.pc = c.pc ∨ r.call.pc = .testDone ∨
      r.call.pc = .writeErr ∨ r.call.pc = .takeLock) := by
  cases p with
  | loadAvail =>
      simp only [writeSectNext] at h
      split at h
      · obtain rfl := Option.some.inj h
        exact ⟨⟨rfl, rfl, rfl, rfl, rfl, rfl⟩, .inl rfl⟩
      · simp only [Option.ite_none_left_eq_some] at h
        obtain rfl := Option.some.inj h.2
        exact ⟨⟨rfl, rfl, rfl, rfl, rfl, rfl⟩, .inl rfl⟩
  | copy n =>
      simp only [writeSectNext, Option.bind_eq_bind, Option.bind_eq_some_iff]
        at h
      rcases h with ⟨rb', hcopy, hr⟩
      rcases writeCopy_frame hcopy with ⟨mem, p, rfl⟩
      obtain rfl := Option.some.inj hr
      exact ⟨⟨rfl, rfl, rfl, rfl, rfl, rfl⟩, .inl rfl⟩
  | give =>
      obtain rfl := Option.some.inj h
      refine ⟨⟨rfl, rfl, rfl, rfl, rfl, rfl⟩, ?_⟩
      by_cases hlen : c.buf.length = 0
      · exact .inr (.inr (.inl (if_pos hlen)))
      · exact .inr (.inr (.inr (if_neg hlen)))
  | giveFull =>
      obtain rfl := Option.some.inj h
      exact ⟨⟨rfl, rfl, rfl, rfl, rfl, rfl⟩, .inr (.inl rfl)⟩
  | _ =>
      obtain rfl := Option.some.inj h
      exact ⟨⟨rfl, rfl, rfl, rfl, rfl, rfl⟩, .inl rfl⟩

/-- No flag changes and no call passes a test. -/
theorem Inv.of_same {s t : Sys} (h : Inv s) (hrb : SameFlags s.rb t.rb)
    (hctls : t.ctls = s.ctls)
    (hread : t.reader.pc = s.reader.pc ∨ ¬PassedDone t.reader)
    (hwrite : t.writer.pc = s.writer.pc ∨ t.writer.pc ≠ .takeCanWrite) :
    Inv t := by
  have habortWrite : Wakes t.rb.abortWrite (t.writer.pc = .takeCanWrite)
      t.rb.canWrite (.abortWriteGive ∈ t.ctls) := by
    rw [hrb.abortWrite, hrb.canWrite, hctls]
    rcases hwrite with hsame | hpc
    · rw [hsame]
      exact h.abortWrite
    · exact .of_unpassed hpc
  rcases hread with hsame | hpc
  · have hdone : PassedDone t.reader → PassedDone s.reader := by
      rw [PassedDone, hsame]
      exact id
    have habort : PassedAbort t.reader → PassedAbort s.reader := by
      rw [PassedAbort, hsame]
      exact id
    refine ⟨?_, ?_, ?_, habortWrite⟩
    · rw [hrb.isDoneWrite, hrb.canRead, hctls]
      exact h.done.mono hdone id
    · rw [hrb.abortRead, hrb.canRead, hctls]
      exact h.abortRead.mono habort id
    · rw [hrb.unblock, hrb.canRead, hctls, hsame]
      exact h.unblock
  · exact .of_unpassed hpc habortWrite

theorem Inv.readFine {s t : Fine} (h : Inv s.sys)
    (hs : readFine s = some t) : Inv t.sys := by
  unfold RingBufLock.readFine at hs
  cases hin : s.readIn with
  | some p =>
      simp only [hin, Option.bind_eq_bind, Option.bind_eq_some_iff] at hs
      rcases hs with ⟨r, hr, hs⟩
      obtain rfl := Option.some.inj hs
      rcases readSectNext_flags hr with ⟨hflags, hpc⟩
      refine h.of_same hflags rfl ?_ (.inl rfl)
      rcases hpc with hpc | hpc | hpc | hpc
      · exact .inl hpc
      all_goals
        right
        simp [PassedDone, hpc]
  | none =>
      simp only [hin] at hs
      by_cases hpc : s.sys.reader.pc = .takeLock
      · simp only [if_pos hpc, Option.ite_none_right_eq_some] at hs
        rcases hs with ⟨-, hs⟩
        obtain rfl := Option.some.inj hs
        exact h.of_same ⟨rfl, rfl, rfl, rfl, rfl, rfl⟩ rfl (.inl rfl)
          (.inl rfl)
      · simp only [if_neg hpc, Option.map_eq_some_iff] at hs
        rcases hs with ⟨u, hu, rfl⟩
        rcases sysStep_readNext hu with ⟨rb, c, out, hn, rfl⟩
        exact h.readNext hpc hn

theorem Inv.writeFine {s t : Fine} (h : Inv s.sys)
    (hs : writeFine s = some t) : Inv t.sys := by
  unfold RingBufLock.writeFine at hs
  cases hin : s.writeIn with
  | some p =>
      simp only [hin, Option.bind_eq_bind, Option.bind_eq_some_iff] at hs
      rcases hs with ⟨r, hr, hs⟩
      obtain rfl := Option.some.inj hs
      rcases writeSectNext_flags hr with ⟨hflags, hpc⟩
      refine h.of_same hflags rfl (.inl rfl) ?_
      rcases hpc with hpc | hpc | hpc | hpc
      · exact .inl hpc
      all_goals
        right
        simp [hpc]
  | none =>
      simp only [hin] at hs
      by_cases hpc : s.sys.writer.pc = .takeLock
      · simp only [if_pos hpc, Option.ite_none_right_eq_some] at hs
        rcases hs with ⟨-, hs⟩
        obtain rfl := Option.some.inj hs
        exact h.of_same ⟨rfl, rfl, rfl, rfl, rfl, rfl⟩ rfl (.inl rfl)
          (.inl rfl)
      · simp only [if_neg hpc, Option.map_eq_some_iff] at hs
        rcases hs with ⟨u, hu, rfl⟩
        rcases sysStep_writeNext hu with ⟨rb, c, bytes, hn, rfl⟩
        exact h.writeNext hpc hn

/-- **One action** of any task other than a reset keeps the invariant. -/
theorem Inv.step {s t : Fine} {a : FineAct} (h : Inv s.sys)
    (ha : a ≠ .reset) (hs : fineStep s a = some t) : Inv t.sys := by
  cases a with
  | reset => exact absurd rfl ha
  | call a =>
      by_cases hread : a = .readStep
      · subst hread
        exact h.readFine hs
      by_cases hwrite : a = .writeStep
      · subst hwrite
        exact h.writeFine hs
      have hsys : ∃ u, sysStep s.sys a = some u ∧ t = { s with sys := u } := by
        cases a with
        | readStep => exact absurd rfl hread
        | writeStep => exact absurd rfl hwrite
        | _ =>
            simp only [fineStep, Option.map_eq_some_iff] at hs
            rcases hs with ⟨u, hu, rfl⟩
            exact ⟨u, hu, rfl⟩
      rcases hsys with ⟨u, hu, rfl⟩
      exact h.other hread hwrite hu

/-! ## The result -/

/-- **No lost wake-up**, in every run without a reset: when no control call
is in progress, a reader that is blocked on an empty `can_read` has none of
its flags set, and a writer that is blocked on an empty `can_write` is not
told to abort. -/
theorem no_lost_wakeup {rb : Ringbuf} {s : Fine}
    (hrun : fineMachine.Reaches (fun _ a => a ≠ .reset) (.start rb) s)
    (hctls : s.sys.ctls = []) :
    (s.sys.reader.pc = .takeCanRead → s.sys.rb.canRead = false →
      s.sys.rb.isDoneWrite = false ∧ s.sys.rb.abortRead = false ∧
        s.sys.rb.unblockReaderFlag = false) ∧
    (s.sys.writer.pc = .takeCanWrite → s.sys.rb.canWrite = false →
      s.sys.rb.abortWrite = false) := by
  have hinv : Inv s.sys :=
    hrun.invariant (I := fun u => Inv u.sys) (Inv.start rb)
      fun u a v hu ha hs => hu.step ha hs
  have hunset : ∀ {flag token : Bool} {passed : Prop} {pc : CtlPc},
      Wakes flag passed token (pc ∈ s.sys.ctls) → passed → token = false →
        flag = false := by
    intro flag token passed pc hwakes hpassed htoken
    cases flag with
    | false => rfl
    | true =>
        rcases hwakes rfl hpassed with hsome | hmem
        · rw [hsome] at htoken
          cases htoken
        · rw [hctls] at hmem
          cases hmem
  constructor
  · intro hpc hempty
    exact ⟨hunset hinv.done (.inr (.inr hpc)) hempty,
      hunset hinv.abortRead (.inr hpc) hempty,
      hunset hinv.unblock hpc hempty⟩
  · intro hpc hempty
    exact hunset hinv.abortWrite hpc hempty

/-- A reader is unblocked while it waits, returns, and waits again. -/
def unblockedOnce : List FineAct :=
  [FineAct.call (.readStart true 4 .maxDelay)] ++
    List.replicate 7 (FineAct.call .readStep) ++
    [FineAct.call (.ctlStart .unblockReader), .call (.ctlStep 0),
      .call (.ctlStep 0)] ++
    List.replicate 10 (FineAct.call .readStep) ++
    [FineAct.call (.readStart true 4 .maxDelay)] ++
    List.replicate 7 (FineAct.call .readStep)

theorem no_lost_wakeup_unblockedOnce :
    ∃ rb s, rbCreate 8 1 true = some rb ∧
      fineMachine.runIf (fun _ a => a ≠ .reset) (.start rb) unblockedOnce =
        some s ∧
      s.sys.reader.pc = .takeCanRead ∧ s.sys.rb.unblockReaderFlag = false :=
  ⟨(rbCreate 8 1 true).get rfl, _, rfl, rfl, by decide,
    ((@no_lost_wakeup ((rbCreate 8 1 true).get rfl) _
      (Machine.reaches_of_runIf (show fineMachine.runIf
        (fun _ a => a ≠ .reset) (.start _) unblockedOnce = some _ by rfl))
      (by decide)).1 (by decide) (by decide)).2.2⟩

end EspAdf.Ports.RingBufWakeup
