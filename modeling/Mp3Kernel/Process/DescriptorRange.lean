import Mp3Kernel.Process.Reading

/-!
# The range of the descriptors

`open` searches the eight entries of the table for a free one, while `read` and `write` reject every
descriptor from 7 on. The last descriptor can therefore be opened but never used: once the first
seven are in use, `open` returns 7.

## Main definitions

* `AgreesOnRange`: `read` and `write` accept the descriptor that `open` has returned, and reject
  every number that is not in use.

## Main results

* `agreesOnRange_iff`: they agree as long as one of the first seven descriptors was free.
* `eighth_descriptor_unusable`: a reachable state in which `open` returns 7.

Source: `process.c`, lines 372–403, 462–476 and 541–558; `process.h`, line 14.
-/

namespace Mp3Kernel

open ByteMemory Transition

variable {wild : Wild} {ptAddr : BitVec 32} {s s' : KState} {fd v buf n filename : BitVec 32}
  {current : Ptr Block}

/-! ### The first two descriptors -/

/-- The descriptor that `open` returns was the first that was free, which is neither 0 nor 1, and it
is in use. -/
theorem Reachable.opened (hw : Benign wild) (h : Reachable wild ptAddr s)
    (hcur : current ∈ stackVars) (hopen : sysOpen wild filename current s = some (fd, s'))
    (hfd : fd ≠ failure) :
    s.procs.firstFree = some fd.toNat ∧ 2 ≤ fd.toNat ∧ fd.toNat ∈ s'.procs.inUse := by
  rcases sysOpen_cases hw hcur hopen with ⟨-, hr⟩ | ⟨m, k, -, -, hfree, hprocs, -, -, hr⟩
  · exact absurd hr hfd
  · obtain ⟨hlt, hflags, -⟩ := ProcTable.firstFree_eq_some_iff.mp hfree
    obtain rfl := hr.resolve_left hfd
    rw [(ofNat_fd hlt).2]
    refine ⟨hfree, ?_, ?_⟩
    · by_contra h2
      exact h.terminal_inUse hw k (Nat.lt_of_not_le h2) hflags
    · rw [hprocs, ProcTable.inUse_setFd hlt (by decide : (1#32 : BitVec 32) ≠ 0#32)]
      exact .inr rfl

/-! ### The checks -/

/-- `read` and `write` accept the descriptor `fd` with every buffer in the user page, and reject
every number that is not a descriptor in use without calling a driver. -/
structure AgreesOnRange (wild : Wild) (s : KState) (fd : BitVec 32) : Prop where
  /-- The calls with `fd` reach the driver. -/
  accepted : ∀ buf n, PageBuffer buf n →
    (readAccepts s.procs fd buf n ∧
      ∀ probe, sysRead wild fd buf n probe s = readFd wild fd buf n probe s) ∧
    writeAccepts s.procs fd buf n ∧ sysWrite wild fd buf n s =
      driverWrite wild (s.procs.fds fd.toNat).fileotPointer fd (s.userPtr buf) n s
  /-- The calls with a number not in use return `-1`. -/
  rejected : ∀ v, v.toNat ∉ s.procs.inUse → ∀ buf n,
    (¬ readAccepts s.procs v buf n ∧ ∀ probe, sysRead wild v buf n probe s = some (failure, s)) ∧
      ¬ writeAccepts s.procs v buf n ∧ sysWrite wild v buf n s = some (failure, s)

/-- A number that passes one of the two checks is a descriptor in use. -/
theorem mem_inUse_of_accepts {t : ProcTable} (h : readAccepts t v buf n ∨ writeAccepts t v buf n) :
    v.toNat ∈ t.inUse := by
  have hsmall : ¬ 7#32 ≤ v ∧ (t.fds v.toNat).flags ≠ 0#32 := by
    rcases h with ⟨-, hv, hflags⟩ | ⟨-, hv, hflags⟩
    · exact ⟨(not_or.mp hv).1, hflags⟩
    · exact ⟨(not_or.mp hv).1, hflags⟩
  have h7 : v.toNat < 7 := BitVec.not_le.mp hsmall.1
  exact ⟨h7.trans (by decide), hsmall.2⟩

/-- **The range of the descriptors.** `read` and `write` agree with `open` on the descriptor that it
has returned if and only if one of the first seven descriptors was free. -/
theorem agreesOnRange_iff (hw : Benign wild) (h : Reachable wild ptAddr s)
    (hcur : current ∈ stackVars) (hopen : sysOpen wild filename current s = some (fd, s'))
    (hfd : fd ≠ failure) : AgreesOnRange wild s' fd ↔ ∃ j < 7, (s.procs.fds j).flags = 0#32 := by
  obtain ⟨hfree, h2, hin⟩ := h.opened hw hcur hopen hfd
  obtain ⟨hlt, hflags, hlowest⟩ := ProcTable.firstFree_eq_some_iff.mp hfree
  constructor
  · intro hagrees
    have haccepts := (hagrees.accepted userMem 0#32 ⟨by decide, by decide⟩).1.1
    exact ⟨fd.toNat, BitVec.not_le.mp (not_or.mp haccepts.2.1).1, hflags⟩
  · rintro ⟨j, hj, hzero⟩
    have h7 : fd.toNat < 7 := by
      by_contra hge
      exact hlowest j (by omega) hzero
    have hrange : ¬ 7#32 ≤ fd := BitVec.not_le.mpr h7
    have hne (k : BitVec 32) (hk : k.toNat < 2) : fd ≠ k := fun he => by
      rw [he] at h2
      omega
    refine ⟨fun buf n hbuf => ?_, fun v hv buf n => ?_⟩
    · have hread : readAccepts s'.procs fd buf n :=
        ⟨hbuf.accepts, not_or.mpr ⟨hrange, hne 1#32 (by decide)⟩, hin.2⟩
      have hwrite : writeAccepts s'.procs fd buf n :=
        ⟨hbuf.accepts, not_or.mpr ⟨hrange, hne 0#32 (by decide)⟩, hin.2⟩
      exact ⟨⟨hread, fun probe => sysRead_of_accepts probe hread⟩, hwrite,
        sysWrite_of_accepts hwrite⟩
    · have hread : ¬ readAccepts s'.procs v buf n := fun ha => hv (mem_inUse_of_accepts (.inl ha))
      have hwrite : ¬ writeAccepts s'.procs v buf n := fun ha => hv (mem_inUse_of_accepts (.inr ha))
      exact ⟨⟨hread, fun probe => sysRead_of_not_accepts probe hread⟩, hwrite,
        sysWrite_of_not_accepts hwrite⟩

/-- With the sample image, the first process opens the clock, and is given descriptor 2, which the
range checks of `read` and `write` accept. -/
theorem agreesOnRange_sample :
    ∃ s s', Reachable sampleWild 0x401000#32 s ∧
      sysOpen sampleWild userMem Local.current.ptr s = some (2#32, s') ∧
      AgreesOnRange sampleWild s' 2#32 := by
  obtain ⟨-, s, -, -, -, h, -, -, hclock⟩ := exists_clock_sample
  obtain ⟨s', hopen, -⟩ :=
    hclock.exists_sysOpen sampleWild (h.ready benign_sampleWild) (by decide) (by decide)
  have hfree := ProcTable.firstFree_of_inUse hclock.inUse (by decide)
  have hflags := (ProcTable.firstFree_eq_some_iff.mp hfree).2.1
  exact ⟨s, s', h, hopen, (agreesOnRange_iff benign_sampleWild h (Local.ptr_mem_stackVars .current)
    hopen (by decide)).mpr ⟨2, by decide, hflags⟩⟩

/-! ### The eighth descriptor -/

/-- With the first seven descriptors in use, `open` returns descriptor 7, which `read` and `write`
reject. -/
theorem eighth_descriptor_unusable :
    ¬ ∀ (s s' : KState) (filename fd : BitVec 32), Reachable sampleWild 0x401000#32 s →
      sysOpen sampleWild filename Local.current.ptr s = some (fd, s') → fd ≠ failure →
        AgreesOnRange sampleWild s' fd := by
  intro hall
  obtain ⟨s, h, hclock, -⟩ := exists_opened_sample (k := 7) (by decide) (by decide)
  obtain ⟨s', hopen, -⟩ :=
    hclock.exists_sysOpen sampleWild (h.ready benign_sampleWild) (by decide) (by decide)
  have hagrees := hall s s' userMem _ h hopen (by decide)
  have haccepts := (hagrees.accepted userMem 0#32 ⟨by decide, by decide⟩).1.1
  exact haccepts.2.1 (.inl (by decide))

end Mp3Kernel
