import Mp3Kernel.Devices.Rtc
import Mp3Kernel.Process.Lifecycle
import Mp3Kernel.Transition.Fold

/-!
# The divisor of `rtc_read`

`issue.rtc_freq` is zero until the real-time clock is opened, and `rtc_read` divides by it. No check
stands between them: a descriptor for the clock is in use only after the clock has been opened. This
holds of the descriptors of all live processes, because a new process has none for the clock, and
the processes below it keep theirs. It does not help when `open` stores a directory entry over the
frequency, through the pointer that it never sets.

## Main definitions

* `FreqValid`: a frequency that `rtc_write` accepts.
* `HoldsRtc`: a table with a descriptor in use for the clock.
* `KState.RtcOk`: the frequency is valid, or no live process has such a table.
* `CallsRtcRead`: a call of `read` reaches `rtc_read`.

## Main results

* `KState.Step.rtcOk`: every step keeps `KState.RtcOk`.
* `Reachable.freqValid_of_callsRtcRead`: whenever `rtc_read` is reached, its divisor is valid and it
  waits.
* `planted_divisor_zero`: a process that makes `open` clear the divisor.

Source: `RTC.c`, lines 103–149; `fileoptable.c`, lines 66–115; `process.c`, lines 226–255 and
372–500.
-/

namespace Mp3Kernel

open ByteMemory Transition

/-! ### The frequency -/

/-- The frequencies that `rtc_write` accepts. -/
def FreqValid (rtcFreq : ℤ) : Prop := 2 ≤ rtcFreq ∧ rtcFreq ≤ 1024

/-- A call outside the table that returns leaves a valid frequency valid. -/
def KeepsFreq (wild : Wild) : Prop :=
  ∀ p s r s', wild.call p s = some (r, s') → FreqValid s.rtcFreq → FreqValid s'.rtcFreq

theorem freqValid_two : FreqValid 2 := ⟨by decide, by decide⟩

section Calls

variable {wild : Wild} {p : FotPtr} {s s' : KState} {r : BitVec 32}

/-- The drivers leave a valid frequency valid. -/
theorem DriverEffects.freqValid (hq : KeepsFreq wild) (h : DriverEffects wild s s')
    (hs : FreqValid s.rtcFreq) : FreqValid s'.rtcFreq := by
  induction h with
  | refl => exact hs
  | tail _ heffect ih =>
    cases heffect with
    | data => exact ih
    | frequency => exact freqValid_two
    | outside h => exact hq _ _ _ _ h ih

/-- Opening the clock makes the frequency valid. -/
theorem driverOpen_rtc {fname : Ptr Block} (hp : p.driver? = some .rtc)
    (h : driverOpen wild p fname s = some (r, s')) : FreqValid s'.rtcFreq := by
  rw [driverOpen, hp] at h
  cases h
  exact freqValid_two

/-- A call of `open` leaves the descriptors alone, or fills one and opens its driver. -/
theorem sysOpen_freq (hw : Benign wild) (hq : KeepsFreq wild) {filename : BitVec 32}
    {current : Ptr Block} (hcur : current ∈ stackVars)
    (h : sysOpen wild filename current s = some (r, s')) :
    (FreqValid s.rtcFreq → FreqValid s'.rtcFreq) ∧
      (s'.procs = s.procs ∨ ∃ fd e, s'.procs = s.procs.setFd fd e ∧
        (e.fileotPointer.driver? = some .rtc → FreqValid s'.rtcFreq)) := by
  rcases sysOpen_opens hcur h with ⟨heffects, -⟩ | ⟨m, fd, result, -, -, -, hopen, -⟩
  · exact ⟨heffects.freqValid hq, .inl (heffects.keeps hw).procs⟩
  · have hfreq := (driverOpen_effects hopen).freqValid hq
    have hprocs := ((driverOpen_effects hopen).keeps hw).procs
    exact ⟨hfreq, .inr ⟨fd, openedEntry m current, hprocs, fun hp => driverOpen_rtc hp hopen⟩⟩

theorem rtcFreq_execute {command : List UInt8} {o : Outcome}
    (h : execute command s = some (o, s')) : s'.rtcFreq = s.rtcFreq := by
  rcases execute_cases h with ⟨m, -, rfl⟩ | ⟨t, m, -, -, rfl⟩
  · rfl
  · rfl

theorem halt_freq (hq : KeepsFreq wild) {status : UInt8} {currents : ℕ → Ptr Block} {o : Outcome}
    (hcur : ∀ fd, currents fd ∈ stackVars) (h : halt wild status currents s = some (o, s'))
    (hs : FreqValid s.rtcFreq) : FreqValid s'.rtcFreq := by
  rcases halt_inversion h with ⟨-, -, hexecute⟩ | ⟨-, s₁, hclose, hresume⟩
  · rw [rtcFreq_execute hexecute]
    exact hs
  · obtain ⟨s₂, s₃, h₂, h₃, h₄⟩ := closeAll_effects hcur hclose
    have hfreq₂ := h₂.freqValid hq
    have hfreq₃ := h₃.freqValid hq
    have hfreq₄ := h₄.freqValid hq
    have hs₁ := hfreq₄ (hfreq₃ (hfreq₂ hs))
    rw [resume] at hresume
    split at hresume
    · cases hresume
    · rw [executeTail] at hresume
      split_ifs at hresume <;> cases hresume <;> exact hs₁

end Calls

/-! ### The descriptors for the clock -/

/-- A table has a descriptor in use for the clock. -/
def HoldsRtc (fds : ℕ → FdEntry) : Prop :=
  ∃ fd < fdarrayMax, (fds fd).flags ≠ 0#32 ∧ (fds fd).fileotPointer.driver? = some .rtc

/-- The table of a new process has none. -/
theorem not_holdsRtc_initialFds (fds : ℕ → FdEntry) : ¬ HoldsRtc (ProcTable.initialFds fds) := by
  rintro ⟨fd, hlt, hflags, hdriver⟩
  have h2 := (initialFds_flags_ne_zero fds hlt).mp hflags
  rw [ProcTable.initialFds, if_pos h2] at hdriver
  exact absurd hdriver (by decide)

namespace ProcTable

/-- None of the processes `0` to `c` has a descriptor in use for the clock. -/
def NoRtc (t : ProcTable) (c : ℕ) : Prop :=
  ∀ j ≤ c, ¬ HoldsRtc (t.pcbs (pcbAddr (BitVec.ofNat 32 j))).fdArray

variable {ptAddr : BitVec 32} {t t' : ProcTable} {c : ℕ}

theorem NoRtc.start (h : t.NoRtc c) (hc : t.Chain ptAddr c) (halloc : t.allocate = some t')
    (call : ℕ) : (t'.start call).NoRtc (c + 1) :=
  Tables.start (P := fun fds => ¬ HoldsRtc fds) not_holdsRtc_initialFds h hc halloc call

theorem Idle.noRtc_start (h : t.Idle ptAddr) (halloc : t.allocate = some t') (call : ℕ) :
    (t'.start call).NoRtc 0 :=
  h.tables_start (P := fun fds => ¬ HoldsRtc fds) not_holdsRtc_initialFds halloc call

theorem NoRtc.leave (h : t.NoRtc (c + 1)) (hc : t.Chain ptAddr (c + 1)) : t.leave.NoRtc c :=
  Tables.leave (P := fun fds => ¬ HoldsRtc fds) h hc

/-- A descriptor for another driver. -/
theorem NoRtc.setFd (h : t.NoRtc c) (fd : ℕ) {e : FdEntry}
    (he : e.fileotPointer.driver? ≠ some .rtc) : (t.setFd fd e).NoRtc c := by
  refine Tables.setFd (P := fun fds => ¬ HoldsRtc fds) (fun fds hno => ?_) h
  rintro ⟨k, hk, hflags, hdriver⟩
  by_cases hkfd : k = fd
  · rw [hkfd, Function.update_self] at hdriver
    exact he hdriver
  · rw [Function.update_of_ne hkfd] at hflags hdriver
    exact hno ⟨k, hk, hflags, hdriver⟩

end ProcTable

/-! ### The invariant -/

/-- The processes `0` to `c` are live, and the frequency is valid unless none of them has a
descriptor in use for the clock. -/
structure KState.RtcOk (ptAddr : BitVec 32) (s : KState) (c : ℕ) : Prop where
  /-- The processes. -/
  chain : s.procs.Chain ptAddr c
  /-- The frequency. -/
  freq : FreqValid s.rtcFreq ∨ s.procs.NoRtc c

variable {wild : Wild} {ptAddr : BitVec 32} {s s' : KState} {e : Event} {c : ℕ}

/-- A step that leaves the processes alone and a valid frequency valid. -/
theorem KState.RtcOk.keeps (h : s.RtcOk ptAddr c) (hprocs : s'.procs = s.procs)
    (hfreq : FreqValid s.rtcFreq → FreqValid s'.rtcFreq) : s'.RtcOk ptAddr c :=
  ⟨hprocs ▸ h.chain, h.freq.imp hfreq fun hno => hprocs ▸ hno⟩

/-- **The step lemma.** -/
theorem KState.Step.rtcOk (hw : Benign wild) (hq : KeepsFreq wild) (hs : s.Step wild e s')
    (he : e.Scratch) (h : ∃ c, s.RtcOk ptAddr c) : ∃ c, s'.RtcOk ptAddr c := by
  obtain ⟨c, hc⟩ := h
  cases hs.change he with
  | execute hex =>
    rcases execute_cases hex with ⟨m, -, rfl⟩ | ⟨t, m, halloc, -, rfl⟩
    · exact ⟨c, hc.chain, hc.freq⟩
    · exact ⟨c + 1, hc.chain.start halloc _,
        hc.freq.imp id fun hno => hno.start hc.chain halloc _⟩
  | halt hcur hhalt =>
    have hfreq := halt_freq hq hcur hhalt
    rcases halt_cases hw hcur hhalt with ⟨hroot, ⟨eip, esp, rfl⟩, hex⟩ | ⟨hchild, -, -, _, -, hout⟩
    · obtain rfl := hc.chain.parentPid_eq_iff.mp hroot
      obtain ⟨t, halloc, ht⟩ := procs_of_execute_user hex
      exact ⟨0, ht ▸ hc.chain.release.start halloc _,
        .inr (ht ▸ hc.chain.release.noRtc_start halloc _)⟩
    · obtain ⟨c, rfl⟩ := Nat.exists_eq_succ_of_ne_zero (mt hc.chain.parentPid_eq_iff.mpr hchild)
      refine ⟨c, ?_, hc.freq.imp hfreq fun hno => ?_⟩
      · rcases hout with ⟨-, -, ht⟩ | ⟨-, -, ht⟩
        · exact ht ▸ hc.chain.leave
        · exact ht ▸ hc.chain.leave.setTss
      · have hleave := hno.leave hc.chain
        rcases hout with ⟨-, -, ht⟩ | ⟨-, -, ht⟩
        · rw [ht]
          exact hleave
        · rw [ht]
          exact fun j hj => hleave j hj
  | sysOpen hcur hopen =>
    obtain ⟨hfreq, hprocs | ⟨fd, entry, hprocs, hrtc⟩⟩ := sysOpen_freq hw hq hcur hopen
    · exact ⟨c, hc.keeps hprocs hfreq⟩
    · refine ⟨c, hprocs ▸ hc.chain.setFd fd entry, ?_⟩
      by_cases he : entry.fileotPointer.driver? = some .rtc
      · exact .inl (hrtc he)
      · exact hc.freq.imp hfreq fun hno => hprocs ▸ hno.setFd fd he
  | effects h => exact ⟨c, hc.keeps (h.keeps hw).procs (h.freqValid hq)⟩

theorem Reachable.rtcOk (hw : Benign wild) (hq : KeepsFreq wild) (h : Reachable wild ptAddr s) :
    ∃ c, s.RtcOk ptAddr c := by
  obtain ⟨boot, s₀, eip, esp, events, hboot, hex, hrun⟩ := h
  refine hrun.invariant (P := fun s => ∃ c, s.RtcOk ptAddr c)
    (fun _ _ _ hc hs => hs.2.rtcOk hw hq hs.1 hc) ?_
  obtain ⟨t, halloc, ht⟩ := procs_of_execute_user hex
  exact ⟨0, ht ▸ hboot.idle.start halloc _, .inr (ht ▸ hboot.idle.noRtc_start halloc _)⟩

/-! ### The divisor -/

/-- A call of `read` in the state `s` reaches `rtc_read` in the state `s'`: through the first of its
two calls of the driver, or through the second. -/
inductive CallsRtcRead (wild : Wild) (s : KState) (fd buf n : BitVec 32) (probe : Ptr Block) :
    KState → Prop
  | first (ha : readAccepts s.procs fd buf n)
      (hp : (s.procs.fds fd.toNat).fileotPointer.driver? = some .rtc) :
      CallsRtcRead wild s fd buf n probe s
  | second {s₁ : KState} {ifread : BitVec 32} {m : Mem Block} (ha : readAccepts s.procs fd buf n)
      (hread : driverRead wild (s.procs.fds fd.toNat).fileotPointer probe fd (s.userPtr buf) n s =
        some (ifread, s₁))
      (hne : ifread ≠ 0#32)
      (hfind :
        findInode s₁.fs (s₁.procs.fds fd.toNat).inode maxFileNumber 0 s₁.mem = some (true, m))
      (hp : (s₁.procs.fds fd.toNat).fileotPointer.driver? = some .rtc) :
      CallsRtcRead wild s fd buf n probe { s₁ with mem := m }

/-- Where `read` accepts a descriptor for the clock, the frequency is valid. -/
theorem KState.RtcOk.freqValid (h : s.RtcOk ptAddr c) {fd buf n : BitVec 32}
    (ha : readAccepts s.procs fd buf n)
    (hp : (s.procs.fds fd.toNat).fileotPointer.driver? = some .rtc) : FreqValid s.rtcFreq := by
  refine h.freq.resolve_right fun hno => hno c le_rfl ?_
  have hlt : fd.toNat < fdarrayMax := by
    have hfd := not_or.mp ha.2.1
    have h7 : fd.toNat < 7 := BitVec.not_le.mp hfd.1
    exact h7.trans (by decide)
  rw [← h.chain.filedArray]
  exact ⟨fd.toNat, hlt, ha.2.2, hp⟩

/-- **The divisor of `rtc_read` is valid.** In every state of a run in which the pointer that `open`
and `close` do not set designates scratch memory, whenever a call of `read` reaches `rtc_read`, the
frequency lies between 2 and 1024, so that the division does not fail and `rtc_read` waits for at
least one interrupt. -/
theorem Reachable.freqValid_of_callsRtcRead (hw : Benign wild) (hq : KeepsFreq wild)
    (h : Reachable wild ptAddr s) {fd buf n : BitVec 32} {probe : Ptr Block}
    (hcall : CallsRtcRead wild s fd buf n probe s') :
    (2 ≤ s'.rtcFreq ∧ s'.rtcFreq ≤ 1024) ∧ 0 < rtcTicks s'.rtcFreq := by
  obtain ⟨c, hc⟩ := h.rtcOk hw hq
  have hvalid : FreqValid s'.rtcFreq := by
    cases hcall with
    | first ha hp => exact hc.freqValid ha hp
    | second ha hread hne hfind hp =>
      rw [((driverRead_effects hread).keeps hw).procs] at hp
      have hs₁ := (driverRead_effects hread).freqValid hq (hc.freqValid ha hp)
      exact hs₁
  exact ⟨hvalid, rtcTicks_pos hvalid⟩

/-- With the sample image, the first process opens the clock and reads it. -/
theorem freqValid_of_callsRtcRead_sample :
    ∃ s, Reachable sampleWild 0x401000#32 s ∧
      CallsRtcRead sampleWild s 2#32 userMem 1#32 Ptr.null s ∧
        (2 ≤ s.rtcFreq ∧ s.rtcFreq ≤ 1024) ∧ 0 < rtcTicks s.rtcFreq := by
  obtain ⟨s, h, hclock, -⟩ := exists_opened_sample (k := 3) le_rfl (by decide)
  obtain ⟨haccepts, hdriver⟩ := hclock.readAccepts (by decide)
  have hcall : CallsRtcRead sampleWild s 2#32 userMem 1#32 Ptr.null s := .first haccepts hdriver
  have hkeeps : KeepsFreq sampleWild := fun _ _ _ _ h hs => by
    cases h
    exact hs
  exact ⟨s, h, hcall, h.freqValid_of_callsRtcRead benign_sampleWild hkeeps hcall⟩

/-- **A process that plants a pointer.** A process opens the clock until no descriptor is free. It
passes the address `0x40609C` to a `read` that fails, which leaves it on the kernel stack, and opens
the clock again: `open` returns `-1`, but the entry that it has stored there has its inode, which is
zero, over `issue.rtc_freq`. The next `read` of descriptor 2 reaches the division. -/
theorem planted_divisor_zero :
    ∃ s s', Reachable sampleWild 0x401000#32 s ∧
      Run (KState.Step sampleWild) s
        [.sysRead 0x40609C#32 userMem 1#32 Ptr.null, .sysOpen userMem ⟨.flat, 0x40609C#32⟩] s' ∧
      CallsRtcRead sampleWild s' 2#32 userMem 1#32 Ptr.null s' ∧ s'.rtcFreq = 0 := by
  obtain ⟨s, h, hclock, -⟩ := exists_opened_sample (k := 8) (by decide) le_rfl
  have hread : sysRead sampleWild 0x40609C#32 userMem 1#32 Ptr.null s = some (failure, s) :=
    sysRead_of_not_accepts _ fun ha => ha.2.1 (.inl (by decide))
  have hcurrent : freqCurrent = sampleBoot.fs.bootblockHead.shift 0xFFF0609C := by decide
  have hlookup := hclock.lookup
  rw [hclock.fs] at hlookup
  obtain ⟨m, hfound, -, -, hinode⟩ := exists_readClock_sample (c := 0xFFF0609C) hclock.flat
    (KState.userPtr_ne_null (by decide)) hlookup (by decide) (by decide)
  rw [← hcurrent] at hfound hinode
  rw [← hclock.fs] at hfound
  have h0 : ¬ (userMem = 0#32 ∨ s.procs.filedArray = 0#32) :=
    not_or.mpr ⟨by decide, (h.ready benign_sampleWild).filedArray⟩
  have hfull : s.procs.firstFree = none := ProcTable.firstFree_eq_none_iff.mpr hclock.inUse
  have hopen := sysOpen_of_stored sampleWild h0 hfound (stored_freqCurrent _)
  dsimp only at hopen
  rw [hfull, hinode] at hopen
  obtain ⟨haccepts, hdriver⟩ := hclock.readAccepts (by decide)
  exact ⟨s, _, h, .cons (.sysRead hread) (.single (.sysOpen hopen)), .first haccepts hdriver, rfl⟩

end Mp3Kernel
