import Mp3Kernel.Process.Program

/-!
# The return from `halt`

`initialize_PCB` saves its own frame in the control block of the parent, and `halt` returns from
that frame: to the code of `execute` behind the call of `initialize_PCB`, and not to the caller of
`execute`. The frame does belong to the call of `execute` that created the process, but this call
now compares the status with `-1` and otherwise goes on to start the program of the current process,
which is the parent.

## Main definitions

* `KState.Paired`: every process but the last has a frame saved of the call that created the next.
* `KState.ReturnsStatus`: what `halt` should do.

## Main results

* `Reachable.paired`: in every reachable state the saved frames are paired with the processes.
* `Reachable.not_returnsStatus`: `halt` never does what it should; it starts the parent's program
  again, or returns `-1`.

Source: `process.c`, lines 148–215 and 257–350.
-/

namespace Mp3Kernel

open ByteMemory Transition

/-! ### The saved frames -/

/-- The processes `0` to `c` are live, and in the control block of each but the last the frame of
the call that created the next is saved. -/
structure KState.Paired (ptAddr : BitVec 32) (s : KState) (c : ℕ) : Prop where
  /-- The processes. -/
  chain : s.procs.Chain ptAddr c
  /-- The frames. -/
  frame : ∀ j < c, (s.procs.pcbs (pcbAddr (BitVec.ofNat 32 j))).scheduledEbp =
    some (.initializePCB (s.creator (BitVec.ofNat 32 (j + 1))))

variable {wild : Wild} {ptAddr : BitVec 32} {s s' : KState} {e : Event} {o : Outcome} {c : ℕ}

namespace KState.Paired

theorem keeps (h : s.Paired ptAddr c) (hk : s.Keeps s') : s'.Paired ptAddr c := by
  refine ⟨?_, fun j hj => ?_⟩
  · rw [hk.procs]
    exact h.chain
  · rw [hk.procs, hk.creator]
    exact h.frame j hj

/-- `execute` pairs its own frame with the process that it starts. -/
theorem start (h : s.Paired ptAddr c) {t : ProcTable} (halloc : s.procs.allocate = some t)
    (hprocs : s'.procs = t.start s.calls)
    (hcreator : s'.creator = Function.update s.creator t.newPid s.calls) :
    s'.Paired ptAddr (c + 1) := by
  have hstart := h.chain.start halloc s.calls
  have hnew : t.newPid = BitVec.ofNat 32 (c + 1) := hstart.curPid
  have hlt := hstart.lt
  refine ⟨hprocs ▸ hstart, fun j hj => ?_⟩
  rw [hprocs, hcreator, hnew, Function.update_apply]
  rcases Nat.lt_succ_iff_lt_or_eq.mp hj with hjc | rfl
  · -- Below the caller of `execute`, neither the saved frame nor the creator changes.
    have hcur : t.curPid = BitVec.ofNat 32 c :=
      (ProcTable.curPid_of_allocate halloc).trans h.chain.curPid
    have hne : ¬ (t.curPid ≠ -1#32 ∧ pcbAddr (BitVec.ofNat 32 j) = pcbAddr t.curPid) := by
      rw [hcur]
      exact fun he => hjc.ne ((pcbAddr_inj (by omega) h.chain.lt).mp he.2)
    have hcreated : BitVec.ofNat 32 (j + 1) ≠ BitVec.ofNat 32 (c + 1) := fun he => by
      have := (ofNat_inj (by omega) hlt).mp he
      omega
    rw [ProcTable.scheduledEbp_pcbs_start, if_neg hne, ProcTable.pcbs_of_allocate halloc,
      if_neg hcreated]
    exact h.frame j hjc
  · rw [h.chain.scheduledEbp_start halloc, if_pos rfl]

/-- `halt` of the last process leaves the other pairs alone. -/
theorem leave (h : s.Paired ptAddr (c + 1))
    (hprocs : s'.procs = s.procs.leave ∨ s'.procs = s.procs.leave.setTss)
    (hcreator : s'.creator = s.creator) : s'.Paired ptAddr c := by
  have hpcbs : s'.procs.pcbs = s.procs.leave.pcbs := by
    rcases hprocs with ht | ht
    · rw [ht]
    · rw [ht]
      rfl
  refine ⟨?_, fun j hj => ?_⟩
  · rcases hprocs with ht | ht
    · exact ht ▸ h.chain.leave
    · exact ht ▸ h.chain.leave.setTss
  · obtain ⟨fds, hpcb⟩ := ProcTable.pcbs_leave s.procs (pcbAddr (BitVec.ofNat 32 j))
    rw [hpcbs, hpcb, hcreator]
    exact h.frame j (Nat.lt_succ_of_lt hj)

/-- The frame that `halt` resumes is that of the call which created the process that ends. -/
theorem frame_parent (h : s.Paired ptAddr c) (hparent : s.procs.parentPid ≠ -1#32) :
    (s.procs.pcbs (pcbAddr s.procs.parentPid)).scheduledEbp =
      some (.initializePCB (s.creator s.procs.curPid)) := by
  obtain ⟨c, rfl⟩ := Nat.exists_eq_succ_of_ne_zero (mt h.chain.parentPid_eq_iff.mpr hparent)
  rw [h.chain.parentPid, ofNat_succ_sub_one, h.frame c (Nat.lt_succ_self c), h.chain.curPid]

end KState.Paired

/-- **The step lemma**: every step keeps the frames paired with the processes. -/
theorem KState.Step.paired (hw : Benign wild) (hs : s.Step wild e s') (he : e.Scratch)
    (h : ∃ c, s.Paired ptAddr c) : ∃ c, s'.Paired ptAddr c := by
  obtain ⟨c, hc⟩ := h
  cases hs.change he with
  | execute hex =>
    rcases execute_cases hex with ⟨m, -, rfl⟩ | ⟨t, m, halloc, -, rfl⟩
    · exact ⟨c, hc.chain, hc.frame⟩
    · exact ⟨c + 1, hc.start halloc rfl rfl⟩
  | halt hcur hhalt =>
    rcases halt_cases hw hcur hhalt with
      ⟨hroot, ⟨eip, esp, rfl⟩, hex⟩ | ⟨hchild, -, hcreator, _, -, hout⟩
    · obtain rfl := hc.chain.parentPid_eq_iff.mp hroot
      obtain ⟨t, halloc, ht⟩ := procs_of_execute_user hex
      exact ⟨0, ht ▸ hc.chain.release.start halloc _, fun j hj => absurd hj (Nat.not_lt_zero j)⟩
    · obtain ⟨c, rfl⟩ := Nat.exists_eq_succ_of_ne_zero (mt hc.chain.parentPid_eq_iff.mpr hchild)
      exact ⟨c, hc.leave (hout.imp (fun h => h.2.2) fun h => h.2.2) hcreator⟩
  | sysOpen hcur hopen =>
    rcases sysOpen_cases hw hcur hopen with ⟨hkeeps, -⟩ | ⟨m, fd, -, -, -, ht, -, hcreator, -⟩
    · exact ⟨c, hc.keeps hkeeps⟩
    · refine ⟨c, ht ▸ hc.chain.setFd fd _, fun j hj => ?_⟩
      rw [ht, hcreator, ProcTable.pcbs_setFd]
      exact hc.frame j hj
  | effects h => exact ⟨c, hc.keeps (h.keeps hw)⟩

/-- **In every reachable state** the saved frames are paired with the processes. -/
theorem Reachable.paired (hw : Benign wild) (h : Reachable wild ptAddr s) :
    ∃ c, s.Paired ptAddr c := by
  obtain ⟨boot, s₀, eip, esp, events, hboot, hex, hrun⟩ := h
  refine hrun.invariant (P := fun s => ∃ c, s.Paired ptAddr c)
    (fun _ _ _ hc hs => hs.2.paired hw hs.1 hc) ?_
  obtain ⟨t, halloc, ht⟩ := procs_of_execute_user hex
  exact ⟨0, ht ▸ hboot.idle.start halloc _, fun j hj => absurd hj (Nat.not_lt_zero j)⟩

/-! ### What `halt` returns -/

/-- What `halt` should do in a process that has a parent: the call of `execute` that created the
process returns the status to its caller. In particular no program is started. -/
def KState.ReturnsStatus (wild : Wild) (s : KState) (status : UInt8) (currents : ℕ → Ptr Block) :
    Prop :=
  ∃ s', halt wild status currents s =
    some (.returns (s.creator s.procs.curPid) (BitVec.ofNat 32 status.toNat), s')

/-- No status is the result `-1`. -/
theorem ofNat_status_ne_failure (status : UInt8) : BitVec.ofNat 32 status.toNat ≠ failure := by
  intro h
  have hlt := status.toNat_lt
  have hfailure : failure.toNat = 2 ^ 32 - 1 := by decide
  rw [← h, BitVec.toNat_ofNat] at hfailure
  omega

/-- **`halt` never returns the status.** In every reachable state of a process with a parent, and
for every status: the parent becomes current, and its program is started again from its entry point,
except that for the status `0xFF` the call of `execute` that created the process returns `-1`. -/
theorem Reachable.not_returnsStatus (hw : Benign wild) (h : Reachable wild ptAddr s)
    (hparent : s.procs.parentPid ≠ -1#32) (status : UInt8) {currents : ℕ → Ptr Block}
    (hcur : ∀ fd, currents fd ∈ stackVars) :
    ¬ s.ReturnsStatus wild status currents ∧
      ∀ o s', halt wild status currents s = some (o, s') → s'.procs.curPid = s.procs.parentPid ∧
        o = if status = 0xFF then .returns (s.creator s.procs.curPid) failure
          else .user s'.entry (userMem + userStackSize - 4#32) := by
  obtain ⟨c, hc⟩ := h.paired hw
  have hout (o : Outcome) (s' : KState) (hhalt : halt wild status currents s = some (o, s')) :
      s'.procs.curPid = s.procs.parentPid ∧
        o = if status = 0xFF then .returns (s.creator s.procs.curPid) failure
          else .user s'.entry (userMem + userStackSize - 4#32) := by
    rcases halt_cases hw hcur hhalt with ⟨hroot, -⟩ | ⟨-, -, -, call, hframe, hout⟩
    · exact absurd hroot hparent
    obtain ⟨fds, hpcb⟩ := ProcTable.pcbs_leave s.procs (pcbAddr s.procs.parentPid)
    rw [hpcb, hc.frame_parent hparent] at hframe
    cases hframe
    rcases hout with ⟨hstatus, ho, ht⟩ | ⟨hstatus, ho, ht⟩
    · rw [ht, if_pos hstatus]
      exact ⟨rfl, ho⟩
    · rw [ht, if_neg hstatus]
      exact ⟨rfl, ho⟩
  refine ⟨?_, hout⟩
  rintro ⟨s', hhalt⟩
  have hvalue := (hout _ s' hhalt).2
  split_ifs at hvalue
  exact ofNat_status_ne_failure status (Outcome.returns.inj hvalue).2

theorem not_returnsStatus_sample :
    ∃ s, Reachable sampleWild 0x401000#32 s ∧ s.procs.parentPid ≠ -1#32 ∧
      ¬ s.ReturnsStatus sampleWild 0 sampleCurrents := by
  obtain ⟨s, s₁, s₂, eip, esp, o, h, hex, hhalt, hc, hc₁, hc₂⟩ := exists_child_sample
  have h₁ : Reachable sampleWild 0x401000#32 s₁ := h.step (.execute hex) trivial
  have hparent : s₁.procs.parentPid ≠ -1#32 := mt hc₁.parentPid_eq_iff.mp Nat.one_ne_zero
  exact ⟨s₁, h₁, hparent, (h₁.not_returnsStatus benign_sampleWild hparent 0 sampleCurrents_mem).1⟩

/-- The shell starts a second shell, which calls `halt(0)`: the first shell is started again. -/
theorem halt_of_child :
    ¬ ∀ (s : KState) (status : UInt8), Reachable sampleWild 0x401000#32 s →
      s.procs.parentPid ≠ -1#32 → s.ReturnsStatus sampleWild status sampleCurrents := by
  intro hall
  obtain ⟨s, s₁, s₂, eip, esp, o, h, hex, hhalt, hc, hc₁, hc₂⟩ := exists_child_sample
  have hparent : s₁.procs.parentPid ≠ -1#32 := mt hc₁.parentPid_eq_iff.mp Nat.one_ne_zero
  obtain ⟨s', hs'⟩ := hall s₁ 0 (h.step (.execute hex) trivial) hparent
  rcases halt_cases benign_sampleWild sampleCurrents_mem hs' with
    ⟨hroot, -⟩ | ⟨-, -, -, call, -, hout⟩
  · exact hparent hroot
  · rcases hout with ⟨hstatus, -⟩ | ⟨-, ho, -⟩
    · exact absurd hstatus (by decide)
    · cases ho

end Mp3Kernel
