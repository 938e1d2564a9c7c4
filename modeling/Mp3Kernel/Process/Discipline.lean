import Mp3Kernel.Process.Program

/-!
# Process discipline

What the chain of processes means for a reachable state: which addresses the current program can
use, which process ids are live and who their parents are, and that all views of the current process
agree.

## Main definitions

* `kernelRegion`: the 8 KB of a process in the kernel page, with its control block and its stack.
* `userRegion`: the 4 MB page of a process.
* `ProcTable.Live`, `Refused`.

## Main results

* `Reachable.address_space`: the address space in a reachable state.
* `Reachable.process_table`: the live processes in a reachable state, and what `execute` does there.
* `Reachable.current_process`: the views of the current process in a reachable state.

Source: `paging.c`; `process.c`, lines 121–330.
-/

namespace Mp3Kernel

open ByteMemory Transition

/-! ### The memory of a process -/

/-- The 8 KB of the kernel page that hold the control block of a process and its kernel stack. -/
def kernelRegion (pid : BitVec 32) : Set (BitVec 32) :=
  {a | pcbAddr pid ≤ a ∧ a < pcbAddr pid + kernelStackSize}

/-- The physical addresses of the user page of a process. -/
def userRegion (pid : BitVec 32) : Set (BitVec 32) :=
  {a | userFrame pid ≤ a ∧ a < userFrame pid + 0x400000#32}

/-- The addresses of the kernel page. -/
def kernelPage : Set (BitVec 32) := {a | 0x400000#32 ≤ a ∧ a < endOfKernel}

theorem mem_kernelRegion {j : ℕ} (hj : j < maxProcessNumber) {a : BitVec 32} :
    a ∈ kernelRegion (BitVec.ofNat 32 j) ↔
      0x800000 - 0x2000 * (j + 1) ≤ a.toNat ∧ a.toNat < 0x800000 - 0x2000 * j := by
  have hend : (pcbAddr (BitVec.ofNat 32 j) + kernelStackSize).toNat = 0x800000 - 0x2000 * j := by
    clear a
    revert j
    decide
  rw [kernelRegion, Set.mem_ofPred_eq, BitVec.le_def, BitVec.lt_def, toNat_pcbAddr hj, hend]

theorem mem_userRegion {j : ℕ} (hj : j < maxProcessNumber) {a : BitVec 32} :
    a ∈ userRegion (BitVec.ofNat 32 j) ↔
      0x400000 * (2 + j) ≤ a.toNat ∧ a.toNat < 0x400000 * (3 + j) := by
  have hstart : (userFrame (BitVec.ofNat 32 j)).toNat = 0x400000 * (2 + j) := by
    clear a
    revert j
    decide
  have hend : (userFrame (BitVec.ofNat 32 j) + 0x400000#32).toNat = 0x400000 * (3 + j) := by
    clear a
    revert j
    decide
  rw [userRegion, Set.mem_ofPred_eq, BitVec.le_def, BitVec.lt_def, hstart, hend]

theorem disjoint_kernelRegion {j k : ℕ} (hj : j < maxProcessNumber) (hk : k < maxProcessNumber)
    (h : j ≠ k) :
    Disjoint (kernelRegion (BitVec.ofNat 32 j)) (kernelRegion (BitVec.ofNat 32 k)) := by
  rw [Set.disjoint_left]
  intro a ha hb
  rw [mem_kernelRegion hj] at ha
  rw [mem_kernelRegion hk] at hb
  simp only [maxProcessNumber] at hj hk
  omega

theorem disjoint_userRegion {j k : ℕ} (hj : j < maxProcessNumber) (hk : k < maxProcessNumber)
    (h : j ≠ k) : Disjoint (userRegion (BitVec.ofNat 32 j)) (userRegion (BitVec.ofNat 32 k)) := by
  rw [Set.disjoint_left]
  intro a ha hb
  rw [mem_userRegion hj] at ha
  rw [mem_userRegion hk] at hb
  omega

theorem kernelRegion_subset {j : ℕ} (hj : j < maxProcessNumber) :
    kernelRegion (BitVec.ofNat 32 j) ⊆ kernelPage := by
  intro a ha
  rw [mem_kernelRegion hj] at ha
  simp only [maxProcessNumber] at hj
  show 0x400000#32 ≤ a ∧ a < endOfKernel
  rw [BitVec.le_def, BitVec.lt_def, show (0x400000#32).toNat = 0x400000 from rfl,
    show endOfKernel.toNat = 0x800000 from rfl]
  omega

theorem endOfKernel_le_of_mem_userRegion {j : ℕ} (hj : j < maxProcessNumber) {a : BitVec 32}
    (ha : a ∈ userRegion (BitVec.ofNat 32 j)) : endOfKernel ≤ a := by
  rw [mem_userRegion hj] at ha
  rw [BitVec.le_def, show endOfKernel.toNat = 0x800000 from rfl]
  omega

theorem add_offset_sub (f u a : BitVec 32) : f + (u + (a - f) - u) = a := by bv_omega

/-- A user page is all that a program can reach, and all of it. -/
theorem translation_user_eq_some {j : ℕ} (hj : j < maxProcessNumber) {a : BitVec 32} :
    (∃ v, translation (BitVec.ofNat 32 j) .user v = some a) ↔
      a ∈ userRegion (BitVec.ofNat 32 j) := by
  have hstart : (userFrame (BitVec.ofNat 32 j)).toNat = 0x400000 * (2 + j) := by
    clear a
    revert j
    decide
  have hmem : userMem.toNat = 0x8000000 := rfl
  have hend : userEnd.toNat = 0x8400000 := rfl
  rw [mem_userRegion hj]
  simp only [maxProcessNumber] at hj
  constructor
  · rintro ⟨v, hv⟩
    simp only [translation, reduceCtorEq, false_and, if_false] at hv
    split_ifs at hv with hr
    obtain rfl := Option.some.inj hv
    rw [BitVec.le_def, BitVec.lt_def] at hr
    rw [BitVec.toNat_add, BitVec.toNat_sub]
    omega
  · intro ha
    have hv : (userMem + (a - userFrame (BitVec.ofNat 32 j))).toNat =
        0x8000000 + (a.toNat - 0x400000 * (2 + j)) := by
      rw [BitVec.toNat_add, BitVec.toNat_sub]
      omega
    refine ⟨userMem + (a - userFrame (BitVec.ofNat 32 j)), ?_⟩
    rw [translation, if_pos, add_offset_sub]
    rw [BitVec.le_def, BitVec.lt_def, hv]
    omega

/-! ### The address space -/

/-- The process with this id is live. -/
def ProcTable.Live (t : ProcTable) (j : ℕ) : Prop :=
  j < maxProcessNumber ∧ t.pidCheck (BitVec.ofNat 32 j) = 1

variable {wild : Wild} {ptAddr : BitVec 32} {s : KState}

/-- **Isolation.** In every reachable state the walk over the page tables gives the current process
its own page in user mode, and the kernel that page, the video page and the kernel page; and the
pages of two live processes do not meet each other or the kernel. -/
theorem Reachable.address_space (hw : Benign wild) (hpt : ptAddr &&& 0x00000FFF#32 = 0)
    (h : Reachable wild ptAddr s) :
    (∀ tables : BitVec 32 → ℕ → BitVec 32, (∀ i, tables ptAddr i = s.procs.paging.PT i) →
      ∀ priv acc v, walk s.procs.paging.DT tables priv acc v =
        translation s.procs.curPid priv v) ∧
    ∀ j k, s.procs.Live j → s.procs.Live k → ∀ v a,
      translation (BitVec.ofNat 32 j) .user v = some a →
        endOfKernel ≤ a ∧
          (j ≠ k → ∀ v', translation (BitVec.ofNat 32 k) .user v' ≠ some a) := by
  obtain ⟨c, hc⟩ := h.exists_chain hw
  constructor
  · intro tables htab priv acc v
    rw [hc.curPid]
    exact walk_eq_translation hc.maps hpt htab priv acc v
  · intro j k hj hk v a hv
    have ha := (translation_user_eq_some hj.1).mp ⟨v, hv⟩
    refine ⟨endOfKernel_le_of_mem_userRegion hj.1 ha, fun hne v' hv' => ?_⟩
    have ha' := (translation_user_eq_some hk.1).mp ⟨v', hv'⟩
    exact Set.disjoint_left.mp (disjoint_userRegion hj.1 hk.1 hne) ha ha'

/-- The entry point of a program, while a child runs and when it has ended. -/
theorem address_space_sample :
    ∃ s₁ s₂, Reachable sampleWild 0x401000#32 s₁ ∧ Reachable sampleWild 0x401000#32 s₂ ∧
      walk s₁.procs.paging.DT (fun _ => s₁.procs.paging.PT) .user .write 0x08048000#32 =
        some 0x00C48000#32 ∧
      walk s₂.procs.paging.DT (fun _ => s₂.procs.paging.PT) .user .write 0x08048000#32 =
        some 0x00848000#32 := by
  obtain ⟨s₁, s₂, h₁, h₂, hc₁, hc₂⟩ := exists_family_sample
  refine ⟨s₁, s₂, h₁, h₂, ?_, ?_⟩
  · rw [(h₁.address_space benign_sampleWild (by decide)).1 (fun _ => s₁.procs.paging.PT)
      fun _ => rfl, hc₁.curPid]
    decide
  · rw [(h₂.address_space benign_sampleWild (by decide)).1 (fun _ => s₂.procs.paging.PT)
      fun _ => rfl, hc₂.curPid]
    decide

/-! ### The process table -/

namespace ProcTable.Chain

variable {t : ProcTable} {c : ℕ}

theorem live_iff (h : t.Chain ptAddr c) {j : ℕ} : t.Live j ↔ j ≤ c := by
  have hlt := h.lt
  constructor
  · rintro ⟨hj, hlive⟩
    rw [h.live j hj] at hlive
    by_contra hle
    rw [if_neg hle] at hlive
    exact absurd hlive (by decide)
  · intro hj
    refine ⟨by omega, ?_⟩
    rw [h.live j (by omega), if_pos hj]

theorem toNat_curPid (h : t.Chain ptAddr c) : t.curPid.toNat = c := by
  have hlt := h.lt
  rw [maxProcessNumber] at hlt
  rw [h.curPid, BitVec.toNat_ofNat]
  omega

/-- No process id is free exactly when the chain is as long as it can be. -/
theorem allocate_eq_none_iff (h : t.Chain ptAddr c) :
    t.allocate = none ↔ ∀ j < maxProcessNumber, t.Live j := by
  rw [ProcTable.allocate_eq_none]
  refine forall₂_congr fun j hj => ?_
  rw [h.live_iff, h.live j hj]
  split_ifs with hle
  · exact iff_of_true (by decide) hle
  · exact iff_of_false (by decide) hle

end ProcTable.Chain

/-- The process id that `execute` takes is not that of a live process. -/
theorem ProcTable.not_live_of_allocate {t t' : ProcTable} (halloc : t.allocate = some t') :
    ∃ i < maxProcessNumber, ¬ t.Live i ∧ t'.newPid = BitVec.ofNat 32 i := by
  obtain ⟨i, hi, hfree, -, rfl⟩ := allocate_eq_some halloc
  refine ⟨i, hi, fun hlive => ?_, rfl⟩
  rw [hlive.2] at hfree
  exact absurd hfree (by decide)

/-- `execute` returns to its caller. -/
def Refused (command : List UInt8) (s : KState) : Prop :=
  ∃ call value s', execute command s = some (.returns call value, s')

/-- Behind its checks, `execute` returns to its caller exactly where no process id is free. -/
theorem refused_iff {command file arg : List UInt8} {inode : BitVec 32} {m : Mem Block}
    (hparse : parse command = some (file, arg))
    (hcheck : checkExecutable s file = some (some inode, m)) :
    Refused command s ↔ s.procs.allocate = none := by
  have hexec : execute command s =
      createProcess s.calls inode { s with mem := m, calls := s.calls + 1 } := by
    rw [execute, hparse]
    simp only [Option.bind_eq_bind, Option.bind_some, hcheck]
  rw [Refused, hexec]
  constructor
  · rintro ⟨call, value, s', h⟩
    rcases createProcess_cases h with ⟨hnone, -⟩ | ⟨t, m', -, -, ho, -⟩
    · exact hnone
    · cases ho
  · intro hnone
    refine ⟨s.calls, failure, { s with mem := m, calls := s.calls + 1 }, ?_⟩
    rw [createProcess]
    simp only [hnone]

/-- **The process table.** In every reachable state the live processes are `0` to `cur_pid`, and
each is the parent of the next. A process that `execute` starts gets an id whose control block,
kernel stack and page are of no live process, and a command that names an executable is refused
exactly when six processes are live. -/
theorem Reachable.process_table (hw : Benign wild) (h : Reachable wild ptAddr s) :
    (∀ j < maxProcessNumber, s.procs.pidCheck (BitVec.ofNat 32 j) = 1 ↔
      j ≤ s.procs.curPid.toNat) ∧
    (∀ j, s.procs.Live j → (s.procs.pcbs (pcbAddr (BitVec.ofNat 32 j))).parentPid =
      if j = 0 then -1#32 else BitVec.ofNat 32 (j - 1)) ∧
    (∀ command eip esp s', execute command s = some (.user eip esp, s') →
      ∃ i, ¬ s.procs.Live i ∧ s'.procs.curPid = BitVec.ofNat 32 i ∧ ∀ j, s.procs.Live j →
        Disjoint (kernelRegion s'.procs.curPid) (kernelRegion (BitVec.ofNat 32 j)) ∧
        Disjoint (userRegion s'.procs.curPid) (userRegion (BitVec.ofNat 32 j))) ∧
    ∀ command file arg inode m, parse command = some (file, arg) →
      checkExecutable s file = some (some inode, m) →
        (Refused command s ↔ ∀ j < maxProcessNumber, s.procs.Live j) := by
  obtain ⟨c, hc⟩ := h.exists_chain hw
  refine ⟨fun j hj => ?_, fun j hj => ?_, fun command eip esp s' hex => ?_,
    fun command file arg inode m hparse hcheck => ?_⟩
  · rw [hc.toNat_curPid, ← hc.live_iff]
    exact ⟨fun hlive => ⟨hj, hlive⟩, fun hlive => hlive.2⟩
  · rw [hc.parent j (hc.live_iff.mp hj)]
    cases j with
    | zero => rfl
    | succ j => rw [ofNat_succ_sub_one, if_neg (Nat.succ_ne_zero j), Nat.add_sub_cancel]
  · obtain ⟨t, halloc, ht⟩ := procs_of_execute_user hex
    obtain ⟨i, hi, hdead, hnew⟩ := ProcTable.not_live_of_allocate halloc
    have hcur : s'.procs.curPid = BitVec.ofNat 32 i := by rw [ht, ProcTable.curPid_start, hnew]
    refine ⟨i, hdead, hcur, fun j hj => ?_⟩
    have hne : i ≠ j := fun he => hdead (he ▸ hj)
    rw [hcur]
    exact ⟨disjoint_kernelRegion hi hj.1 hne, disjoint_userRegion hi hj.1 hne⟩
  · rw [refused_iff hparse hcheck, hc.allocate_eq_none_iff]

theorem process_table_sample :
    ∃ s₁ s₂, Reachable sampleWild 0x401000#32 s₁ ∧ Reachable sampleWild 0x401000#32 s₂ ∧
      s₁.procs.pidCheck 1#32 = 1 ∧ (s₁.procs.pcbs (pcbAddr 1#32)).parentPid = 0#32 ∧
      s₁.procs.pidCheck 2#32 ≠ 1 ∧ s₂.procs.pidCheck 0#32 = 1 ∧ s₂.procs.pidCheck 1#32 ≠ 1 := by
  obtain ⟨s₁, s₂, h₁, h₂, hc₁, hc₂⟩ := exists_family_sample
  obtain ⟨htable₁, hparent₁, -, -⟩ := h₁.process_table benign_sampleWild
  have htable₂ := (h₂.process_table benign_sampleWild).1
  rw [hc₁.curPid] at htable₁
  rw [hc₂.curPid] at htable₂
  have hlive := (htable₁ 1 (by decide)).mpr (by decide)
  exact ⟨s₁, s₂, h₁, h₂, hlive, hparent₁ 1 ⟨by decide, hlive⟩,
    mt (htable₁ 2 (by decide)).mp (by decide), (htable₂ 0 (by decide)).mpr (by decide),
    mt (htable₂ 1 (by decide)).mp (by decide)⟩

/-! ### The current process -/

/-- **The current process.** In every reachable state `cur_process_ptr`, `filed_array`, `tss.esp0`
and the page directory are those of process `cur_pid`; the memory of every live process lies in the
kernel page, its stack starts in it, and that of two live processes does not meet. -/
theorem Reachable.current_process (hw : Benign wild) (h : Reachable wild ptAddr s) :
    s.procs.curProcessPtr = endOfKernel - kernelStackSize * (s.procs.curPid + 1#32) ∧
    (s.procs.pcbs s.procs.curProcessPtr).pid = s.procs.curPid ∧
    s.procs.filedArray = s.procs.curProcessPtr ∧
    s.procs.tssEsp0 = endOfKernel - kernelStackSize * s.procs.curPid - 4#32 ∧
    s.procs.paging.DT Paging.userIndex = (2 + s.procs.curPid) <<< 22 ||| pdMask ∧
    ∀ j, s.procs.Live j →
      kernelRegion (BitVec.ofNat 32 j) ⊆ kernelPage ∧
      (s.procs.pcbs (pcbAddr (BitVec.ofNat 32 j))).tssEsp0 ∈ kernelRegion (BitVec.ofNat 32 j) ∧
      ∀ k, s.procs.Live k → j ≠ k →
        Disjoint (kernelRegion (BitVec.ofNat 32 j)) (kernelRegion (BitVec.ofNat 32 k)) := by
  obtain ⟨c, hc⟩ := h.exists_chain hw
  have htss : pcbAddr s.procs.curPid + kernelStackSize =
      endOfKernel - kernelStackSize * s.procs.curPid := by
    rw [pcbAddr, BitVec.mul_add, BitVec.mul_one]
    bv_omega
  refine ⟨?_, ?_, ?_, ?_, ?_, fun j hj => ⟨kernelRegion_subset hj.1, ?_, fun k hk hne => ?_⟩⟩
  · rw [hc.curProcessPtr, hc.curPid, pcbAddr]
  · rw [hc.curProcessPtr, hc.curPid, hc.pid c le_rfl]
  · rw [hc.filedArray, hc.curProcessPtr]
  · rw [hc.tss, ← hc.curPid, htss]
  · rw [hc.maps.user, hc.curPid, BitVec.or_comm]
  · rw [hc.esp0 j (hc.live_iff.mp hj), mem_kernelRegion hj.1]
    obtain ⟨hlt, -⟩ := hj
    clear htss
    revert j
    decide
  · exact disjoint_kernelRegion hj.1 hk.1 hne

theorem current_process_sample :
    ∃ s₁ s₂, Reachable sampleWild 0x401000#32 s₁ ∧ Reachable sampleWild 0x401000#32 s₂ ∧
      s₁.procs.curProcessPtr = 0x007FC000#32 ∧ s₁.procs.tssEsp0 = 0x007FDFFC#32 ∧
      s₁.procs.paging.DT 32 = 0x00C00087#32 ∧ s₂.procs.curProcessPtr = 0x007FE000#32 ∧
      s₂.procs.tssEsp0 = 0x007FFFFC#32 ∧ s₂.procs.paging.DT 32 = 0x00800087#32 := by
  obtain ⟨s₁, s₂, h₁, h₂, hc₁, hc₂⟩ := exists_family_sample
  obtain ⟨hptr₁, -, -, htss₁, hpage₁, -⟩ := h₁.current_process benign_sampleWild
  obtain ⟨hptr₂, -, -, htss₂, hpage₂, -⟩ := h₂.current_process benign_sampleWild
  rw [hc₁.curPid] at hptr₁ htss₁ hpage₁
  rw [hc₂.curPid] at hptr₂ htss₂ hpage₂
  exact ⟨s₁, s₂, h₁, h₂, hptr₁.trans (by decide), htss₁.trans (by decide), hpage₁.trans (by decide),
    hptr₂.trans (by decide), htss₂.trans (by decide), hpage₂.trans (by decide)⟩

end Mp3Kernel
