import Mp3Kernel.Process.Program

/-!
# Descriptors of parents and children

All system calls reach the descriptors through `filed_array`, which `execute` and `halt` aim at the
current process. While a child and its descendants run, the descriptors of the parent stay as they
are, unless `open` or `close` store a directory entry over them through the pointer that they never
set. Every process starts with the two descriptors of the terminal.

## Main definitions

* `ChildStep`: the steps while some other process than `p` is current.
* `ProcTable.inUse`: the descriptors marked in use.
* `ProcTable.Tables`: what holds of the tables of all live processes.

## Main results

* `Reachable.tables`: what a new table satisfies and `open` keeps holds of all tables.
* `inUse_of_execute`: the descriptors of a process that `execute` starts.
* `Reachable.descriptors_kept`: the descriptors of a process after its child has ended.
* `child_clears_flags`: a child that makes `open` store into the control block of its parent.

Source: `process.c`, lines 219–432.
-/

namespace Mp3Kernel

open ByteMemory Transition

variable {wild : Wild} {ptAddr : BitVec 32} {s s' : KState} {e : Event}

/-! ### New processes -/

/-- The descriptors of the current process that are marked in use. -/
def ProcTable.inUse (t : ProcTable) : Set ℕ := {fd | fd < fdarrayMax ∧ (t.fds fd).flags ≠ 0#32}

/-- With the first `k` descriptors in use, descriptor `k` is the first that is free. -/
theorem ProcTable.firstFree_of_inUse {t : ProcTable} {k : ℕ} (h : t.inUse = {fd | fd < k})
    (hk : k < fdarrayMax) : t.firstFree = some k := by
  refine firstFree_eq_some_iff.mpr ⟨hk, ?_, fun j hj => ?_⟩
  · have hnot : k ∉ t.inUse := by
      rw [h]
      exact Nat.lt_irrefl k
    exact not_not.mp fun hflags => hnot ⟨hk, hflags⟩
  · have hin : j ∈ t.inUse := by
      rw [h]
      exact hj
    exact hin.2

/-- The descriptors that `initialize_PCB` leaves, whatever the control block held before. -/
theorem initialFds_flags_ne_zero (fds : ℕ → FdEntry) {fd : ℕ} (h : fd < fdarrayMax) :
    (ProcTable.initialFds fds fd).flags ≠ 0#32 ↔ fd < 2 := by
  rw [ProcTable.initialFds]
  by_cases h2 : fd < 2
  · rw [if_pos h2]
    exact iff_of_true (by decide) h2
  · rw [if_neg h2, if_pos h]
    exact iff_of_false (by simp) h2

/-- **A process that `execute` starts** has exactly the descriptors 0 and 1 in use. -/
theorem inUse_of_execute {command : List UInt8} {eip esp : BitVec 32}
    (h : execute command s = some (.user eip esp, s')) : s'.procs.inUse = {0, 1} := by
  obtain ⟨t, -, ht⟩ := procs_of_execute_user h
  have hfds : s'.procs.fds = ProcTable.initialFds (t.pcbs (pcbAddr t.newPid)).fdArray := by
    rw [ProcTable.fds, ht, ProcTable.filedArray_start, ProcTable.fdArray_pcbs_start, if_pos rfl]
  ext fd
  show fd < fdarrayMax ∧ (s'.procs.fds fd).flags ≠ 0#32 ↔ fd = 0 ∨ fd = 1
  rw [hfds]
  constructor
  · rintro ⟨hlt, hflags⟩
    have := (initialFds_flags_ne_zero _ hlt).mp hflags
    omega
  · intro hfd
    have hlt : fd < fdarrayMax := by rw [fdarrayMax]; omega
    exact ⟨hlt, (initialFds_flags_ne_zero _ hlt).mpr (by omega)⟩

/-! ### The tables of all live processes -/

namespace ProcTable

variable {P : (ℕ → FdEntry) → Prop} {t t' : ProcTable} {c : ℕ}

/-- The tables of the processes `0` to `c` satisfy `P`. -/
def Tables (P : (ℕ → FdEntry) → Prop) (t : ProcTable) (c : ℕ) : Prop :=
  ∀ j ≤ c, P (t.pcbs (pcbAddr (BitVec.ofNat 32 j))).fdArray

/-- The table of the process that `execute` starts. -/
theorem table_start (hinit : ∀ fds, P (initialFds fds)) (t : ProcTable) (call : ℕ) :
    P ((t.start call).pcbs (pcbAddr t.newPid)).fdArray := by
  rw [fdArray_pcbs_start, if_pos rfl]
  exact hinit _

theorem Tables.start (hinit : ∀ fds, P (initialFds fds)) (h : t.Tables P c)
    (hc : t.Chain ptAddr c) (halloc : t.allocate = some t') (call : ℕ) :
    (t'.start call).Tables P (c + 1) := by
  have hnew : t'.newPid = BitVec.ofNat 32 (c + 1) := (hc.start halloc call).curPid
  intro j hj
  rcases Nat.le_succ_iff.mp hj with hj | rfl
  · rw [hc.fdArray_start halloc call hj]
    exact h j hj
  · rw [← hnew]
    exact table_start hinit t' call

theorem Idle.tables_start (hinit : ∀ fds, P (initialFds fds)) (h : t.Idle ptAddr)
    (halloc : t.allocate = some t') (call : ℕ) : (t'.start call).Tables P 0 := by
  have hnew : t'.newPid = BitVec.ofNat 32 0 := (h.start halloc call).curPid
  intro j hj
  obtain rfl := Nat.le_zero.mp hj
  rw [← hnew]
  exact table_start hinit t' call

/-- `halt` leaves the tables of the other processes alone. -/
theorem Tables.leave (h : t.Tables P (c + 1)) (hc : t.Chain ptAddr (c + 1)) :
    t.leave.Tables P c := by
  intro j hj
  have hlt := hc.lt
  have hne : pcbAddr (BitVec.ofNat 32 j) ≠ pcbAddr (BitVec.ofNat 32 (c + 1)) := fun he => by
    have := (pcbAddr_inj (by omega) hlt).mp he
    omega
  obtain ⟨fds, hpcb⟩ := pcbs_leave t (pcbAddr (BitVec.ofNat 32 j))
  rw [hpcb, hc.filedArray, if_neg hne]
  exact h j (Nat.le_succ_of_le hj)

theorem Tables.setFd {fd : ℕ} {e : FdEntry}
    (hset : ∀ fds, P fds → P (Function.update fds fd e)) (h : t.Tables P c) :
    (t.setFd fd e).Tables P c := by
  intro j hj
  rw [pcbs_setFd]
  by_cases hcur : pcbAddr (BitVec.ofNat 32 j) = t.filedArray
  · simp only [if_pos hcur]
    refine hset _ ?_
    rw [fds, ← hcur]
    exact h j hj
  · simp only [if_neg hcur]
    exact h j hj

end ProcTable

/-- The processes `0` to some `c` are live, and their tables satisfy `P`. -/
def ProcTable.AllTables (P : (ℕ → FdEntry) → Prop) (ptAddr : BitVec 32) (t : ProcTable) : Prop :=
  ∃ c, t.Chain ptAddr c ∧ t.Tables P c

section AllTables

variable {P : (ℕ → FdEntry) → Prop} (hinit : ∀ fds, P (ProcTable.initialFds fds))
  (hset : ∀ fds fd m current, P fds → P (Function.update fds fd (openedEntry m current)))

include hinit hset

/-- **The step lemma**: what a new table satisfies and `open` keeps, every step keeps. -/
theorem KState.Step.allTables (hw : Benign wild) (hs : s.Step wild e s') (he : e.Scratch)
    (h : s.procs.AllTables P ptAddr) : s'.procs.AllTables P ptAddr := by
  obtain ⟨c, hc, htables⟩ := h
  cases hs.change he with
  | execute hex =>
    rcases execute_cases hex with ⟨m, -, rfl⟩ | ⟨t, m, halloc, -, rfl⟩
    · exact ⟨c, hc, htables⟩
    · exact ⟨c + 1, hc.start halloc _, htables.start hinit hc halloc _⟩
  | halt hcur hhalt =>
    rcases halt_cases hw hcur hhalt with ⟨hroot, ⟨eip, esp, rfl⟩, hex⟩ | ⟨hchild, -, -, _, -, hout⟩
    · obtain rfl := hc.parentPid_eq_iff.mp hroot
      obtain ⟨t, halloc, ht⟩ := procs_of_execute_user hex
      rw [ht]
      exact ⟨0, hc.release.start halloc _, hc.release.tables_start hinit halloc _⟩
    · obtain ⟨c, rfl⟩ := Nat.exists_eq_succ_of_ne_zero (mt hc.parentPid_eq_iff.mpr hchild)
      have hleave := htables.leave hc
      rcases hout with ⟨-, -, ht⟩ | ⟨-, -, ht⟩
      · rw [ht]
        exact ⟨c, hc.leave, hleave⟩
      · rw [ht]
        exact ⟨c, hc.leave.setTss, fun j hj => hleave j hj⟩
  | sysOpen hcur hopen =>
    rcases sysOpen_cases hw hcur hopen with ⟨hkeeps, -⟩ | ⟨m, fd, -, -, -, ht, -⟩
    · rw [hkeeps.procs]
      exact ⟨c, hc, htables⟩
    · rw [ht]
      exact ⟨c, hc.setFd fd _, htables.setFd fun fds h => hset fds fd m _ h⟩
  | effects h =>
    rw [(h.keeps hw).procs]
    exact ⟨c, hc, htables⟩

/-- What a new table satisfies and `open` keeps holds of the tables of all live processes, in every
reachable state. -/
theorem Reachable.tables (hw : Benign wild) (h : Reachable wild ptAddr s) :
    s.procs.AllTables P ptAddr := by
  obtain ⟨boot, s₀, eip, esp, events, hboot, hex, hrun⟩ := h
  refine hrun.invariant (P := fun s => s.procs.AllTables P ptAddr)
    (fun _ _ _ hc hs => hs.2.allTables hinit hset hw hs.1 hc) ?_
  obtain ⟨t, halloc, ht⟩ := procs_of_execute_user hex
  rw [ht]
  exact ⟨0, hboot.idle.start halloc _, hboot.idle.tables_start hinit halloc _⟩

/-- It holds of the table of the current process. -/
theorem Reachable.table (hw : Benign wild) (h : Reachable wild ptAddr s) : P s.procs.fds := by
  obtain ⟨c, hc, htables⟩ := h.tables hinit hset hw
  rw [ProcTable.fds, hc.filedArray]
  exact htables c le_rfl

end AllTables

/-- In every reachable state the descriptors of the terminal are in use. -/
theorem Reachable.terminal_inUse (hw : Benign wild) (h : Reachable wild ptAddr s) :
    ∀ fd < 2, (s.procs.fds fd).flags ≠ 0#32 := by
  refine h.table (P := fun fds => ∀ fd < 2, (fds fd).flags ≠ 0#32) (fun fds fd hfd => ?_)
    (fun fds k m current hfds fd hfd => ?_) hw
  · exact (initialFds_flags_ne_zero fds (hfd.trans (by decide))).mpr hfd
  · by_cases hk : fd = k
    · rw [hk, Function.update_self]
      exact (by decide : (1#32 : BitVec 32) ≠ 0#32)
    · rw [Function.update_of_ne hk]
      exact hfds fd hfd

/-! ### The parent's descriptors -/

/-- The steps in states in which process `p` is not current. -/
def ChildStep (wild : Wild) (p : BitVec 32) : KState → Event → KState → Prop :=
  Guarded (fun s _ => s.procs.curPid ≠ p) (KState.Step wild)

/-- Process `p` is live, and its descriptors are `fds`. -/
def ProcTable.Parent (ptAddr : BitVec 32) (t : ProcTable) (p : ℕ) (fds : ℕ → FdEntry) : Prop :=
  ∃ c, p ≤ c ∧ t.Chain ptAddr c ∧ (t.pcbs (pcbAddr (BitVec.ofNat 32 p))).fdArray = fds

/-- The process that `execute` leaves waits with the descriptors it has. -/
theorem ProcTable.Chain.parent_start {t t' : ProcTable} {p : ℕ} (h : t.Chain ptAddr p)
    (halloc : t.allocate = some t') (call : ℕ) : (t'.start call).Parent ptAddr p t.fds := by
  refine ⟨p + 1, Nat.le_succ p, h.start halloc call, ?_⟩
  rw [h.fdArray_start halloc call le_rfl, fds, h.filedArray]

/-- **The step lemma**: a step of a descendant keeps the parent's descriptors. -/
theorem ChildStep.parent (hw : Benign wild) {p : ℕ} {fds : ℕ → FdEntry}
    (hs : ChildStep wild (BitVec.ofNat 32 p) s e s') (he : e.Scratch)
    (h : s.procs.Parent ptAddr p fds) : s'.procs.Parent ptAddr p fds := by
  obtain ⟨c, hle, hc, hfds⟩ := h
  obtain ⟨hne, hs⟩ := hs
  have hlt : p < c := Nat.lt_of_le_of_ne hle fun he => hne (he ▸ hc.curPid)
  have hc6 := hc.lt
  have haddr (j : ℕ) (hj : p < j) (hj6 : j < maxProcessNumber) :
      pcbAddr (BitVec.ofNat 32 p) ≠ pcbAddr (BitVec.ofNat 32 j) := fun he => by
    have := (pcbAddr_inj (by omega) hj6).mp he
    omega
  cases hs.change he with
  | execute hex =>
    rcases execute_cases hex with ⟨m, -, rfl⟩ | ⟨t, m, halloc, -, rfl⟩
    · exact ⟨c, hle, hc, hfds⟩
    · refine ⟨c + 1, by omega, hc.start halloc s.calls, ?_⟩
      rw [hc.fdArray_start halloc s.calls hle, hfds]
  | halt hcur hhalt =>
    rcases halt_cases hw hcur hhalt with ⟨hroot, -⟩ | ⟨hchild, -, -, call, -, hout⟩
    · have := hc.parentPid_eq_iff.mp hroot
      omega
    · obtain ⟨c, rfl⟩ := Nat.exists_eq_succ_of_ne_zero (mt hc.parentPid_eq_iff.mpr hchild)
      have hkept : (s.procs.leave.pcbs (pcbAddr (BitVec.ofNat 32 p))).fdArray = fds := by
        obtain ⟨fds', hpcb⟩ := ProcTable.pcbs_leave s.procs (pcbAddr (BitVec.ofNat 32 p))
        rw [hpcb, hc.filedArray, if_neg (haddr (c + 1) hlt hc6), hfds]
      rcases hout with ⟨-, -, ht⟩ | ⟨-, -, ht⟩
      · rw [ht]
        exact ⟨c, by omega, hc.leave, hkept⟩
      · rw [ht]
        exact ⟨c, by omega, hc.leave.setTss, hkept⟩
  | sysOpen hcur hopen =>
    rcases sysOpen_cases hw hcur hopen with ⟨hkeeps, -⟩ | ⟨m, fd, -, -, -, ht, -⟩
    · rw [hkeeps.procs]
      exact ⟨c, hle, hc, hfds⟩
    · rw [ht]
      refine ⟨c, hle, hc.setFd fd _, ?_⟩
      rw [ProcTable.pcbs_setFd, hc.filedArray, if_neg (haddr c hlt hc6), hfds]
  | effects h =>
    rw [(h.keeps hw).procs]
    exact ⟨c, hle, hc, hfds⟩

/-- **A child cannot disturb its parent's descriptors.** In every reachable state a process starts a
child; whatever the child and its descendants do, as long as the pointer that `open` and `close` do
not set designates scratch memory, when the process is current again it has the descriptors it had,
and `filed_array` designates them. Every process that is started, in this or any
other state, has exactly the descriptors 0 and 1 in use. -/
theorem Reachable.descriptors_kept (hw : Benign wild) (h : Reachable wild ptAddr s)
    {command : List UInt8} {eip esp : BitVec 32} {s₁ s₂ : KState}
    (hex : execute command s = some (.user eip esp, s₁)) {events : List Event}
    (hrun : Run (Guarded (fun _ e => e.Scratch) (ChildStep wild s.procs.curPid)) s₁ events s₂)
    (hback : s₂.procs.curPid = s.procs.curPid) :
    s₂.procs.fds = s.procs.fds ∧ s₂.procs.filedArray = s.procs.filedArray ∧
      ∀ (t t' : KState) (command : List UInt8) (eip esp : BitVec 32),
        execute command t = some (.user eip esp, t') → t'.procs.inUse = {0, 1} := by
  obtain ⟨p, hp⟩ := h.exists_chain hw
  have hp6 := hp.lt
  obtain ⟨t, halloc, ht⟩ := procs_of_execute_user hex
  have hparent : s₁.procs.Parent ptAddr p s.procs.fds := by
    rw [ht]
    exact hp.parent_start halloc s.calls
  rw [hp.curPid] at hrun hback
  obtain ⟨c, hle, hc, hfds⟩ := hrun.invariant (P := fun s' => s'.procs.Parent ptAddr p s.procs.fds)
    (fun _ _ _ h hs => hs.2.parent hw hs.1 h) hparent
  obtain rfl : p = c := (ofNat_inj hp6 hc.lt).mp (hback.symm.trans hc.curPid)
  refine ⟨?_, ?_, fun t t' command eip esp hex => inUse_of_execute hex⟩
  · rw [ProcTable.fds, hc.filedArray, hfds]
  · rw [hc.filedArray, hp.filedArray]

theorem descriptors_kept_sample :
    ∃ s s₁ s₂ eip esp, Reachable sampleWild 0x401000#32 s ∧
      execute shell s = some (.user eip esp, s₁) ∧
      Run (Guarded (fun _ e => e.Scratch) (ChildStep sampleWild s.procs.curPid)) s₁
        [.halt 0 sampleCurrents] s₂ ∧ s₂.procs.fds = s.procs.fds := by
  obtain ⟨s, s₁, s₂, eip, esp, o, h, hex, hhalt, hc, hc₁, hc₂⟩ := exists_child_sample
  have hrun : Run (Guarded (fun _ e => e.Scratch) (ChildStep sampleWild s.procs.curPid)) s₁
      [.halt 0 sampleCurrents] s₂ := by
    refine .single ⟨sampleCurrents_mem, ?_, .halt hhalt⟩
    show s₁.procs.curPid ≠ s.procs.curPid
    rw [hc.curPid, hc₁.curPid]
    decide
  have hback : s₂.procs.curPid = s.procs.curPid := by rw [hc.curPid, hc₂.curPid]
  exact ⟨s, s₁, s₂, eip, esp, h, hex, hrun,
    (h.descriptors_kept benign_sampleWild hex hrun hback).1⟩

/-- The clock is found under the name that its own entry holds. -/
theorem lookup_clock_sample (hm : Set.EqOn s.mem sampleMem (Ptr.inBlock .flat)) :
    sampleBoot.fs.lookup s.mem (s.userPtr 0x500080#32) = some (some 1) := by
  have hon : sampleBoot.fs.OnBlock .flat := FileSystem.onBlock_filesystemInit _ _
  have hlen : HasLength sampleMem (Dentry.fileName (sampleBoot.fs.dentry 1)) 3 :=
    ⟨by decide, by decide⟩
  have hptr : s.userPtr 0x500080#32 = Dentry.fileName (sampleBoot.fs.dentry 1) := by
    rw [KState.userPtr, if_neg (by decide)]
    decide
  rw [hptr, FileSystem.lookup_congr_of_hasLength hon hm hlen fun k _ => hm rfl]
  refine FileSystem.scanDentry_eq_some_some.mpr ⟨Nat.zero_le 1, by decide,
    ⟨3, hlen, fun _ _ => rfl⟩, fun k _ hk => ?_⟩
  obtain rfl : k = 0 := by omega
  exact ⟨5, ⟨by decide, by decide⟩, fun hp => absurd (hp 0 (by decide)) (by decide)⟩

/-- The child opens the clock with `current` at `fdCurrent`. -/
theorem exists_strayOpen_sample (hfs : s.fs = sampleBoot.fs)
    (hmem : Set.EqOn s.mem sampleMem (Ptr.inBlock .flat)) (hc : s.procs.Chain 0x401000#32 1)
    (hused : s.procs.inUse = {0, 1}) :
    ∃ s', sysOpen sampleWild 0x500080#32 fdCurrent s = some (2#32, s') ∧ s'.fs = sampleBoot.fs ∧
      (∀ k < 0x1000, s'.mem (sampleBoot.fs.bootblockHead.shift k) =
        sampleMem (sampleBoot.fs.bootblockHead.shift k)) ∧
      s'.procs.Chain 0x401000#32 1 ∧
      (s'.procs.pcbs (pcbAddr 0#32)).scheduledEbp =
        (s.procs.pcbs (pcbAddr 0#32)).scheduledEbp ∧
      ((s'.procs.pcbs (pcbAddr 0#32)).fdArray 1).flags = 0#32 := by
  have hcurrent : fdCurrent = sampleBoot.fs.bootblockHead.shift 0x2FDFFC := by decide
  obtain ⟨m, hfound, hm, htype, -⟩ := exists_readClock_sample (c := 0x2FDFFC) hmem
    (KState.userPtr_ne_null (by decide)) (lookup_clock_sample hmem) (by decide) (by decide)
  rw [← hcurrent] at hfound hm htype
  rw [← hfs] at hfound
  have h0 : ¬ ((0x500080#32 : BitVec 32) = 0#32 ∨ s.procs.filedArray = 0#32) := by
    rw [hc.filedArray]
    decide
  set t := s.procs.setFds (pcbAddr 0#32) (strayFds m (s.procs.pcbs (pcbAddr 0#32)).fdArray) with ht
  have hother : s.procs.filedArray ≠ pcbAddr 0#32 := by
    rw [hc.filedArray]
    decide
  -- The table of the child is as it was.
  have hfds : t.fds = s.procs.fds := by
    show (t.pcbs s.procs.filedArray).fdArray = _
    rw [ht, ProcTable.pcbs_setFds, if_neg hother]
    rfl
  have hfree : t.firstFree = some 2 := by
    refine ProcTable.firstFree_of_inUse (Eq.trans ?_ (hused.trans ?_)) (by decide)
    · rw [ProcTable.inUse, hfds, ProcTable.inUse]
    · ext fd
      exact Nat.le_one_iff_eq_zero_or_eq_one.symm.trans Nat.lt_succ_iff.symm
  have hopen := sysOpen_of_stored sampleWild h0 hfound (stored_fdCurrent _)
  dsimp only at hopen
  rw [hfree] at hopen
  have hdriver : (openedEntry m fdCurrent).fileotPointer = .entry 0#32 := by
    rw [openedEntry, htype]
  set e := openedEntry m fdCurrent
  rw [hdriver] at hopen
  have hpcb : (t.setFd 2 e).pcbs (pcbAddr 0#32) = t.pcbs (pcbAddr 0#32) := by
    rw [ProcTable.pcbs_setFd]
    exact congrArg (fun fds => { t.pcbs (pcbAddr 0#32) with fdArray := fds })
      (if_neg (Ne.symm hother))
  refine ⟨{ s with mem := m, rtcFreq := 2, procs := t.setFd 2 e }, hopen, hfs, fun k hk => ?_,
    (hc.setFds _ _).setFd _ _, ?_, ?_⟩
  · refine (hm ?_).trans (hmem rfl)
    rw [hcurrent]
    exact Ptr.shift_notMem_span_shift (.inl (by omega)) (by omega) (by decide)
  · show ((t.setFd 2 e).pcbs (pcbAddr 0#32)).scheduledEbp = _
    rw [hpcb, ht, ProcTable.pcbs_setFds]
  · show (((t.setFd 2 e).pcbs (pcbAddr 0#32)).fdArray 1).flags = 0#32
    rw [hpcb, ht, ProcTable.fdArray_setFds, strayFds, Function.update_of_ne (by decide),
      Function.update_self]
    exact htype

/-- **A child that plants a pointer.** A child passes the address below the control block of its
parent to a `read` that fails, which leaves it on the kernel stack, and opens the clock: the entry
that `open` stores there clears the flags of the parent's descriptor 1. -/
theorem child_clears_flags :
    ∃ s s₁ s₂ eip esp, Reachable sampleWild 0x401000#32 s ∧
      execute shell s = some (.user eip esp, s₁) ∧
      Run (ChildStep sampleWild s.procs.curPid) s₁
        [.sysRead 0x7FDFFC#32 userMem 0#32 Ptr.null, .sysOpen 0x500080#32 ⟨.flat, 0x7FDFFC#32⟩,
          .halt 0 sampleCurrents] s₂ ∧
      s₂.procs.curPid = s.procs.curPid ∧ (s.procs.fds 1).flags ≠ 0#32 ∧
      (s₂.procs.fds 1).flags = 0#32 := by
  obtain ⟨s, s₁, eip, esp, h, hex, hfs, hmem, hc, hc₁, hframe⟩ := exists_started_sample
  have hread : sysRead sampleWild 0x7FDFFC#32 userMem 0#32 Ptr.null s₁ = some (failure, s₁) :=
    sysRead_of_not_accepts _ fun ha => ha.2.1 (.inl (by decide))
  obtain ⟨s₃, hopen, hfs₃, hmem₃, hc₃, hframe₃, hflags⟩ :=
    exists_strayOpen_sample hfs hmem hc₁ (inUse_of_execute hex)
  obtain ⟨o, s₂, hhalt, hc₂, hfds⟩ := exists_childHalt_sample hfs₃ hmem₃ hc₃ (hframe₃.trans hframe)
  have hchild {t : KState} (ht : t.procs.Chain 0x401000#32 1) :
      t.procs.curPid ≠ s.procs.curPid := by
    rw [ht.curPid, hc.curPid]
    decide
  refine ⟨s, s₁, s₂, eip, esp, h, hex, .cons ⟨hchild hc₁, .sysRead hread⟩
    (.cons ⟨hchild hc₁, .sysOpen hopen⟩ (.single ⟨hchild hc₃, .halt hhalt⟩)), ?_, ?_, ?_⟩
  · rw [hc.curPid, hc₂.curPid]
  · exact h.terminal_inUse benign_sampleWild 1 (by decide)
  · rw [hfds]
    exact hflags

end Mp3Kernel
