import Mp3Kernel.FileSystem.Blocks
import Mp3Kernel.Process.Execute
import Mp3Kernel.Transition.Run

/-!
# Runs of the kernel

The kernel runs one program at a time. Between two system calls the program stores into its page,
keys are pressed, and the kernel stacks are used for something else, so that the local variables of
system calls hold anything at the start of the next.

## Main definitions

* `Event`, `KState.Step`: what happens, and to which states it leads.
* `Event.Scratch`: the uninitialised pointers of `open` and `close` designate scratch memory.
* `KState.IsBoot`, `Reachable`: the state in which the kernel starts the shell, and the states of
  all such runs from there.
* `ProcTable.Chain`: the processes `0` to `c` are live, and each is the parent of the next.

## Main results

* `ProcTable.Chain.start`, `ProcTable.Chain.leave`: `execute` and `halt` at the top of the chain.
* `Reachable.exists_chain`: in every reachable state the processes form a chain.

Source: `process.c`; `kernel.c`, lines 28–171.
-/

namespace Mp3Kernel

open ByteMemory Transition

/-! ### Events -/

/-- What can happen while a program runs. -/
inductive Event
  /-- The system call `execute`, with the command as a string. -/
  | execute (command : List UInt8)
  /-- The system call `halt`, with the uninitialised pointers of its calls of `close`. -/
  | halt (status : UInt8) (currents : ℕ → Ptr Block)
  /-- The system call `open`, with the uninitialised pointer. -/
  | sysOpen (filename : BitVec 32) (current : Ptr Block)
  /-- The system call `close`, with the uninitialised pointer. -/
  | sysClose (i : BitVec 32) (current : Ptr Block)
  /-- The system call `read`, with the uninitialised name pointer. -/
  | sysRead (fd buf n : BitVec 32) (probe : Ptr Block)
  /-- The system call `write`. -/
  | sysWrite (fd buf n : BitVec 32)
  /-- The program stores into its page. -/
  | user
  /-- Kernel stacks are used again. -/
  | stack
  /-- A keyboard interrupt. -/
  | key (scancode : UInt8)

/-- The steps of the kernel. -/
inductive KState.Step (wild : Wild) : KState → Event → KState → Prop
  | execute {s s' : KState} {o : Outcome} {command : List UInt8} :
      execute command s = some (o, s') → Step wild s (.execute command) s'
  | halt {s s' : KState} {o : Outcome} {status : UInt8} {currents : ℕ → Ptr Block} :
      halt wild status currents s = some (o, s') → Step wild s (.halt status currents) s'
  | sysOpen {s s' : KState} {r filename : BitVec 32} {current : Ptr Block} :
      sysOpen wild filename current s = some (r, s') → Step wild s (.sysOpen filename current) s'
  | sysClose {s s' : KState} {r i : BitVec 32} {current : Ptr Block} :
      sysClose wild i current s = some (r, s') → Step wild s (.sysClose i current) s'
  | sysRead {s s' : KState} {r fd buf n : BitVec 32} {probe : Ptr Block} :
      sysRead wild fd buf n probe s = some (r, s') → Step wild s (.sysRead fd buf n probe) s'
  | sysWrite {s s' : KState} {r fd buf n : BitVec 32} :
      sysWrite wild fd buf n s = some (r, s') → Step wild s (.sysWrite fd buf n) s'
  | user {s : KState} {m : Mem Block} :
      Set.EqOn m s.mem {p | p.blk = .page s.userFrameNumber}ᶜ →
        Step wild s .user { s with mem := m }
  | stack {s : KState} {m : Mem Block} :
      Set.EqOn m s.mem {p | ∃ name, p.blk = .var name}ᶜ → Step wild s .stack { s with mem := m }
  | key {s : KState} {scancode : UInt8} :
      Step wild s (.key scancode) { s with console := s.console.handleKeyboardIrq scancode }

/-- The pointers `current` of `open` and `close`, which are never set and hold what earlier calls
have left on the kernel stack, designate scratch memory. -/
def Event.Scratch : Event → Prop
  | .sysOpen _ current | .sysClose _ current => current ∈ stackVars
  | .halt _ currents => ∀ fd, currents fd ∈ stackVars
  | _ => True

/-- The steps in which the uninitialised pointers designate scratch memory. -/
abbrev KState.ScratchStep (wild : Wild) : KState → Event → KState → Prop :=
  Guarded (fun _ e => e.Scratch) (KState.Step wild)

/-- The state in which the kernel starts the shell, with the page table at `ptAddr`. -/
structure KState.IsBoot (ptAddr : BitVec 32) (s : KState) : Prop where
  /-- No process is live. -/
  pidCheck : ∀ i < maxProcessNumber, s.procs.pidCheck (BitVec.ofNat 32 i) = 0
  /-- `cur_pid`. -/
  curPid : s.procs.curPid = -1#32
  /-- `new_pid`. -/
  newPid : s.procs.newPid = -1#32
  /-- `cur_process_ptr`. -/
  curProcessPtr : s.procs.curProcessPtr = 0#32
  /-- `filed_array`. -/
  filedArray : s.procs.filedArray = 0#32
  /-- The page tables are as `paging_init` leaves them. -/
  paging : ∃ p : Paging, s.procs.paging = p.pagingInit ptAddr
  /-- The file system is as `filesystem_init` leaves it, for an image in the flat address space. -/
  fs : ∃ addr, s.fs = filesystemInit ⟨.flat, addr⟩ s.mem
  /-- `issue.rtc_freq`. -/
  rtcFreq : s.rtcFreq = 0

/-- The states after the shell has been started, in any run of the given steps from there. -/
def ReachableBy (step : KState → Event → KState → Prop) (ptAddr : BitVec 32) (s : KState) : Prop :=
  ∃ boot s₀ eip esp events, boot.IsBoot ptAddr ∧
    execute shell boot = some (.user eip esp, s₀) ∧ Run step s₀ events s

/-- The states after the shell has been started, in any run from there in which the uninitialised
pointers designate scratch memory. -/
def Reachable (wild : Wild) (ptAddr : BitVec 32) (s : KState) : Prop :=
  ReachableBy (KState.ScratchStep wild) ptAddr s

/-! ### Addresses of control blocks -/

theorem toNat_pcbAddr {j : ℕ} (hj : j < maxProcessNumber) :
    (pcbAddr (BitVec.ofNat 32 j)).toNat = 0x800000 - 0x2000 * (j + 1) := by
  revert j
  decide

theorem pcbAddr_inj {j k : ℕ} (hj : j < maxProcessNumber) (hk : k < maxProcessNumber) :
    pcbAddr (BitVec.ofNat 32 j) = pcbAddr (BitVec.ofNat 32 k) ↔ j = k := by
  constructor
  · intro h
    have h' := congrArg BitVec.toNat h
    rw [toNat_pcbAddr hj, toNat_pcbAddr hk] at h'
    simp only [maxProcessNumber] at hj hk
    omega
  · rintro rfl
    rfl

theorem ofNat_inj {j k : ℕ} (hj : j < maxProcessNumber) (hk : k < maxProcessNumber) :
    BitVec.ofNat 32 j = BitVec.ofNat 32 k ↔ j = k := by
  simp only [maxProcessNumber] at hj hk
  rw [← BitVec.toNat_inj, BitVec.toNat_ofNat, BitVec.toNat_ofNat]
  omega

theorem ofNat_ne_neg_one {j : ℕ} (hj : j < maxProcessNumber) : BitVec.ofNat 32 j ≠ -1#32 := by
  revert j
  decide

theorem ofNat_succ_sub_one (j : ℕ) : BitVec.ofNat 32 (j + 1) - 1#32 = BitVec.ofNat 32 j := by
  rw [BitVec.ofNat_add, BitVec.add_sub_cancel]

/-! ### The chain of processes -/

namespace ProcTable

/-- No process is live, and the page tables are those of `paging_init` but for the user page. -/
structure Idle (ptAddr : BitVec 32) (t : ProcTable) : Prop where
  /-- Every process id is free. -/
  free : ∀ i < maxProcessNumber, t.pidCheck (BitVec.ofNat 32 i) = 0
  /-- `cur_pid`. -/
  curPid : t.curPid = -1#32
  /-- The page directory. -/
  dt : ∀ i < tableSize, i ≠ Paging.userIndex → t.paging.DT i = Paging.dtEntry ptAddr i
  /-- The page table. -/
  pt : ∀ i < tableSize, t.paging.PT i = Paging.ptEntry i

/-- The processes `0` to `c` are live, each is the parent of the next, the first has no parent, and
all views of the current process are of process `c`. -/
structure Chain (ptAddr : BitVec 32) (t : ProcTable) (c : ℕ) : Prop where
  /-- There are at most six processes. -/
  lt : c < maxProcessNumber
  /-- The live processes. -/
  live : ∀ j < maxProcessNumber, t.pidCheck (BitVec.ofNat 32 j) = if j ≤ c then 1 else 0
  /-- `pid` of every live process. -/
  pid : ∀ j ≤ c, (t.pcbs (pcbAddr (BitVec.ofNat 32 j))).pid = BitVec.ofNat 32 j
  /-- `parent_pid` of every live process, which is `-1` for the first. -/
  parent : ∀ j ≤ c, (t.pcbs (pcbAddr (BitVec.ofNat 32 j))).parentPid = BitVec.ofNat 32 j - 1#32
  /-- `tss_esp0` of every live process. -/
  esp0 : ∀ j ≤ c, (t.pcbs (pcbAddr (BitVec.ofNat 32 j))).tssEsp0 =
    pcbAddr (BitVec.ofNat 32 j) + kernelStackSize - 4#32
  /-- `cur_pid`. -/
  curPid : t.curPid = BitVec.ofNat 32 c
  /-- `cur_process_ptr`. -/
  curProcessPtr : t.curProcessPtr = pcbAddr (BitVec.ofNat 32 c)
  /-- `filed_array`. -/
  filedArray : t.filedArray = pcbAddr (BitVec.ofNat 32 c)
  /-- `tss.esp0`. -/
  tss : t.tssEsp0 = pcbAddr (BitVec.ofNat 32 c) + kernelStackSize - 4#32
  /-- The user page. -/
  maps : t.paging.Maps ptAddr (BitVec.ofNat 32 c)

variable {ptAddr : BitVec 32} {t t' : ProcTable} {c : ℕ}

/-- With no process live, `execute` starts process `0`, whose parent is process `-1`. -/
theorem Idle.start (h : t.Idle ptAddr) (halloc : t.allocate = some t') (call : ℕ) :
    (t'.start call).Chain ptAddr 0 := by
  obtain ⟨i, hi, hfree, hfirst, rfl⟩ := allocate_eq_some halloc
  obtain rfl : i = 0 := by
    by_contra h0
    exact hfirst 0 (Nat.pos_of_ne_zero h0) (h.free 0 (by decide))
  constructor
  · decide
  · intro j hj
    simp only [pidCheck_start, Function.update_apply, ofNat_inj hj hi, h.free j hj, Nat.le_zero]
  · intro j hj
    rw [Nat.le_zero.mp hj, pid_pcbs_start, if_pos rfl]
  · intro j hj
    rw [Nat.le_zero.mp hj, parentPid_pcbs_start, if_pos rfl]
    exact h.curPid
  · intro j hj
    rw [Nat.le_zero.mp hj, tssEsp0_pcbs_start, if_pos rfl]
  · rfl
  · rfl
  · rfl
  · exact tssEsp0_start _ call
  · exact Paging.maps_mapUser h.dt h.pt

/-- `execute` starts the process behind the last of the chain. -/
theorem Chain.start (h : t.Chain ptAddr c) (halloc : t.allocate = some t') (call : ℕ) :
    (t'.start call).Chain ptAddr (c + 1) := by
  obtain ⟨i, hi, hfree, hfirst, rfl⟩ := allocate_eq_some halloc
  have hlt := h.lt
  obtain rfl : i = c + 1 := by
    have hci : c < i := by
      by_contra hle
      rw [h.live i hi, if_pos (Nat.not_lt.mp hle)] at hfree
      exact absurd hfree (by decide)
    by_contra hne
    refine hfirst (c + 1) (by omega) ?_
    rw [h.live (c + 1) (by omega), if_neg (by omega)]
  -- Every process below the new one keeps its control block, but for the frame that is saved.
  have hother (j : ℕ) (hj : j ≤ c) :
      pcbAddr (BitVec.ofNat 32 j) ≠ pcbAddr (BitVec.ofNat 32 (c + 1)) := fun he => by
    have := (pcbAddr_inj (by omega) hi).mp he
    omega
  constructor
  · exact hi
  · intro j hj
    simp only [pidCheck_start, Function.update_apply, ofNat_inj hj hi, h.live j hj]
    by_cases hjc : j ≤ c
    · rw [if_neg (by omega), if_pos hjc, if_pos (by omega)]
    · simp only [if_neg hjc, Nat.le_add_one_iff.trans (or_iff_right hjc)]
  · intro j hj
    rw [pid_pcbs_start]
    rcases Nat.le_succ_iff.mp hj with hj | rfl
    · rw [if_neg (hother j hj), h.pid j hj]
    · rw [if_pos rfl]
  · intro j hj
    rw [parentPid_pcbs_start]
    rcases Nat.le_succ_iff.mp hj with hj | rfl
    · rw [if_neg (hother j hj), h.parent j hj]
    · rw [if_pos rfl, ofNat_succ_sub_one]
      exact h.curPid
  · intro j hj
    rw [tssEsp0_pcbs_start]
    rcases Nat.le_succ_iff.mp hj with hj | rfl
    · rw [if_neg (hother j hj), h.esp0 j hj]
    · rw [if_pos rfl]
  · rfl
  · rfl
  · rfl
  · exact tssEsp0_start _ call
  · exact Paging.maps_mapUser h.maps.dt h.maps.pt

/-- `execute` leaves the descriptors of every process of the chain alone. -/
theorem Chain.fdArray_start (h : t.Chain ptAddr c) (halloc : t.allocate = some t') (call : ℕ)
    {j : ℕ} (hj : j ≤ c) : ((t'.start call).pcbs (pcbAddr (BitVec.ofNat 32 j))).fdArray =
      (t.pcbs (pcbAddr (BitVec.ofNat 32 j))).fdArray := by
  have hstart := h.start halloc call
  have hlt := hstart.lt
  have hnew : t'.newPid = BitVec.ofNat 32 (c + 1) := hstart.curPid
  rw [fdArray_pcbs_start, hnew, if_neg, pcbs_of_allocate halloc]
  intro he
  have := (pcbAddr_inj (by omega) hlt).mp he
  omega

/-- `execute` saves its frame in the control block of the process that calls it. -/
theorem Chain.scheduledEbp_start (h : t.Chain ptAddr c) (halloc : t.allocate = some t')
    (call : ℕ) : ((t'.start call).pcbs (pcbAddr (BitVec.ofNat 32 c))).scheduledEbp =
      some (.initializePCB call) := by
  have hcur : t'.curPid = BitVec.ofNat 32 c := (curPid_of_allocate halloc).trans h.curPid
  rw [scheduledEbp_pcbs_start, hcur, if_pos ⟨ofNat_ne_neg_one h.lt, rfl⟩]

theorem Chain.parentPid (h : t.Chain ptAddr c) : t.parentPid = BitVec.ofNat 32 c - 1#32 := by
  rw [ProcTable.parentPid, h.curProcessPtr, h.parent c le_rfl]

/-- The first process has no parent, and only it. -/
theorem Chain.parentPid_eq_iff (h : t.Chain ptAddr c) : t.parentPid = -1#32 ↔ c = 0 := by
  rw [h.parentPid]
  cases c with
  | zero => simp
  | succ c =>
    rw [ofNat_succ_sub_one]
    exact iff_of_false (ofNat_ne_neg_one (Nat.lt_of_succ_lt h.lt)) (Nat.succ_ne_zero c)

/-- `halt` of the first process leaves no process live. -/
theorem Chain.release (h : t.Chain ptAddr 0) :
    ({ t.release with curPid := -1#32 } : ProcTable).Idle ptAddr := by
  refine ⟨fun i hi => ?_, rfl, h.maps.dt, h.maps.pt⟩
  show Function.update t.pidCheck t.curPid 0 (BitVec.ofNat 32 i) = 0
  rw [h.curPid, Function.update_apply]
  by_cases h0 : i = 0
  · rw [h0, if_pos rfl]
  · rw [if_neg (mt (ofNat_inj hi h.lt).mp h0), h.live i hi, if_neg (by omega)]

/-- `halt` of a later process ends the last of the chain. -/
theorem Chain.leave (h : t.Chain ptAddr (c + 1)) : t.leave.Chain ptAddr c := by
  have hlt := h.lt
  have hparent : t.parentPid = BitVec.ofNat 32 c := by rw [h.parentPid, ofNat_succ_sub_one]
  constructor
  · omega
  · intro j hj
    simp only [pidCheck_leave, h.curPid, Function.update_apply, ofNat_inj hj hlt, h.live j hj]
    by_cases hjc : j = c + 1
    · rw [if_pos hjc, if_neg (by omega)]
    · simp only [if_neg hjc, Nat.le_add_one_iff.trans (or_iff_left hjc)]
  · intro j hj
    obtain ⟨fds, hpcb⟩ := pcbs_leave t (pcbAddr (BitVec.ofNat 32 j))
    rw [hpcb, h.pid j (by omega)]
  · intro j hj
    obtain ⟨fds, hpcb⟩ := pcbs_leave t (pcbAddr (BitVec.ofNat 32 j))
    rw [hpcb, h.parent j (by omega)]
  · intro j hj
    obtain ⟨fds, hpcb⟩ := pcbs_leave t (pcbAddr (BitVec.ofNat 32 j))
    rw [hpcb, h.esp0 j (by omega)]
  · rw [curPid_leave, hparent]
  · rw [curProcessPtr_leave, hparent]
  · rw [filedArray_leave, hparent]
  · rw [tssEsp0_leave, hparent, h.esp0 c (by omega)]
  · rw [paging_leave, hparent]
    exact Paging.maps_mapUser h.maps.dt h.maps.pt

/-- Setting the task state segment again changes nothing. -/
theorem Chain.setTss (h : t.Chain ptAddr c) : t.setTss.Chain ptAddr c where
  lt := h.lt
  live := h.live
  pid := h.pid
  parent := h.parent
  esp0 := h.esp0
  curPid := h.curPid
  curProcessPtr := h.curProcessPtr
  filedArray := h.filedArray
  tss := by
    show (t.pcbs t.curProcessPtr).tssEsp0 = _
    rw [h.curProcessPtr, h.esp0 c le_rfl]
  maps := h.maps

/-- The descriptors of a control block do not matter for the chain. -/
theorem Chain.setFds (h : t.Chain ptAddr c) (addr : BitVec 32) (fds : ℕ → FdEntry) :
    (t.setFds addr fds).Chain ptAddr c where
  lt := h.lt
  live := h.live
  pid j hj := by rw [pcbs_setFds, h.pid j hj]
  parent j hj := by rw [pcbs_setFds, h.parent j hj]
  esp0 j hj := by rw [pcbs_setFds, h.esp0 j hj]
  curPid := h.curPid
  curProcessPtr := h.curProcessPtr
  filedArray := h.filedArray
  tss := h.tss
  maps := h.maps

theorem Chain.setFd (h : t.Chain ptAddr c) (fd : ℕ) (e : FdEntry) :
    (t.setFd fd e).Chain ptAddr c :=
  h.setFds t.filedArray (Function.update t.fds fd e)

end ProcTable

/-! ### Reachable states -/

variable {wild : Wild} {ptAddr : BitVec 32} {s s' : KState} {e : Event}

theorem KState.IsBoot.idle (h : s.IsBoot ptAddr) : s.procs.Idle ptAddr := by
  obtain ⟨p, hp⟩ := h.paging
  refine ⟨h.pidCheck, h.curPid, fun i hi _ => ?_, fun i hi => ?_⟩
  · rw [hp, Paging.DT_pagingInit ptAddr p hi]
  · rw [hp, Paging.PT_pagingInit ptAddr p hi]

/-- A call of `execute` that leaves for user mode has started a process. -/
theorem procs_of_execute_user {command : List UInt8} {eip esp : BitVec 32}
    (h : execute command s = some (.user eip esp, s')) :
    ∃ t, s.procs.allocate = some t ∧ s'.procs = t.start s.calls := by
  rcases execute_cases h with ⟨m, ho, -⟩ | ⟨t, m, halloc, -, rfl⟩
  · cases ho
  · exact ⟨t, halloc, rfl⟩

/-- What a step does to the processes: `execute`, `halt` and `open` change them, and every other
step only has effects that drivers have. -/
inductive KState.Change (wild : Wild) (s s' : KState) : Prop
  /-- `execute`. -/
  | execute {o : Outcome} {command : List UInt8} :
      execute command s = some (o, s') → Change wild s s'
  /-- `halt`. -/
  | halt {o : Outcome} {status : UInt8} {currents : ℕ → Ptr Block}
    (hcur : ∀ fd, currents fd ∈ stackVars) :
      halt wild status currents s = some (o, s') → Change wild s s'
  /-- `open`. -/
  | sysOpen {r filename : BitVec 32} {current : Ptr Block} (hcur : current ∈ stackVars) :
      sysOpen wild filename current s = some (r, s') → Change wild s s'
  /-- Any other step. -/
  | effects : DriverEffects wild s s' → Change wild s s'

theorem KState.Step.change (hs : s.Step wild e s') (he : e.Scratch) : s.Change wild s' := by
  cases hs with
  | execute hex => exact .execute hex
  | halt hhalt => exact .halt he hhalt
  | sysOpen hopen => exact .sysOpen he hopen
  | sysClose hclose => exact .effects (sysClose_effects he hclose)
  | sysRead hread => exact .effects (sysRead_effects hread)
  | sysWrite hwrite => exact .effects (sysWrite_effects hwrite)
  | user => exact .effects (.data s _ s.console)
  | stack => exact .effects (.data s _ s.console)
  | key => exact .effects (.data s s.mem _)

/-- **The step lemma**: every step keeps the processes a chain. -/
theorem KState.Step.exists_chain (hw : Benign wild) (hs : s.Step wild e s') (he : e.Scratch)
    (h : ∃ c, s.procs.Chain ptAddr c) : ∃ c, s'.procs.Chain ptAddr c := by
  obtain ⟨c, hc⟩ := h
  cases hs.change he with
  | execute hex =>
    rcases execute_cases hex with ⟨m, -, rfl⟩ | ⟨t, m, halloc, -, rfl⟩
    · exact ⟨c, hc⟩
    · exact ⟨c + 1, hc.start halloc _⟩
  | halt hcur hhalt =>
    rcases halt_cases hw hcur hhalt with
      ⟨hroot, ⟨eip, esp, rfl⟩, hex⟩ | ⟨hchild, -, -, call, -, hout⟩
    · obtain rfl := hc.parentPid_eq_iff.mp hroot
      obtain ⟨t, halloc, ht⟩ := procs_of_execute_user hex
      rw [ht]
      exact ⟨0, hc.release.start halloc _⟩
    · obtain ⟨c, rfl⟩ := Nat.exists_eq_succ_of_ne_zero (mt hc.parentPid_eq_iff.mpr hchild)
      rcases hout with ⟨-, -, ht⟩ | ⟨-, -, ht⟩
      · rw [ht]
        exact ⟨c, hc.leave⟩
      · rw [ht]
        exact ⟨c, hc.leave.setTss⟩
  | sysOpen hcur hopen =>
    rcases sysOpen_cases hw hcur hopen with ⟨hkeeps, -⟩ | ⟨m, fd, -, -, -, ht, -⟩
    · rw [hkeeps.procs]
      exact ⟨c, hc⟩
    · rw [ht]
      exact ⟨c, hc.setFd fd _⟩
  | effects h =>
    rw [(h.keeps hw).procs]
    exact ⟨c, hc⟩

/-- **In every reachable state the processes form a chain.** -/
theorem Reachable.exists_chain (hw : Benign wild) (h : Reachable wild ptAddr s) :
    ∃ c, s.procs.Chain ptAddr c := by
  obtain ⟨boot, s₀, eip, esp, events, hboot, hex, hrun⟩ := h
  refine hrun.invariant (P := fun s => ∃ c, s.procs.Chain ptAddr c)
    (fun _ _ _ hc hs => hs.2.exists_chain hw hs.1 hc) ?_
  obtain ⟨t, halloc, ht⟩ := procs_of_execute_user hex
  rw [ht]
  exact ⟨0, hboot.idle.start halloc _⟩

/-- No step changes the globals of the file system. -/
theorem KState.Step.fs_eq (hw : Benign wild) (hs : s.Step wild e s') (he : e.Scratch) :
    s'.fs = s.fs := by
  cases hs.change he with
  | execute hex =>
    rcases execute_cases hex with ⟨m, -, rfl⟩ | ⟨t, m, -, -, rfl⟩
    · rfl
    · rfl
  | halt hcur hhalt =>
    rcases halt_cases hw hcur hhalt with ⟨-, -, hex⟩ | ⟨-, hfs, -⟩
    · rcases execute_cases hex with ⟨m, -, rfl⟩ | ⟨t, m, -, -, rfl⟩
      · rfl
      · rfl
    · exact hfs
  | sysOpen hcur hopen =>
    rcases sysOpen_cases hw hcur hopen with ⟨hkeeps, -⟩ | ⟨m, fd, -, -, -, -, hfs, -⟩
    · exact hkeeps.fs
    · exact hfs
  | effects h => exact (h.keeps hw).fs

/-- In every reachable state the image lies in the flat address space. -/
theorem Reachable.onBlock (hw : Benign wild) (h : Reachable wild ptAddr s) :
    s.fs.OnBlock .flat := by
  obtain ⟨boot, s₀, eip, esp, events, hboot, hex, hrun⟩ := h
  refine hrun.invariant (P := fun s => s.fs.OnBlock .flat)
    (fun _ _ _ hs hstep => hstep.2.fs_eq hw hstep.1 ▸ hs) ?_
  obtain ⟨addr, hfs⟩ := hboot.fs
  have hboot' : boot.fs.OnBlock .flat := hfs ▸ FileSystem.onBlock_filesystemInit _ _
  rcases execute_cases hex with ⟨m, ho, -⟩ | ⟨t, m, -, -, rfl⟩
  · cases ho
  · exact hboot'

theorem ReachableBy.step {step : KState → Event → KState → Prop} (h : ReachableBy step ptAddr s)
    (hs : step s e s') : ReachableBy step ptAddr s' := by
  obtain ⟨boot, s₀, eip, esp, events, hboot, hex, hrun⟩ := h
  exact ⟨boot, s₀, eip, esp, events ++ [e], hboot, hex, hrun.append (.single hs)⟩

theorem Reachable.step (h : Reachable wild ptAddr s) (hs : s.Step wild e s') (he : e.Scratch) :
    Reachable wild ptAddr s' := ReachableBy.step h ⟨he, hs⟩

end Mp3Kernel
