import Mp3Kernel.Process.FileCalls
import Mp3Kernel.Transition.Fold

/-!
# Creating and ending processes

`execute`, `initialize_PCB` and `halt` of `process.c`. A call of `execute` either returns a value or
leaves for user mode; `halt` resumes the frame whose `ebp` the parent's control block holds, so its
outcome is the outcome of the call of `execute` that frame belongs to. The instruction pair
`leave; ret` on the frame of `initialize_PCB` returns from it, and `execute` goes on behind the
call.

A result `none` means that the processor faults, or that a loop never ends. The check of `fd_array`
against `NULL` is left out: it compares an array with the null pointer and never succeeds.

## Main definitions

* `parse`: the parsing part of `execute`; `checkExecutable`: its checks of the file.
* `Outcome`, `executeTail`, `execute`, `halt`.
* `ProcTable.allocate`, `ProcTable.initializePCB`, `ProcTable.toParent`: what they do to the
  processes.

## Main results

* `execute_cases`, `halt_cases`: everything a call can do to the processes.

Source: `process.c`, lines 33–350.
-/

namespace Mp3Kernel

open ByteMemory

/-! ### The command -/

/-- The byte `' '`. -/
def space : UInt8 := 0x20

/-- The byte `command[i]`, where the NUL stands behind the listed bytes. -/
def commandByte (command : List UInt8) (i : ℕ) : UInt8 := command.getD i 0

/-- `while(command[i] == ' ') i++`. -/
def skipSpaces (command : List UInt8) (i : ℕ) : ℕ :=
  i + ((command.drop i).takeWhile (· = space)).length

/-- The loop that fills `file_command`, at index `i` with `k` rounds left. The byte it tests is that
at `cmd_curindex`, not the one it copies. -/
def copyFileCommand (command : List UInt8) (cmdCurindex : ℕ) :
    ℕ → ℕ → List UInt8 → List UInt8
  | 0, _, file => file
  | k + 1, i, file =>
    if commandByte command cmdCurindex ≠ space then
      copyFileCommand command cmdCurindex k (i + 1) (file ++ [commandByte command i])
    else if file.length ≠ 0 then file
    else copyFileCommand command cmdCurindex k (i + 1) file

/-- The loop that fills `arg_command`. It tests the byte at `arg_start`, which stays: the loop is
not entered, or stops at a space in its first round, or never ends. -/
def copyArgCommand (command : List UInt8) (argStart : ℕ) : Option (List UInt8) :=
  if command.length ≤ argStart then some []
  else if commandByte command argStart ≠ space then none
  else some [0]

/-- The parsing part of `execute`: the bytes stored to `file_command` and to `arg_command`. -/
def parse (command : List UInt8) : Option (List UInt8 × List UInt8) :=
  let cmdCurindex := skipSpaces command 0
  let file := copyFileCommand command cmdCurindex (command.length - cmdCurindex) cmdCurindex []
  let argStart := skipSpaces command (cmdCurindex + file.length)
  (copyArgCommand command argStart).map fun arg => (file ++ [0], arg)

/-- `"shell"`. -/
def shell : List UInt8 := [0x73, 0x68, 0x65, 0x6C, 0x6C]

/-! ### The parts of `execute` -/

/-- `EXE_CHECK1` to `EXE_CHECK4`. -/
def exeCheck : List UInt8 := [0x7F, 0x45, 0x4C, 0x46]

/-- The checks of the file that `file_command` names: its inode, or nothing where `execute` returns
`-1`. A command that overflows `file_command` is undefined. -/
def checkExecutable (s : KState) (fileCommand : List UInt8) :
    Option (Option (BitVec 32) × Mem Block) :=
  if Dentry.fileNameLength < fileCommand.length then none
  else do
    let m := writeBytes s.mem Local.fileCommand.ptr fileCommand
    let (found, m) ← s.fs.readDentryByName Local.fileCommand.ptr Local.checkDentry.ptr m
    if found = failure then some (none, m)
    else
      let inode := readWord m (Dentry.inodeIndex Local.checkDentry.ptr)
      let (count, m) := s.fs.readData inode 0#32 Local.dataBuf.ptr 4#32 m
      if count = failure then some (none, m)
      else if bytesAt m Local.dataBuf.ptr 4 ≠ exeCheck then some (none, m)
      else some (some inode, m)

/-- The copy of the program to `USER_PADDR`. A file that does not fit into the rest of the user page
makes the copy fault. -/
def loadProgram (s : KState) (inode : BitVec 32) : Option (Mem Block) :=
  let (count, m) := s.fs.readData inode 0#32 (s.userPtr userPaddr) userStackSize s.mem
  if count ≠ failure ∧ userEnd - userPaddr < count then none else some m

namespace ProcTable

/-- The loop that looks for a free entry of `pid_check` and takes the first. -/
def allocate (t : ProcTable) : Option ProcTable :=
  ((List.range maxProcessNumber).find? fun i => t.pidCheck (BitVec.ofNat 32 i) = 0).map fun i =>
    { t with
      pidCheck := Function.update t.pidCheck (BitVec.ofNat 32 i) 1
      newPid := BitVec.ofNat 32 i }

/-- The user page set to the page of process `pid`. -/
def mapPage (t : ProcTable) (pid : BitVec 32) : ProcTable :=
  { t with paging := t.paging.mapUser (2 + pid) }

/-- A terminal descriptor, as `initialize_PCB` fills it. -/
def terminalEntry : FdEntry := ⟨.entry 3#32, 0#32, 0#32, 1#32⟩

/-- The descriptors that `initialize_PCB` leaves in a table. -/
def initialFds (fds : ℕ → FdEntry) (fd : ℕ) : FdEntry :=
  if fd < 2 then terminalEntry
  else if fd < fdarrayMax then { fds fd with flags := 0#32 }
  else fds fd

/-- The control block that `initialize_PCB` fills for the new process. -/
def newPCB (t : ProcTable) : PCB :=
  { t.pcbs (pcbAddr t.newPid) with
    pid := t.newPid
    parentPid := t.curPid
    tssEsp0 := pcbAddr t.newPid + kernelStackSize - 4#32
    fdArray := initialFds (t.pcbs (pcbAddr t.newPid)).fdArray }

/-- The frame of `initialize_PCB` saved in a control block. -/
def saveFrame (call : ℕ) (pcb : PCB) : PCB :=
  { pcb with
    scheduledEsp := some (.initializePCB call)
    scheduledEbp := some (.initializePCB call) }

/-- `int8_t initialize_PCB(int8_t* arg_command)`, called by the given call of `execute`. It never
fails, and it ignores the argument. -/
def initializePCB (call : ℕ) (t : ProcTable) : ProcTable :=
  let pcbs := Function.update t.pcbs (pcbAddr t.newPid) t.newPCB
  { t with
    curProcessPtr := pcbAddr t.newPid
    curPid := t.newPid
    filedArray := pcbAddr t.newPid
    pcbs := if t.curPid ≠ -1#32 then
        Function.update pcbs (pcbAddr t.curPid) (saveFrame call (pcbs (pcbAddr t.curPid)))
      else pcbs }

/-- The task state segment set for the current process. -/
def setTss (t : ProcTable) : ProcTable :=
  { t with tssEsp0 := (t.pcbs t.curProcessPtr).tssEsp0, tssSs0 := kernelDS }

end ProcTable

/-- The entry point that the program in the user page has at offset 24. -/
def KState.entry (s : KState) : BitVec 32 := readWord s.mem (s.userPtr (userPaddr + 24#32))

/-- How a call of `execute` or `halt` ends. -/
inductive Outcome
  /-- The call of `execute` with this number returns the value to its caller. -/
  | returns (call : ℕ) (value : BitVec 32)
  /-- `IRET` to user mode with this instruction and stack pointer. -/
  | user (eip esp : BitVec 32)
deriving DecidableEq

/-- The rest of `execute` behind the call of `initialize_PCB`, with the register `eax` that the call
leaves. The result of `initialize_PCB` is the low byte. -/
def executeTail (call : ℕ) (eax : BitVec 32) (s : KState) : Outcome × KState :=
  if eax.setWidth 8 = 0xFF#8 then (.returns call failure, s)
  else
    (.user s.entry (userMem + userStackSize - 4#32), { s with procs := s.procs.setTss })

/-- The part of `execute` behind its checks. -/
def createProcess (call : ℕ) (inode : BitVec 32) (s : KState) : Option (Outcome × KState) :=
  match s.procs.allocate with
  | none => some (.returns call failure, s)
  | some t => do
    let s := { s with procs := t.mapPage t.newPid }
    let m ← loadProgram s inode
    let s := { s with
      mem := m
      procs := s.procs.initializePCB call
      creator := Function.update s.creator t.newPid call }
    some (executeTail call 0#32 s)

/-- `int32_t execute(const uint8_t* command)`. -/
def execute (command : List UInt8) (s : KState) : Option (Outcome × KState) := do
  let call := s.calls
  let (fileCommand, _) ← parse command
  let (checked, m) ← checkExecutable s fileCommand
  let s := { s with mem := m, calls := call + 1 }
  match checked with
  | none => some (.returns call failure, s)
  | some inode => createProcess call inode s

/-! ### `halt` -/

/-- `EXCEPTION_STATUS`. -/
def exceptionStatus : UInt8 := 0x0F

/-- The variable `result` of `halt`. -/
def haltResult (status : UInt8) : BitVec 16 :=
  if status = exceptionStatus then 256#16 else BitVec.ofNat 16 status.toNat

namespace ProcTable

/-- `pid_check[cur_pid] = 0`. -/
def release (t : ProcTable) : ProcTable :=
  { t with pidCheck := Function.update t.pidCheck t.curPid 0 }

/-- The field `parent_pid` of the current process. -/
def parentPid (t : ProcTable) : BitVec 32 := (t.pcbs t.curProcessPtr).parentPid

/-- The task state segment and the user page set for the parent. -/
def toParent (t : ProcTable) (parentpid : BitVec 32) : ProcTable :=
  { t with
    tssSs0 := kernelDS
    tssEsp0 := (t.pcbs (pcbAddr parentpid)).tssEsp0
    paging := t.paging.mapUser (2 + parentpid) }

/-- The flags of a descriptor set to zero. -/
def clearFlags (t : ProcTable) (fd : ℕ) : ProcTable := t.setFd fd { t.fds fd with flags := 0#32 }

/-- The globals set to the parent. -/
def adopt (t : ProcTable) (parentpid : BitVec 32) : ProcTable :=
  { t with
    filedArray := pcbAddr parentpid
    curPid := parentpid
    curProcessPtr := pcbAddr parentpid }

end ProcTable

/-- A descriptor closed, with the pointer `current` of this call of `close`. -/
def closeFd (wild : Wild) (currents : ℕ → Ptr Block) (fd : ℕ) (s : KState) : Option KState :=
  (sysClose wild (BitVec.ofNat 32 fd) (currents fd) s).map Prod.snd

/-- A descriptor marked as not in use, and then closed. -/
def clearAndClose (wild : Wild) (currents : ℕ → Ptr Block) (fd : ℕ) (s : KState) : Option KState :=
  closeFd wild currents fd { s with procs := s.procs.clearFlags fd }

/-- The calls of `close` in `halt`. -/
def closeAll (wild : Wild) (currents : ℕ → Ptr Block) (s : KState) : Option KState := do
  let s ← [2, 3, 4, 5, 6, 7].foldlM (fun s fd => closeFd wild currents fd s) s
  let s ← clearAndClose wild currents 0 s
  clearAndClose wild currents 1 s

/-- The end of `halt`: the frame in the control block of the current process is resumed. -/
def resume (status : UInt8) (s : KState) : Option (Outcome × KState) :=
  match (s.procs.pcbs s.procs.curProcessPtr).scheduledEbp with
  | none => none
  | some (.initializePCB call) => some (executeTail call ((haltResult status).setWidth 32) s)

/-- The part of `halt` for a process that has a parent. -/
def haltChild (wild : Wild) (status : UInt8) (currents : ℕ → Ptr Block) (parentpid : BitVec 32)
    (s : KState) : Option (Outcome × KState) := do
  let s ← closeAll wild currents { s with procs := s.procs.toParent parentpid }
  resume status { s with procs := s.procs.adopt parentpid }

/-- The part of `halt` for the first process, which starts the shell again. Where that fails, `halt`
goes on with the control block of process `-1`, at an address that is not mapped. -/
def haltRoot (s : KState) : Option (Outcome × KState) := do
  match ← execute shell { s with procs := { s.procs with curPid := -1#32 } } with
  | (.user eip esp, s) => some (.user eip esp, s)
  | (.returns _ _, _) => none

/-- `int32_t halt(uint8_t status)`, with the pointers that its calls of `close` never set, one for
each descriptor. -/
def halt (wild : Wild) (status : UInt8) (currents : ℕ → Ptr Block) (s : KState) :
    Option (Outcome × KState) :=
  let s := { s with procs := s.procs.release }
  if s.procs.parentPid = -1#32 then haltRoot s
  else haltChild wild status currents s.procs.parentPid s

/-! ### The processes after a call of `execute` -/

namespace ProcTable

/-- What `execute` does to the processes behind the allocation of a process id. -/
def start (t : ProcTable) (call : ℕ) : ProcTable :=
  ((t.mapPage t.newPid).initializePCB call).setTss

variable (t : ProcTable) (call : ℕ)

@[simp] theorem pidCheck_start : (t.start call).pidCheck = t.pidCheck := rfl

@[simp] theorem newPid_start : (t.start call).newPid = t.newPid := rfl

@[simp] theorem curPid_start : (t.start call).curPid = t.newPid := rfl

@[simp] theorem curProcessPtr_start : (t.start call).curProcessPtr = pcbAddr t.newPid := rfl

@[simp] theorem filedArray_start : (t.start call).filedArray = pcbAddr t.newPid := rfl

@[simp] theorem paging_start : (t.start call).paging = t.paging.mapUser (2 + t.newPid) := rfl

/-- The control blocks after `initialize_PCB`: that of the new process is filled, and in that of
the process before it the frame is saved. -/
theorem pcbs_start (a : BitVec 32) : (t.start call).pcbs a =
    if t.curPid ≠ -1#32 ∧ a = pcbAddr t.curPid then
      saveFrame call (if a = pcbAddr t.newPid then t.newPCB else t.pcbs a)
    else if a = pcbAddr t.newPid then t.newPCB else t.pcbs a := by
  show (t.initializePCB call).pcbs a = _
  simp only [initializePCB]
  by_cases hroot : t.curPid = -1#32
  · rw [if_neg (not_not.mpr hroot), if_neg fun h => h.1 hroot, Function.update_apply]
  · rw [if_pos hroot, Function.update_apply]
    by_cases hold : a = pcbAddr t.curPid
    · rw [if_pos hold, if_pos ⟨hroot, hold⟩, ← hold, Function.update_apply]
    · rw [if_neg hold, if_neg fun h => hold h.2, Function.update_apply]

theorem pid_pcbs_start (a : BitVec 32) : ((t.start call).pcbs a).pid =
    if a = pcbAddr t.newPid then t.newPid else (t.pcbs a).pid := by
  rw [pcbs_start, apply_ite PCB.pid, saveFrame, ite_self, apply_ite PCB.pid]
  rfl

theorem parentPid_pcbs_start (a : BitVec 32) : ((t.start call).pcbs a).parentPid =
    if a = pcbAddr t.newPid then t.curPid else (t.pcbs a).parentPid := by
  rw [pcbs_start, apply_ite PCB.parentPid, saveFrame, ite_self, apply_ite PCB.parentPid]
  rfl

theorem tssEsp0_pcbs_start (a : BitVec 32) : ((t.start call).pcbs a).tssEsp0 =
    if a = pcbAddr t.newPid then pcbAddr t.newPid + kernelStackSize - 4#32
    else (t.pcbs a).tssEsp0 := by
  rw [pcbs_start, apply_ite PCB.tssEsp0, saveFrame, ite_self, apply_ite PCB.tssEsp0]
  rfl

theorem fdArray_pcbs_start (a : BitVec 32) : ((t.start call).pcbs a).fdArray =
    if a = pcbAddr t.newPid then initialFds (t.pcbs a).fdArray else (t.pcbs a).fdArray := by
  rw [pcbs_start, apply_ite PCB.fdArray, saveFrame, ite_self, apply_ite PCB.fdArray]
  by_cases h : a = pcbAddr t.newPid
  · rw [if_pos h, if_pos h, h]
    rfl
  · rw [if_neg h, if_neg h]

theorem scheduledEbp_pcbs_start (a : BitVec 32) : ((t.start call).pcbs a).scheduledEbp =
    if t.curPid ≠ -1#32 ∧ a = pcbAddr t.curPid then some (.initializePCB call)
    else (t.pcbs a).scheduledEbp := by
  rw [pcbs_start, apply_ite PCB.scheduledEbp]
  by_cases h : a = pcbAddr t.newPid
  · rw [if_pos h, h]
    rfl
  · rw [if_neg h]
    rfl

@[simp] theorem tssEsp0_start :
    (t.start call).tssEsp0 = pcbAddr t.newPid + kernelStackSize - 4#32 := by
  have h := tssEsp0_pcbs_start t call (pcbAddr t.newPid)
  rwa [if_pos rfl] at h

variable {t} {t' : ProcTable}

/-- The process id allocated is the first that is free. -/
theorem allocate_eq_some (h : t.allocate = some t') :
    ∃ i < maxProcessNumber, t.pidCheck (BitVec.ofNat 32 i) = 0 ∧
      (∀ j < i, t.pidCheck (BitVec.ofNat 32 j) ≠ 0) ∧
      t' = { t with
        pidCheck := Function.update t.pidCheck (BitVec.ofNat 32 i) 1
        newPid := BitVec.ofNat 32 i } := by
  obtain ⟨i, hi, rfl⟩ := Option.map_eq_some_iff.mp h
  obtain ⟨hfree, hmem, hfirst⟩ := List.find?_range_eq_some.mp hi
  exact ⟨i, List.mem_range.mp hmem, by simpa using hfree, by simpa using hfirst, rfl⟩

/-- The control blocks stay when a process id is allocated. -/
theorem pcbs_of_allocate (h : t.allocate = some t') : t'.pcbs = t.pcbs := by
  obtain ⟨i, -, -, -, rfl⟩ := allocate_eq_some h
  rfl

theorem curPid_of_allocate (h : t.allocate = some t') : t'.curPid = t.curPid := by
  obtain ⟨i, -, -, -, rfl⟩ := allocate_eq_some h
  rfl

theorem allocate_eq_none : t.allocate = none ↔
    ∀ i < maxProcessNumber, t.pidCheck (BitVec.ofNat 32 i) ≠ 0 := by
  rw [allocate, Option.map_eq_none_iff, List.find?_eq_none]
  simp

end ProcTable

variable {wild : Wild} {s s' : KState} {o : Outcome} {call : ℕ} {inode : BitVec 32}

theorem entry_congr (hmem : s'.mem = s.mem) (hpaging : s'.procs.paging = s.procs.paging) :
    s'.entry = s.entry := by
  rw [KState.entry, KState.entry, hmem, KState.userPtr_congr hpaging]

theorem executeTail_of_ne {eax : BitVec 32} (h : eax.setWidth 8 ≠ 0xFF#8) :
    executeTail call eax s =
      (.user s.entry (userMem + userStackSize - 4#32), { s with procs := s.procs.setTss }) :=
  if_neg h

/-- The part of `execute` behind its checks finds no free process id and fails, or loads the program
and starts the process. -/
theorem createProcess_cases (h : createProcess call inode s = some (o, s')) :
    (s.procs.allocate = none ∧ o = .returns call failure ∧ s' = s) ∨
      ∃ t m, s.procs.allocate = some t ∧
        loadProgram { s with procs := t.mapPage t.newPid } inode = some m ∧
        o = .user s'.entry (userMem + userStackSize - 4#32) ∧
        s' = { s with
          mem := m
          procs := t.start call
          creator := Function.update s.creator t.newPid call } := by
  rw [createProcess] at h
  cases halloc : s.procs.allocate with
  | none =>
    rw [halloc] at h
    cases h
    exact .inl ⟨rfl, rfl, rfl⟩
  | some t =>
    rw [halloc] at h
    obtain ⟨m, hm, h₁⟩ := Option.bind_eq_some_iff.mp h
    dsimp only at h₁
    rw [executeTail_of_ne (by decide)] at h₁
    cases h₁
    exact .inr ⟨t, m, rfl, hm, congrArg (Outcome.user · _) (entry_congr rfl rfl), rfl⟩

/-- A call of `execute` returns `-1` and leaves the processes alone, or starts a process. -/
theorem execute_cases {command : List UInt8} (h : execute command s = some (o, s')) :
    (∃ m, o = .returns s.calls failure ∧ s' = { s with mem := m, calls := s.calls + 1 }) ∨
      ∃ t m, s.procs.allocate = some t ∧ o = .user s'.entry (userMem + userStackSize - 4#32) ∧
        s' = { s with
          mem := m
          calls := s.calls + 1
          procs := t.start s.calls
          creator := Function.update s.creator t.newPid s.calls } := by
  obtain ⟨⟨fileCommand, argCommand⟩, -, h₁⟩ := Option.bind_eq_some_iff.mp h
  obtain ⟨⟨checked, m⟩, -, h₂⟩ := Option.bind_eq_some_iff.mp h₁
  cases checked with
  | none =>
    cases h₂
    exact .inl ⟨m, rfl, rfl⟩
  | some inode =>
    rcases createProcess_cases h₂ with ⟨-, ho, rfl⟩ | ⟨t, m', halloc, -, ho, rfl⟩
    · exact .inl ⟨m, ho, rfl⟩
    · exact .inr ⟨t, m', halloc, ho, rfl⟩

/-! ### The processes after a call of `halt` -/

namespace ProcTable

/-- What `halt` does to the processes where there is a parent. -/
def leave (t : ProcTable) : ProcTable :=
  (((t.release.toParent t.parentPid).clearFlags 0).clearFlags 1).adopt t.parentPid

variable (t : ProcTable)

@[simp] theorem pidCheck_leave : t.leave.pidCheck = Function.update t.pidCheck t.curPid 0 := rfl

@[simp] theorem curPid_leave : t.leave.curPid = t.parentPid := rfl

@[simp] theorem curProcessPtr_leave : t.leave.curProcessPtr = pcbAddr t.parentPid := rfl

@[simp] theorem filedArray_leave : t.leave.filedArray = pcbAddr t.parentPid := rfl

@[simp] theorem paging_leave : t.leave.paging = t.paging.mapUser (2 + t.parentPid) := rfl

@[simp] theorem tssEsp0_leave : t.leave.tssEsp0 = (t.pcbs (pcbAddr t.parentPid)).tssEsp0 := rfl

/-- Only the descriptors of the process that ends change. -/
theorem pcbs_leave (a : BitVec 32) : ∃ fds, t.leave.pcbs a =
    { t.pcbs a with fdArray := if a = t.filedArray then fds else (t.pcbs a).fdArray } := by
  refine ⟨(((t.release.toParent t.parentPid).clearFlags 0).clearFlags 1).fds, ?_⟩
  show (((t.release.toParent t.parentPid).clearFlags 0).clearFlags 1).pcbs a = _
  by_cases h : a = t.filedArray
  · subst h
    simp [clearFlags, fds, setFd, toParent, release]
  · simp [clearFlags, setFd, toParent, release, h]

end ProcTable

section Closing

variable {currents : ℕ → Ptr Block} (hcur : ∀ fd, currents fd ∈ stackVars)

include hcur

theorem closeFd_effects {fd : ℕ} (h : closeFd wild currents fd s = some s') :
    DriverEffects wild s s' := by
  obtain ⟨⟨r, s₁⟩, h₁, rfl⟩ := Option.map_eq_some_iff.mp h
  exact sysClose_effects (hcur fd) h₁

/-- The calls of `close` in `halt`: between their effects, the first two descriptors are marked as
not in use. -/
theorem closeAll_effects (h : closeAll wild currents s = some s') :
    ∃ s₁ s₂, DriverEffects wild s s₁ ∧
    DriverEffects wild { s₁ with procs := s₁.procs.clearFlags 0 } s₂ ∧
    DriverEffects wild { s₂ with procs := s₂.procs.clearFlags 1 } s' := by
  obtain ⟨s₁, h₁, h₂⟩ := Option.bind_eq_some_iff.mp h
  obtain ⟨s₂, h₃, h₄⟩ := Option.bind_eq_some_iff.mp h₂
  refine ⟨s₁, s₂, ?_, closeFd_effects hcur h₃, closeFd_effects hcur h₄⟩
  exact Transition.foldlM_invariant (I := DriverEffects wild s)
    (fun t fd t' ht hround => ht.trans (closeFd_effects hcur hround)) h₁ .refl

theorem closeAll_keeps (hw : Benign wild) (h : closeAll wild currents s = some s') :
    s'.procs = (s.procs.clearFlags 0).clearFlags 1 ∧ s'.fs = s.fs ∧ s'.creator = s.creator := by
  obtain ⟨s₁, s₂, h₁, h₂, h₃⟩ := closeAll_effects hcur h
  have hkeeps₁ := h₁.keeps hw
  have hkeeps₂ := h₂.keeps hw
  have hkeeps₃ := h₃.keeps hw
  exact ⟨by rw [hkeeps₃.procs, hkeeps₂.procs, hkeeps₁.procs],
    by rw [hkeeps₃.fs, hkeeps₂.fs, hkeeps₁.fs],
    by rw [hkeeps₃.creator, hkeeps₂.creator, hkeeps₁.creator]⟩

end Closing

/-- The register that `halt` leaves holds the byte `0xFF` exactly for the status `0xFF`. -/
theorem haltResult_low_eq_iff (status : UInt8) :
    ((haltResult status).setWidth 32).setWidth 8 = 0xFF#8 ↔ status = 0xFF := by
  have hlt := status.toNat_lt
  rw [haltResult]
  split_ifs with h
  · subst h
    decide
  · rw [← BitVec.toNat_inj, ← UInt8.toNat_inj]
    simp only [BitVec.toNat_setWidth, BitVec.toNat_ofNat, UInt8.reduceToNat]
    omega

variable {currents : ℕ → Ptr Block}

/-- `halt` starts the shell again, or closes the descriptors and resumes the parent. -/
theorem halt_inversion {status : UInt8} (h : halt wild status currents s = some (o, s')) :
    (s.procs.parentPid = -1#32 ∧ (∃ eip esp, o = .user eip esp) ∧
      execute shell { s with procs := { s.procs.release with curPid := -1#32 } } = some (o, s')) ∨
    (s.procs.parentPid ≠ -1#32 ∧ ∃ s₁, closeAll wild currents
        { s with procs := s.procs.release.toParent s.procs.release.parentPid } = some s₁ ∧
      resume status { s₁ with procs := s₁.procs.adopt s.procs.release.parentPid } =
        some (o, s')) := by
  rw [halt] at h
  dsimp only at h
  split_ifs at h with hroot
  · obtain ⟨⟨o₁, s₁⟩, h₁, h₂⟩ := Option.bind_eq_some_iff.mp h
    cases o₁ with
    | returns call value => cases h₂
    | user eip esp =>
      cases h₂
      exact .inl ⟨hroot, ⟨eip, esp, rfl⟩, h₁⟩
  · exact .inr ⟨hroot, Option.bind_eq_some_iff.mp h⟩

/-- `halt` starts the shell again, or resumes the call of `execute` whose frame the parent's control
block holds: the call returns `-1` for the status `0xFF`, and leaves for user mode otherwise. -/
theorem halt_cases (hw : Benign wild) {status : UInt8} (hcur : ∀ fd, currents fd ∈ stackVars)
    (h : halt wild status currents s = some (o, s')) :
    (s.procs.parentPid = -1#32 ∧ (∃ eip esp, o = .user eip esp) ∧
      execute shell { s with procs := { s.procs.release with curPid := -1#32 } } = some (o, s')) ∨
    (s.procs.parentPid ≠ -1#32 ∧ s'.fs = s.fs ∧ s'.creator = s.creator ∧ ∃ call,
      (s.procs.leave.pcbs (pcbAddr s.procs.parentPid)).scheduledEbp = some (.initializePCB call) ∧
      ((status = 0xFF ∧ o = .returns call failure ∧ s'.procs = s.procs.leave) ∨
        (status ≠ 0xFF ∧
          o = .user s'.entry (userMem + userStackSize - 4#32) ∧
          s'.procs = s.procs.leave.setTss))) := by
  rcases halt_inversion h with hroot | ⟨hchild, s₁, hclose, hresume⟩
  · exact .inl hroot
  · obtain ⟨hclosed, hfs, hcreator⟩ := closeAll_keeps hcur hw hclose
    have hprocs : s₁.procs.adopt s.procs.release.parentPid = s.procs.leave := by
      rw [hclosed]
      rfl
    rw [hprocs, resume] at hresume
    dsimp only at hresume
    rw [ProcTable.curProcessPtr_leave] at hresume
    split at hresume
    · cases hresume
    · rename_i call hframe
      refine .inr ⟨hchild, ?_⟩
      by_cases hstatus : status = 0xFF
      · rw [executeTail, if_pos ((haltResult_low_eq_iff status).mpr hstatus)] at hresume
        cases hresume
        exact ⟨hfs, hcreator, call, hframe, .inl ⟨hstatus, rfl, rfl⟩⟩
      · rw [executeTail_of_ne (mt (haltResult_low_eq_iff status).mp hstatus)] at hresume
        cases hresume
        refine ⟨hfs, hcreator, call, hframe, .inr ⟨hstatus, ?_, rfl⟩⟩
        exact congrArg (Outcome.user · _) (entry_congr rfl rfl)

end Mp3Kernel
