import Mp3Kernel.Console.Keyboard
import Mp3Kernel.FileSystem.Drivers
import Mp3Kernel.Process.Paging

/-!
# The state of the kernel

The globals of `process.c`, the process control blocks, the task state segment and the page
tables, next to the memory, the file system and the console.

Memory is a byte memory with one block for the flat address space, one for every 4 MB frame, and
one for every local variable of a system call whose address is taken, because such a variable lies
somewhere on a kernel stack. Process control blocks are typed, and kept apart from byte memory: the
kernel reaches them only through `cur_process_ptr`, `filed_array` and the addresses computed from
process ids.

A saved `esp` or `ebp` stands for the frame of the C function that saved it. Calls of `execute` are
numbered, and a ghost variable remembers which call created a process.

## Main definitions

* `Block`, `Local`: where a pointer of the kernel points.
* `FdEntry`, `PCB`, `ProcTable`, `KState`.
* `pcbAddr`: the address of the control block of a process.
* `KState.userPtr`: where an address given by a user program points.

Source: `process.h`; `process.c`, lines 27–31; `x86_desc.h`.
-/

namespace Mp3Kernel

open ByteMemory

/-! ### Memory -/

/-- The local variables of system calls whose address is taken. -/
inductive Local
  /-- `file_command` of `execute`. -/
  | fileCommand
  /-- `check_dentry` of `execute`. -/
  | checkDentry
  /-- `data_buf` of `execute`. -/
  | dataBuf
  /-- `tem_dentry` of `read`. -/
  | temDentry
  /-- What the uninitialised `current` of `open` and `close` designates. -/
  | current
deriving DecidableEq

/-- The blocks of memory. -/
inductive Block
  /-- The flat address space. -/
  | flat
  /-- A 4 MB frame of physical memory that holds a user page. -/
  | page (frame : BitVec 10)
  /-- A local variable. -/
  | var (name : Local)
deriving DecidableEq

instance : Inhabited Block := ⟨.flat⟩

/-- A local variable, as a pointer. -/
def Local.ptr (name : Local) : Ptr Block := ⟨.var name, 0#32⟩

/-- The pointers to local variables. Nothing else of the kernel lies there. -/
def stackVars : Set (Ptr Block) := {p | ∃ name, p.blk = .var name}

instance : DecidablePred (· ∈ stackVars) := fun p =>
  match h : p.blk with
  | .var name => isTrue ⟨name, h⟩
  | .flat => isFalse fun ⟨_, hname⟩ => Block.noConfusion (h.symm.trans hname)
  | .page _ => isFalse fun ⟨_, hname⟩ => Block.noConfusion (h.symm.trans hname)

theorem Local.ptr_mem_stackVars (name : Local) : name.ptr ∈ stackVars := ⟨name, rfl⟩

/-! ### Processes -/

/-- `MAX_PROCESS_NUMBER`. -/
def maxProcessNumber : ℕ := 6

/-- `KERNEL_STACK_SIZE`. -/
def kernelStackSize : BitVec 32 := 0x2000#32

/-- `END_OF_KERNEL`. -/
def endOfKernel : BitVec 32 := 0x00800000#32

/-- `USER_PADDR`. -/
def userPaddr : BitVec 32 := 0x08048000#32

/-- `USER_STACK_SIZE`. -/
def userStackSize : BitVec 32 := 0x00400000#32

/-- `KERNEL_DS`. -/
def kernelDS : BitVec 32 := 0x0018#32

/-- `FDARRAY_MAX`. -/
def fdarrayMax : ℕ := 8

/-- `END_OF_KERNEL - KERNEL_STACK_SIZE * (pid + 1)`. -/
def pcbAddr (pid : BitVec 32) : BitVec 32 := endOfKernel - kernelStackSize * (pid + 1#32)

/-- A `fileot*`: an entry of `file_operation_table`, or another address. -/
inductive FotPtr
  /-- `&file_operation_table[index]`. -/
  | entry (index : BitVec 32)
  /-- Any other pointer. -/
  | raw (address : BitVec 32)
deriving DecidableEq

/-- `struct fdarray`. -/
structure FdEntry where
  /-- `fileot_pointer`. -/
  fileotPointer : FotPtr
  /-- `inode`. -/
  inode : BitVec 32
  /-- `position`. -/
  position : BitVec 32
  /-- `flags`: the descriptor is in use unless it is zero. -/
  flags : BitVec 32

/-- The frame of a C function on a kernel stack. -/
inductive Frame
  /-- The frame of `initialize_PCB`, called by the call of `execute` with this number. -/
  | initializePCB (call : ℕ)
deriving DecidableEq

/-- `struct PCB_t`, without `parent_ebp`, which nothing sets or reads. -/
structure PCB where
  /-- `fd_array`. -/
  fdArray : ℕ → FdEntry
  /-- `pid`. -/
  pid : BitVec 32
  /-- `parent_pid`. -/
  parentPid : BitVec 32
  /-- `tss_esp0`. -/
  tssEsp0 : BitVec 32
  /-- `scheduled_esp`. -/
  scheduledEsp : Option Frame
  /-- `scheduled_ebp`. -/
  scheduledEbp : Option Frame

/-- The structures that describe the processes. -/
structure ProcTable where
  /-- `pid_check`. -/
  pidCheck : BitVec 32 → UInt8
  /-- `cur_pid`. -/
  curPid : BitVec 32
  /-- `new_pid`. -/
  newPid : BitVec 32
  /-- `cur_process_ptr`. -/
  curProcessPtr : BitVec 32
  /-- `filed_array`, zero for the null pointer. -/
  filedArray : BitVec 32
  /-- The control blocks, by address. -/
  pcbs : BitVec 32 → PCB
  /-- The page tables. -/
  paging : Paging
  /-- `tss.esp0`. -/
  tssEsp0 : BitVec 32
  /-- `tss.ss0`. -/
  tssSs0 : BitVec 32

/-- The state of the kernel. -/
structure KState where
  /-- Memory. -/
  mem : Mem Block
  /-- The globals of the file system. -/
  fs : FileSystem Block
  /-- The console. -/
  console : Console
  /-- `issue.rtc_freq`. -/
  rtcFreq : ℤ
  /-- The processes. -/
  procs : ProcTable
  /-- Ghost: the number of calls of `execute` so far. -/
  calls : ℕ
  /-- Ghost: the call that created the process with this id. -/
  creator : BitVec 32 → ℕ

namespace ProcTable

/-- The entries that `filed_array` points to. -/
def fds (t : ProcTable) : ℕ → FdEntry := (t.pcbs t.filedArray).fdArray

/-- An entry of `filed_array` replaced. -/
def setFd (t : ProcTable) (fd : ℕ) (e : FdEntry) : ProcTable :=
  let pcb := t.pcbs t.filedArray
  { t with pcbs :=
      Function.update t.pcbs t.filedArray { pcb with fdArray := Function.update pcb.fdArray fd e } }

@[simp] theorem fds_setFd (t : ProcTable) (fd : ℕ) (e : FdEntry) :
    (t.setFd fd e).fds = Function.update t.fds fd e := by
  simp [setFd, fds]

/-- Only the descriptors of the control block at `filed_array` change. -/
theorem pcbs_setFd (t : ProcTable) (fd : ℕ) (e : FdEntry) (a : BitVec 32) :
    (t.setFd fd e).pcbs a = { t.pcbs a with
      fdArray := if a = t.filedArray then Function.update t.fds fd e else (t.pcbs a).fdArray } := by
  by_cases h : a = t.filedArray
  · subst h
    simp [setFd, fds]
  · simp [setFd, h]

/-- The descriptors of the control block at `addr` replaced. -/
def setFds (t : ProcTable) (addr : BitVec 32) (fds : ℕ → FdEntry) : ProcTable :=
  { t with pcbs := Function.update t.pcbs addr { t.pcbs addr with fdArray := fds } }

/-- Only the descriptors of this control block change. -/
theorem pcbs_setFds (t : ProcTable) (addr : BitVec 32) (fds : ℕ → FdEntry) (a : BitVec 32) :
    (t.setFds addr fds).pcbs a =
      { t.pcbs a with fdArray := if a = addr then fds else (t.pcbs a).fdArray } := by
  by_cases h : a = addr
  · subst h
    simp [setFds]
  · simp [setFds, h]

@[simp] theorem fdArray_setFds (t : ProcTable) (addr : BitVec 32) (fds : ℕ → FdEntry) :
    ((t.setFds addr fds).pcbs addr).fdArray = fds := by
  simp [setFds]

/-- `filed_array[8].fileot_pointer`. There is no entry 8: the field is the one that follows
`fd_array` in the control block, `pid`. -/
def fotPtr8 (t : ProcTable) : FotPtr := .raw (t.pcbs t.filedArray).pid

end ProcTable

namespace KState

/-- The frame that the page directory has for the user page. -/
def userFrameNumber (s : KState) : BitVec 10 :=
  ((s.procs.paging.DT Paging.userIndex) >>> 22).setWidth 10

/-- Where an address in user space points: into the frame of the user page, or else into the flat
address space. -/
def userPtr (s : KState) (addr : BitVec 32) : Ptr Block :=
  if userMem ≤ addr ∧ addr < userEnd then ⟨.page s.userFrameNumber, addr - userMem⟩
  else ⟨.flat, addr⟩

/-- The processes, the globals of the file system and the ghost variables are the same in both
states. -/
structure Keeps (s s' : KState) : Prop where
  /-- The processes. -/
  procs : s'.procs = s.procs
  /-- The globals of the file system. -/
  fs : s'.fs = s.fs
  /-- The number of calls of `execute`. -/
  calls : s'.calls = s.calls
  /-- The calls that created the processes. -/
  creator : s'.creator = s.creator

theorem Keeps.refl (s : KState) : s.Keeps s := ⟨rfl, rfl, rfl, rfl⟩

theorem Keeps.trans {s s' s'' : KState} (h : s.Keeps s') (h' : s'.Keeps s'') : s.Keeps s'' :=
  ⟨h'.procs.trans h.procs, h'.fs.trans h.fs, h'.calls.trans h.calls, h'.creator.trans h.creator⟩

theorem userPtr_congr {s s' : KState} (h : s'.procs.paging = s.procs.paging) (addr : BitVec 32) :
    s'.userPtr addr = s.userPtr addr := by
  rw [userPtr, userPtr, userFrameNumber, userFrameNumber, h]

/-- A pointer given by a user program is null only for the address zero. -/
theorem userPtr_ne_null {s : KState} {addr : BitVec 32} (h : addr ≠ 0#32) :
    s.userPtr addr ≠ Ptr.null := by
  rw [userPtr]
  split_ifs with hr
  · exact fun he => Block.noConfusion (congrArg Ptr.blk he)
  · exact fun he => h (congrArg Ptr.off he)

/-- A pointer given by a user program does not point to a local variable. -/
theorem blk_userPtr_ne (s : KState) {addr : BitVec 32} (name : Local) :
    (s.userPtr addr).blk ≠ .var name := by
  rw [userPtr]
  split_ifs
  · exact Block.noConfusion
  · exact Block.noConfusion

end KState

end Mp3Kernel
