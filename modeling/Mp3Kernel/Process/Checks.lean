import Mp3Kernel.FileSystem.Header
import Mp3Kernel.Process.Execute

/-!
# The checks of `execute` and the copy of the program

`execute` reads the first four bytes of a file into `data_buf`, and compares them with those of an
executable. A file of less than four bytes fills the first part of the buffer only, and the rest
keeps what it held. What passes the checks is copied to `USER_PADDR`, with a length of 4 MB asked
for.

## Main definitions

* `FileSystem.checkedByte`, `FileSystem.Accepts`: the bytes that are compared; the file passes.

## Main results

* `checkExecutable_eqOn`: the checks store into local variables only.
* `checkExecutable_of_lookup`: what they accept.
* `exists_loadProgram`: the bytes of a program that fits.
* `execute_of_checked`: `execute` starts a process for a file that is accepted and fits.

Source: `process.c`, lines 105–215.
-/

namespace Mp3Kernel

open ByteMemory

theorem inBlock_flat_subset : Ptr.inBlock .flat ⊆ stackVarsᶜ := by
  rintro p hp ⟨name, hname⟩
  exact Block.noConfusion (hp.symm.trans hname)

theorem blk_ne_flat_of_mem {p : Ptr Block} (h : p ∈ stackVars) : p.blk ≠ .flat :=
  fun hp => inBlock_flat_subset hp h

theorem compl_stackVars_subset (name : Local) : stackVarsᶜ ⊆ (Ptr.inBlock (.var name))ᶜ :=
  Set.compl_subset_compl.mpr fun _ hp => ⟨name, hp⟩

/-- A pointer given by a user program is none of them. -/
theorem KState.userPtr_notMem_stackVars (s : KState) (addr : BitVec 32) :
    s.userPtr addr ∉ stackVars := by
  rintro ⟨name, hname⟩
  exact s.blk_userPtr_ne name hname

theorem KState.blk_userPtr_ne_of_mem (s : KState) {p : Ptr Block} (h : p ∈ stackVars)
    {addr : BitVec 32} : (s.userPtr addr).blk ≠ p.blk := by
  obtain ⟨name, hname⟩ := h
  rw [hname]
  exact s.blk_userPtr_ne name

/-! ### The four bytes -/

namespace FileSystem

section Definitions

variable (fs : FileSystem Block) (m : Mem Block) (inode : BitVec 32)

/-- Byte `k` of `data_buf` when it is compared: that of the file, or what the buffer held before
where the file is too short. -/
def checkedByte (k : ℕ) : UInt8 :=
  if k < (fs.fileLength m inode).toNat then fs.fileByte m inode k else m (Local.dataBuf.ptr.shift k)

/-- The inode passes the check of `read_data`, and the four bytes are those of an executable. -/
def Accepts : Prop :=
  inode ≤ fs.inodesNum m ∧ (List.range 4).map (fs.checkedByte m inode) = exeCheck

end Definitions

variable {fs : FileSystem Block} {m m' : Mem Block} {inode : BitVec 32}

theorem checkedByte_congr (hfs : fs.OnBlock .flat) (hm : Set.EqOn m' m (Ptr.inBlock .flat))
    (hbuf : Set.EqOn m' m (Ptr.inBlock (.var .dataBuf))) (k : ℕ) :
    fs.checkedByte m' inode k = fs.checkedByte m inode k := by
  rw [checkedByte, checkedByte, fileLength_congr hfs hm, fileByte_congr_inBlock hfs hm]
  exact ite_congr rfl (fun _ => rfl) fun _ => hbuf rfl

theorem accepts_congr (hfs : fs.OnBlock .flat) (hm : Set.EqOn m' m (Ptr.inBlock .flat))
    (hbuf : Set.EqOn m' m (Ptr.inBlock (.var .dataBuf))) :
    fs.Accepts m' inode ↔ fs.Accepts m inode := by
  rw [Accepts, Accepts, inodesNum_congr hfs hm, funext (checkedByte_congr hfs hm hbuf)]

/-- The four bytes after `read_data` has been called for them. -/
theorem bytesAt_dataBuf (hfs : fs.OnBlock .flat) (h0 : fs.bootblockHead ≠ Ptr.null)
    (hi : inode ≤ fs.inodesNum m) :
    bytesAt (fs.readData inode 0#32 Local.dataBuf.ptr 4#32 m).2 Local.dataBuf.ptr 4 =
      (List.range 4).map (fs.checkedByte m inode) := by
  have hzero : 0#32 ≤ fs.fileLength m inode := BitVec.le_def.mpr (Nat.zero_le _)
  have hsum : (0#32).toNat + (4#32).toNat < 2 ^ 32 := by decide
  have hblk : Local.dataBuf.ptr.blk ≠ Block.flat := by decide
  have hlen := toNat_clipLength hzero hsum
  have hspec := readData_spec (I := Ptr.inBlock .flat) h0 hi hzero hsum
    (disjoint_span_inBlock hblk _) fun p _ => hfs.byteIn inode _
  have hfour : (4#32).toNat = 4 := rfl
  rw [hfour, BitVec.toNat_zero, Nat.sub_zero] at hlen
  refine List.map_congr_left fun k hk => ?_
  have hk4 := List.mem_range.mp hk
  rw [checkedByte]
  split_ifs with hlt
  · rw [hspec.delivered k (by omega)]
    exact congrArg _ (Nat.zero_add k)
  · exact hspec.eqOn (Ptr.shift_notMem_span (by omega) (by omega))

end FileSystem

/-! ### The checks -/

variable {s : KState} {file : List UInt8} {m : Mem Block} {inode : BitVec 32}
  {checked : Option (BitVec 32)} {i : ℕ}

/-- The command in `file_command`. -/
theorem fileCommand_eqOn (m : Mem Block) (file : List UInt8) :
    Set.EqOn (writeBytes m Local.fileCommand.ptr file) m (Ptr.inBlock (.var .fileCommand))ᶜ :=
  (writeBytes_eqOn ..).mono (Ptr.compl_inBlock_subset (p := Local.fileCommand.ptr) rfl _)

/-- **The checks store into local variables only.** -/
theorem checkExecutable_eqOn (hfs : s.fs.OnBlock .flat)
    (h : checkExecutable s file = some (checked, m)) : Set.EqOn m s.mem stackVarsᶜ := by
  rw [checkExecutable] at h
  split_ifs at h
  obtain ⟨⟨found, m₁⟩, hname, h₁⟩ := Option.bind_eq_some_iff.mp h
  have hentry := (FileSystem.readDentryByName_of_blk_ne hfs (by decide) hname).1
  have hm₁ : Set.EqOn m₁ s.mem stackVarsᶜ :=
    (hentry.mono (compl_stackVars_subset .checkDentry)).trans
      ((fileCommand_eqOn s.mem file).mono (compl_stackVars_subset .fileCommand))
  have hm₂ (inode : BitVec 32) :
      Set.EqOn (s.fs.readData inode 0#32 Local.dataBuf.ptr 4#32 m₁).2 s.mem stackVarsᶜ :=
    ((FileSystem.readData_eqOn ..).mono ((compl_stackVars_subset .dataBuf).trans
      (Ptr.compl_inBlock_subset (p := Local.dataBuf.ptr) rfl _))).trans hm₁
  dsimp only at h₁
  split_ifs at h₁
  · cases h₁
    exact hm₁
  · cases h₁
    exact hm₂ _
  · cases h₁
    exact hm₂ _
  · cases h₁
    exact hm₂ _

/-- A command that names no entry. -/
theorem checkExecutable_of_missed (hlen : file.length ≤ Dentry.fileNameLength)
    (hl : s.fs.lookup (writeBytes s.mem Local.fileCommand.ptr file) Local.fileCommand.ptr =
      some none) :
    checkExecutable s file = some (none, writeBytes s.mem Local.fileCommand.ptr file) := by
  rw [checkExecutable, if_neg (Nat.not_lt.mpr hlen)]
  exact Option.bind_eq_some_iff.mpr
    ⟨_, FileSystem.readDentryByName_of_missed (.inr hl), if_pos rfl⟩

/-- The entry that the search finds is copied to `check_dentry`. -/
theorem exists_checkDentry {r : ℕ} (hfs : s.fs.OnBlock .flat)
    (hl : s.fs.lookup (writeBytes s.mem Local.fileCommand.ptr file) Local.fileCommand.ptr =
      some (some i)) (hr : HasLength s.mem (Dentry.reserved (s.fs.dentry i)) r) :
    ∃ m, s.fs.readDentryByName Local.fileCommand.ptr Local.checkDentry.ptr
        (writeBytes s.mem Local.fileCommand.ptr file) = some (success, m) ∧
      readWord m (Dentry.inodeIndex Local.checkDentry.ptr) = s.fs.entryInode s.mem i ∧
      Set.EqOn m s.mem (Ptr.inBlock .flat) ∧ Set.EqOn m s.mem (Ptr.inBlock (.var .dataBuf)) := by
  set m₁ := writeBytes s.mem Local.fileCommand.ptr file
  have hcommand : Set.EqOn m₁ s.mem (Ptr.inBlock (.var .fileCommand))ᶜ :=
    fileCommand_eqOn s.mem file
  have hflat : Set.EqOn m₁ s.mem (Ptr.inBlock .flat) :=
    hcommand.mono (Ptr.inBlock_subset_compl_inBlock (by decide))
  have hbuf : Set.EqOn m₁ s.mem (Ptr.inBlock (.var .dataBuf)) :=
    hcommand.mono (Ptr.inBlock_subset_compl_inBlock (by decide))
  obtain ⟨hle, htoNat⟩ := FileSystem.lookup_lt hl
  obtain ⟨-, -, ⟨n, hn, -⟩, -⟩ := FileSystem.scanDentry_eq_some_some.mp hl
  have hd : Local.checkDentry.ptr.blk ≠ (s.fs.dentry i).blk := by
    rw [hfs.blk_dentry]
    decide
  have hr₁ : HasLength m₁ (Dentry.reserved (s.fs.dentry i)) r :=
    hr.congr fun k _ => hflat (hfs.blk_dentry i)
  obtain ⟨m₂, hcopy⟩ := exists_copyDentry_of_blk_ne hd hn hr₁
  obtain ⟨hout, -, hinode⟩ := copyDentry_of_blk_ne hd hcopy
  have hname := FileSystem.readDentryByName_of_copy (by decide) hl hle (by rw [htoNat]; exact hcopy)
  exact ⟨m₂, hname,
    hinode.trans (FileSystem.readWord_congr_inBlock (hfs.blk_dentry i) hflat),
    (hout.mono (Ptr.inBlock_subset_compl_inBlock (by decide))).trans hflat,
    (hout.mono (Ptr.inBlock_subset_compl_inBlock (by decide))).trans hbuf⟩

/-- The checks behind the search, for the inode in `check_dentry`. -/
theorem checkExecutable_of_copied (hlen : file.length ≤ Dentry.fileNameLength)
    (hname : s.fs.readDentryByName Local.fileCommand.ptr Local.checkDentry.ptr
      (writeBytes s.mem Local.fileCommand.ptr file) = some (success, m))
    (hinode : readWord m (Dentry.inodeIndex Local.checkDentry.ptr) = inode) :
    let read := s.fs.readData inode 0#32 Local.dataBuf.ptr 4#32 m
    checkExecutable s file = some (if read.1 = failure then none
      else if bytesAt read.2 Local.dataBuf.ptr 4 ≠ exeCheck then none else some inode, read.2) := by
  intro read
  rw [checkExecutable, if_neg (Nat.not_lt.mpr hlen)]
  refine Option.bind_eq_some_iff.mpr ⟨(success, m), hname, ?_⟩
  dsimp only
  rw [if_neg (by decide), hinode]
  split_ifs
  · rfl
  · rfl
  · rfl

/-- **The checks of an entry** that the search finds accept its inode, or nothing. -/
theorem checkExecutable_of_lookup {r : ℕ} (hfs : s.fs.OnBlock .flat)
    (h0 : s.fs.bootblockHead ≠ Ptr.null) (hlen : file.length ≤ Dentry.fileNameLength)
    (hl : s.fs.lookup (writeBytes s.mem Local.fileCommand.ptr file) Local.fileCommand.ptr =
      some (some i)) (hr : HasLength s.mem (Dentry.reserved (s.fs.dentry i)) r) :
    ∃ checked m, checkExecutable s file = some (checked, m) ∧
      (s.fs.Accepts s.mem (s.fs.entryInode s.mem i) ∧
          checked = some (s.fs.entryInode s.mem i) ∨
        ¬ s.fs.Accepts s.mem (s.fs.entryInode s.mem i) ∧ checked = none) := by
  obtain ⟨m, hname, hinode, hflat, hbuf⟩ := exists_checkDentry hfs hl hr
  rw [← FileSystem.accepts_congr hfs hflat hbuf]
  generalize s.fs.entryInode s.mem i = inode at hinode
  refine ⟨_, _, checkExecutable_of_copied hlen hname hinode, ?_⟩
  by_cases hi : inode ≤ s.fs.inodesNum m
  · have hzero : 0#32 ≤ s.fs.fileLength m inode := BitVec.le_def.mpr (Nat.zero_le _)
    have hcount : (s.fs.readData inode 0#32 Local.dataBuf.ptr 4#32 m).1 ≠ failure := by
      rw [FileSystem.readData_fst h0 hi hzero (by decide)]
      have hle := FileSystem.clipLength_le 4#32 hzero
      intro he
      rw [he] at hle
      exact absurd hle (by decide)
    rw [FileSystem.Accepts, and_iff_right hi, ← FileSystem.bytesAt_dataBuf hfs h0 hi, if_neg hcount]
    by_cases hexe : bytesAt (s.fs.readData inode 0#32 Local.dataBuf.ptr 4#32 m).2
        Local.dataBuf.ptr 4 = exeCheck
    · exact .inl ⟨hexe, if_neg (not_not.mpr hexe)⟩
    · exact .inr ⟨hexe, if_pos hexe⟩
  · rw [FileSystem.readData_of_invalid (.inl (BitVec.not_le.mp hi))]
    exact .inr ⟨fun h => hi h.1, if_pos rfl⟩

/-! ### The copy of the program -/

/-- The load address lies in the user page. -/
theorem KState.userPtr_userPaddr (s : KState) :
    s.userPtr userPaddr = ⟨.page s.userFrameNumber, userPaddr - userMem⟩ :=
  if_pos (by decide)

theorem KState.blk_userPtr_userPaddr_ne (s : KState) : (s.userPtr userPaddr).blk ≠ .flat := by
  rw [s.userPtr_userPaddr]
  exact Block.noConfusion

/-- **A program that fits** is copied to the user page as a whole, and nothing else is stored. -/
theorem exists_loadProgram (hfs : s.fs.OnBlock .flat) (h0 : s.fs.bootblockHead ≠ Ptr.null)
    (hi : inode ≤ s.fs.inodesNum s.mem)
    (hfit : s.fs.fileLength s.mem inode ≤ userEnd - userPaddr) :
    ∃ m, loadProgram s inode = some m ∧
      s.fs.Delivered s.mem m inode (s.userPtr userPaddr) (s.fs.fileLength s.mem inode) 0
        (s.fs.fileLength s.mem inode).toNat := by
  have hzero : 0#32 ≤ s.fs.fileLength s.mem inode := BitVec.le_def.mpr (Nat.zero_le _)
  have hsum : (0#32).toNat + userStackSize.toNat < 2 ^ 32 := by decide
  have hclip : s.fs.clipLength s.mem inode 0#32 userStackSize = s.fs.fileLength s.mem inode := by
    have hroom : userEnd - userPaddr < userStackSize + 0#32 := by decide
    have hlt := Nat.lt_of_le_of_lt (BitVec.le_def.mp hfit) (BitVec.lt_def.mp hroom)
    rw [FileSystem.clipLength, if_pos (BitVec.lt_def.mpr hlt), BitVec.sub_zero]
  have hblk := s.blk_userPtr_userPaddr_ne
  have hcount : (s.fs.readData inode 0#32 (s.userPtr userPaddr) userStackSize s.mem).1 =
      s.fs.clipLength s.mem inode 0#32 userStackSize := FileSystem.readData_fst h0 hi hzero hsum
  have hspec := FileSystem.readData_spec (I := Ptr.inBlock .flat) h0 hi hzero hsum
    (FileSystem.disjoint_span_inBlock hblk _) fun p _ => hfs.byteIn inode _
  rw [hclip] at hcount hspec
  refine ⟨(s.fs.readData inode 0#32 (s.userPtr userPaddr) userStackSize s.mem).2, ?_, hspec⟩
  rw [loadProgram]
  exact if_neg fun hlt => BitVec.not_lt.mpr hfit (hcount ▸ hlt.2)

/-- **`execute` starts a process** for a file that is accepted and fits, when a process id is free.
The program is that of the file. -/
theorem execute_of_checked {command arg : List UInt8} {t : ProcTable} (hfs : s.fs.OnBlock .flat)
    (h0 : s.fs.bootblockHead ≠ Ptr.null) (hparse : parse command = some (file, arg))
    (hcheck : checkExecutable s file = some (some inode, m)) (halloc : s.procs.allocate = some t)
    (hi : inode ≤ s.fs.inodesNum s.mem)
    (hfit : s.fs.fileLength s.mem inode ≤ userEnd - userPaddr) :
    ∃ s' : KState, execute command s = some (.user s'.entry (userMem + userStackSize - 4#32), s') ∧
      s'.fs = s.fs ∧ s'.procs = t.start s.calls ∧
      s.fs.Delivered m s'.mem inode (s'.userPtr userPaddr) (s.fs.fileLength s.mem inode) 0
        (s.fs.fileLength s.mem inode).toNat := by
  have hm : Set.EqOn m s.mem (Ptr.inBlock .flat) :=
    (checkExecutable_eqOn hfs hcheck).mono inBlock_flat_subset
  have hlength := FileSystem.fileLength_congr hfs hm inode
  set s₁ : KState := { s with mem := m, calls := s.calls + 1, procs := t.mapPage t.newPid } with hs₁
  obtain ⟨m₂, hload, hspec⟩ := exists_loadProgram (s := s₁) hfs h0
    (by rw [hs₁, FileSystem.inodesNum_congr hfs hm]; exact hi) (by rwa [hs₁, hlength])
  set s₂ : KState := { s with
    mem := m₂
    calls := s.calls + 1
    procs := t.start s.calls
    creator := Function.update s.creator t.newPid s.calls } with hs₂
  have hcreate : createProcess s.calls inode { s with mem := m, calls := s.calls + 1 } =
      some (.user s₂.entry (userMem + userStackSize - 4#32), s₂) := by
    rw [createProcess]
    dsimp only
    rw [halloc]
    refine Option.bind_eq_some_iff.mpr ⟨m₂, hload, ?_⟩
    rw [executeTail_of_ne (by decide)]
    exact congrArg (fun eip => some (Outcome.user eip _, s₂)) (entry_congr rfl rfl)
  refine ⟨s₂, ?_, rfl, rfl, ?_⟩
  · exact Option.bind_eq_some_iff.mpr ⟨(file, arg), hparse,
      Option.bind_eq_some_iff.mpr ⟨(some inode, m), hcheck, hcreate⟩⟩
  · rw [← hlength]
    exact hspec

end Mp3Kernel
