import Mp3Kernel.Process.Checks
import Mp3Kernel.Process.Run

/-!
# Programs that can be started

When `execute` starts a process: the first entry of the directory whose name begins the command has
an inode with the four bytes of an executable file, a process id is free, and the file fits into the
rest of the user page.

## Main definitions

* `FileSystem.Executable`: the command names an executable file.

## Main results

* `execute_of_executable`: `execute` starts a process.

Source: `process.c`, lines 48–215.
-/

namespace Mp3Kernel

open ByteMemory Transition

/-- The bytes `file` of `file_command` name an executable file with the given inode: the first entry
whose name begins them is copied without overflow, and its inode has the four bytes of an
executable. -/
structure FileSystem.Executable (fs : FileSystem Block) (m : Mem Block) (file : List UInt8)
    (inode : BitVec 32) : Prop where
  /-- The image lies in the flat address space. -/
  onBlock : fs.OnBlock .flat
  /-- The file system is initialised. -/
  head : fs.bootblockHead ≠ Ptr.null
  /-- The command fits into `file_command`. -/
  length : file.length ≤ Dentry.fileNameLength
  /-- The entry. -/
  entry : ∃ i n r, i < (fs.dentryNum m).toInt.toNat ∧
    HasLength m (Dentry.fileName (fs.dentry i)) n ∧ HasLength m (Dentry.reserved (fs.dentry i)) r ∧
    (∀ k < n, file[k]? = some (m ((Dentry.fileName (fs.dentry i)).shift k))) ∧
    (∀ j < i, ∃ n', HasLength m (Dentry.fileName (fs.dentry j)) n' ∧
      ∃ k < n', k < file.length ∧ file[k]? ≠ some (m ((Dentry.fileName (fs.dentry j)).shift k))) ∧
    readWord m (Dentry.inodeIndex (fs.dentry i)) = inode
  /-- The inode. -/
  inode_le : inode ≤ fs.inodesNum m
  /-- The file has four bytes. -/
  four : 4#32 ≤ fs.fileLength m inode
  /-- They are the bytes of an executable. -/
  exeCheck : (List.range 4).map (fs.fileByte m inode) = exeCheck

variable {s : KState} {file : List UInt8} {inode : BitVec 32} {m m' : Mem Block}

namespace FileSystem.Executable

variable {fs : FileSystem Block}

/-- Only the flat address space matters. -/
theorem congr (h : fs.Executable m file inode) (hm : Set.EqOn m' m (Ptr.inBlock .flat)) :
    fs.Executable m' file inode := by
  obtain ⟨i, n, r, hi, hn, hr, hfile, hbefore, hinode⟩ := h.entry
  have hb (j k : ℕ) := dentry_congr h.onBlock hm j k
  refine ⟨h.onBlock, h.head, h.length, ⟨i, n, r, ?_, ?_, ?_, ?_, ?_, ?_⟩, ?_, ?_, ?_⟩
  · rwa [dentryNum_congr h.onBlock hm]
  · exact hn.congr fun k _ => fileName_congr h.onBlock hm i k
  · exact hr.congr fun k _ => hm (h.onBlock.blk_dentry i)
  · intro k hk
    rw [fileName_congr h.onBlock hm i k, hfile k hk]
  · intro j hj
    obtain ⟨n', hn', k, hk, hlt, hne⟩ := hbefore j hj
    refine ⟨n', hn'.congr fun k _ => fileName_congr h.onBlock hm j k, k, hk, hlt, ?_⟩
    rwa [fileName_congr h.onBlock hm j k]
  · rw [← hinode]
    exact readWord_congr_inBlock (h.onBlock.blk_dentry i) hm
  · rw [inodesNum_congr h.onBlock hm]
    exact h.inode_le
  · rw [fileLength_congr h.onBlock hm]
    exact h.four
  · rw [← h.exeCheck]
    exact List.map_congr_left fun p _ => fileByte_congr_inBlock h.onBlock hm inode p

/-- The search for the command finds an entry with the inode. -/
theorem exists_lookup (h : fs.Executable m file inode) :
    ∃ i r, fs.lookup (writeBytes m Local.fileCommand.ptr file) Local.fileCommand.ptr =
        some (some i) ∧ HasLength m (Dentry.reserved (fs.dentry i)) r ∧
      fs.entryInode m i = inode := by
  set m₁ := writeBytes m Local.fileCommand.ptr file with hm₁
  have hm : Set.EqOn m₁ m (Ptr.inBlock .flat) :=
    (fileCommand_eqOn m file).mono (Ptr.inBlock_subset_compl_inBlock (by decide))
  obtain ⟨i, n, r, hi, hn, hr, hfile, hbefore, hinode⟩ := (h.congr hm).entry
  have hlen := h.length
  rw [Dentry.fileNameLength] at hlen
  have hbyte (k : ℕ) (hk : k < file.length) :
      file[k]? = some (m₁ (Local.fileCommand.ptr.shift k)) := by
    rw [List.getElem?_eq_getElem hk]
    exact congrArg some (writeBytes_shift m Local.fileCommand.ptr file (by omega) hk).symm
  have hblk := h.onBlock.blk_dentry i
  refine ⟨i, r, ?_, hr.congr fun k _ => hm.symm hblk,
    (readWord_congr_inBlock (p := Dentry.inodeIndex (fs.dentry i)) hblk hm).symm.trans hinode⟩
  refine scanDentry_eq_some_some.mpr ⟨Nat.zero_le i, by omega, ⟨n, hn, fun k hk => ?_⟩,
    fun j _ hj => ?_⟩
  · have hk' : k < file.length := (List.getElem?_eq_some_iff.mp (hfile k hk)).1
    exact Option.some.inj ((hbyte k hk').symm.trans (hfile k hk))
  · obtain ⟨n', hn', k, hk, hlt, hne⟩ := hbefore j hj
    refine ⟨n', hn', fun hp => hne ?_⟩
    rw [hbyte k hlt, hp k hk]

/-- The checks accept the inode. -/
theorem accepts (h : fs.Executable m file inode) : fs.Accepts m inode := by
  refine ⟨h.inode_le, ?_⟩
  rw [← h.exeCheck]
  refine List.map_congr_left fun k hk => if_pos ?_
  exact Nat.lt_of_lt_of_le (List.mem_range.mp hk) (BitVec.le_def.mp h.four)

end FileSystem.Executable

/-- The checks of `execute` accept a command that names an executable file. -/
theorem checkExecutable_of_executable (h : s.fs.Executable s.mem file inode) :
    ∃ m, checkExecutable s file = some (some inode, m) := by
  obtain ⟨i, r, hl, hr, hinode⟩ := h.exists_lookup
  obtain ⟨checked, m, hcheck, hcases⟩ :=
    checkExecutable_of_lookup h.onBlock h.head h.length hl hr
  rw [hinode] at hcases
  rcases hcases with ⟨-, rfl⟩ | ⟨hnot, -⟩
  · exact ⟨m, hcheck⟩
  · exact absurd h.accepts hnot

/-- **`execute` starts a process** when its command names an executable file that fits, and a
process id is free. The image stays as it is. -/
theorem execute_of_executable {command arg : List UInt8} {t : ProcTable}
    (hparse : parse command = some (file, arg)) (h : s.fs.Executable s.mem file inode)
    (halloc : s.procs.allocate = some t)
    (hfit : s.fs.fileLength s.mem inode ≤ userEnd - userPaddr) :
    ∃ s' : KState, execute command s = some (.user s'.entry (userMem + userStackSize - 4#32), s') ∧
      s'.fs = s.fs ∧ Set.EqOn s'.mem s.mem (Ptr.inBlock .flat) ∧ s'.procs = t.start s.calls := by
  obtain ⟨m, hcheck⟩ := checkExecutable_of_executable h
  obtain ⟨s', hex, hfs, hprocs, hspec⟩ :=
    execute_of_checked h.onBlock h.head hparse hcheck halloc h.inode_le hfit
  have hblk := s'.blk_userPtr_userPaddr_ne
  have hm : Set.EqOn m s.mem (Ptr.inBlock .flat) :=
    (checkExecutable_eqOn h.onBlock hcheck).mono inBlock_flat_subset
  exact ⟨s', hex, hfs, (hspec.eqOn.mono (Ptr.inBlock_subset_compl_span hblk _)).trans hm, hprocs⟩

/-! ### Ending a process -/

/-- The strings of the directory entries end, so that `close` can copy them. -/
structure FileSystem.EntriesEnd (fs : FileSystem Block) (m : Mem Block) : Prop where
  /-- The image lies in the flat address space. -/
  onBlock : fs.OnBlock .flat
  /-- The two strings of every entry. -/
  ends : ∀ i < maxFileNumber, BitVec.ofNat 32 i ≤ fs.dentryNum m →
    ∃ n r, HasLength m (Dentry.fileName (fs.dentry i)) n ∧
      HasLength m (Dentry.reserved (fs.dentry i)) r

theorem FileSystem.EntriesEnd.congr {fs : FileSystem Block} (h : fs.EntriesEnd m)
    (hm : Set.EqOn m' m (Ptr.inBlock .flat)) : fs.EntriesEnd m' := by
  refine ⟨h.onBlock, fun i hi hle => ?_⟩
  rw [dentryNum_congr h.onBlock hm] at hle
  obtain ⟨n, r, hn, hr⟩ := h.ends i hi hle
  exact ⟨n, r, hn.congr fun k _ => fileName_congr h.onBlock hm i k,
    hr.congr fun k _ => hm (h.onBlock.blk_dentry i)⟩

/-- The scan of `close` ends, and stores into a local variable only. -/
theorem exists_closeScan {fs : FileSystem Block} {current : Ptr Block} (hcur : current ∈ stackVars)
    (h : fs.EntriesEnd m) :
    ∃ m', closeScan fs current m = some m' ∧ Set.EqOn m' m (Ptr.inBlock .flat) := by
  refine exists_foldlM (I := fun m' => Set.EqOn m' m (Ptr.inBlock .flat))
    (fun _ _ m₁ hm₁ => exists_foldlM (fun i hi m₂ hm₂ => ?_) hm₁) (Set.eqOn_refl ..)
  have h₂ := h.congr hm₂
  have hi' : (BitVec.ofNat 32 i).toNat = i := by
    have hlt := List.mem_range.mp hi
    rw [maxFileNumber] at hlt
    rw [BitVec.toNat_ofNat]
    omega
  by_cases hle : BitVec.ofNat 32 i ≤ fs.dentryNum m₂
  · obtain ⟨n, r, hn, hr⟩ := h₂.ends i (List.mem_range.mp hi) hle
    have hd : current.blk ≠ (fs.dentry (BitVec.ofNat 32 i).toNat).blk := by
      rw [h.onBlock.blk_dentry]
      exact blk_ne_flat_of_mem hcur
    rw [← hi'] at hn hr
    obtain ⟨m₃, hcopy⟩ := exists_copyDentry_of_blk_ne hd hn hr
    have hout := (copyDentry_of_blk_ne hd hcopy).1
    refine ⟨m₃, ?_,
      (hout.mono (Ptr.inBlock_subset_compl_inBlock (blk_ne_flat_of_mem hcur).symm)).trans hm₂⟩
    rw [FileSystem.readDentryByIndex_of_copy hle hcopy, Option.map_some]
  · refine ⟨m₂, ?_, hm₂⟩
    rw [FileSystem.readDentryByIndex, if_pos (BitVec.not_le.mp hle), Option.map_some]

/-- Every call outside the table returns, and leaves the flat address space alone. -/
def Returning (wild : Wild) : Prop :=
  ∀ p s, ∃ r s', wild.call p s = some (r, s') ∧ s'.fs = s.fs ∧
    Set.EqOn s'.mem s.mem (Ptr.inBlock .flat)

variable {wild : Wild}

/-- `close` returns. -/
theorem exists_sysClose (hret : Returning wild) (h : s.fs.EntriesEnd s.mem) (i : BitVec 32)
    {current : Ptr Block} (hcur : current ∈ stackVars) :
    ∃ r s', sysClose wild i current s = some (r, s') ∧ s'.fs = s.fs ∧
      Set.EqOn s'.mem s.mem (Ptr.inBlock .flat) := by
  rw [sysClose_eq wild hcur]
  by_cases h0 : s.procs.filedArray = 0#32
  · exact ⟨failure, s, if_pos h0, rfl, Set.eqOn_refl ..⟩
  · obtain ⟨m, hm, hout⟩ := exists_closeScan hcur h
    obtain ⟨r, s', hwild, hfs, hmem⟩ := hret s.procs.fotPtr8 { s with mem := m }
    refine ⟨r, s', ?_, hfs, hmem.trans hout⟩
    rw [if_neg h0]
    exact Option.bind_eq_some_iff.mpr ⟨m, hm, hwild⟩

/-- A frame that is saved is resumed. -/
theorem exists_resume {call : ℕ}
    (hframe : (s.procs.pcbs s.procs.curProcessPtr).scheduledEbp = some (.initializePCB call))
    (status : UInt8) :
    ∃ o s', resume status s = some (o, s') ∧ s'.fs = s.fs ∧ s'.mem = s.mem := by
  rw [resume, hframe]
  by_cases h : ((haltResult status).setWidth 32).setWidth 8 = 0xFF#8
  · exact ⟨.returns call failure, s, congrArg some (if_pos h), rfl, rfl⟩
  · exact ⟨_, { s with procs := s.procs.setTss }, congrArg some (executeTail_of_ne h), rfl, rfl⟩

/-- **`halt` completes** in a process that has a parent in which a frame is saved. -/
theorem exists_halt (hw : Benign wild) (hret : Returning wild) (h : s.fs.EntriesEnd s.mem)
    (hparent : s.procs.parentPid ≠ -1#32) {call : ℕ}
    (hframe : (s.procs.pcbs (pcbAddr s.procs.parentPid)).scheduledEbp =
      some (.initializePCB call)) (status : UInt8) {currents : ℕ → Ptr Block}
    (hcur : ∀ fd, currents fd ∈ stackVars) :
    ∃ o s', halt wild status currents s = some (o, s') ∧ s'.fs = s.fs ∧
      Set.EqOn s'.mem s.mem (Ptr.inBlock .flat) := by
  let P : KState → Prop := fun s' => s'.fs = s.fs ∧ Set.EqOn s'.mem s.mem (Ptr.inBlock .flat)
  have hclose (fd : ℕ) (s' : KState) (hs' : P s') :
      ∃ s'', closeFd wild currents fd s' = some s'' ∧ P s'' := by
    obtain ⟨r, s'', hs'', hfs, hmem⟩ := exists_sysClose hret (s := s')
      (by rw [hs'.1]; exact h.congr hs'.2) (BitVec.ofNat 32 fd) (hcur fd)
    exact ⟨s'', Option.map_eq_some_iff.mpr ⟨(r, s''), hs'', rfl⟩, hfs.trans hs'.1,
      hmem.trans hs'.2⟩
  have hclear (fd : ℕ) (s' : KState) (hs' : P s') :
      ∃ s'', clearAndClose wild currents fd s' = some s'' ∧ P s'' :=
    hclose fd { s' with procs := s'.procs.clearFlags fd } hs'
  obtain ⟨s₁, h₁, hP₁⟩ := exists_foldlM (I := P) (l := [2, 3, 4, 5, 6, 7])
    (s := { s with procs := s.procs.release.toParent s.procs.parentPid })
    (fun fd _ => hclose fd) ⟨rfl, Set.eqOn_refl ..⟩
  obtain ⟨s₂, h₂, hP₂⟩ := hclear 0 s₁ hP₁
  obtain ⟨s₃, h₃, hP₃⟩ := hclear 1 s₂ hP₂
  have hall :
      closeAll wild currents { s with procs := s.procs.release.toParent s.procs.parentPid } =
        some s₃ :=
    Option.bind_eq_some_iff.mpr ⟨s₁, h₁, Option.bind_eq_some_iff.mpr ⟨s₂, h₂, h₃⟩⟩
  have hprocs : s₃.procs.adopt s.procs.parentPid = s.procs.leave := by
    rw [(closeAll_keeps hcur hw hall).1]
    rfl
  have hframe₃ : (s.procs.leave.pcbs s.procs.leave.curProcessPtr).scheduledEbp =
      some (.initializePCB call) := by
    obtain ⟨fds, hpcb⟩ := ProcTable.pcbs_leave s.procs (pcbAddr s.procs.parentPid)
    rw [ProcTable.curProcessPtr_leave, hpcb, hframe]
  obtain ⟨o, s', hs', hfs, hmem⟩ :=
    exists_resume (s := { s₃ with procs := s.procs.leave }) hframe₃ status
  refine ⟨o, s', ?_, hfs.trans hP₃.1, fun p hp => (congrFun hmem p).trans (hP₃.2 hp)⟩
  have hchild :
      haltChild wild status currents s.procs.parentPid { s with procs := s.procs.release } =
        some (o, s') := by
    refine Option.bind_eq_some_iff.mpr ⟨s₃, hall, ?_⟩
    rw [hprocs]
    exact hs'
  exact (if_neg hparent).trans hchild

/-! ### An image with a shell -/

/-- The bytes of an image at `0x500000` that are not zero: two directory entries, the regular file
`shell` and the device `rtc`, one index node and one data block, which holds an entry point
as an executable does. The file ends before it. -/
def sampleBytes : List (BitVec 32 × UInt8) :=
  [(0x500000#32, 2), (0x500004#32, 1), (0x500008#32, 1),
    (0x500040#32, 0x73), (0x500041#32, 0x68), (0x500042#32, 0x65), (0x500043#32, 0x6C),
    (0x500044#32, 0x6C), (0x500060#32, 2),
    (0x500080#32, 0x72), (0x500081#32, 0x74), (0x500082#32, 0x63), (0x501000#32, 4),
    (0x502000#32, 0x7F), (0x502001#32, 0x45), (0x502002#32, 0x4C), (0x502003#32, 0x46),
    (0x502018#32, 0x1C), (0x502019#32, 0x80), (0x50201A#32, 0x04), (0x50201B#32, 0x08)]

/-- A memory with the sample image. -/
def sampleMem : Mem Block := fun p =>
  if p.blk = .flat then (sampleBytes.lookup p.off).getD 0 else 0

/-- A state in which the kernel starts the shell from the sample image, with the page table at
`0x401000`. -/
def sampleBoot : KState where
  mem := sampleMem
  fs := filesystemInit ⟨.flat, 0x500000#32⟩ sampleMem
  console := ⟨.init, ⟨fun _ => 0, 0, 0, 0, 0⟩, fun _ => 0⟩
  rtcFreq := 0
  procs := {
    pidCheck := fun _ => 0
    curPid := -1#32
    newPid := -1#32
    curProcessPtr := 0#32
    filedArray := 0#32
    pcbs := fun _ => ⟨fun _ => ⟨.raw 0#32, 0#32, 0#32, 0#32⟩, 0#32, 0#32, 0#32, none, none⟩
    paging := Paging.pagingInit 0x401000#32 ⟨fun _ => 0#32, fun _ => 0#32⟩
    tssEsp0 := endOfKernel
    tssSs0 := kernelDS }
  calls := 0
  creator := fun _ => 0

theorem isBoot_sampleBoot : sampleBoot.IsBoot 0x401000#32 where
  pidCheck _ _ := rfl
  curPid := rfl
  newPid := rfl
  curProcessPtr := rfl
  filedArray := rfl
  paging := ⟨⟨fun _ => 0#32, fun _ => 0#32⟩, by rw [sampleBoot]⟩
  fs := ⟨0x500000#32, rfl⟩
  rtcFreq := rfl

/-- The field `file_length` of the only index node. -/
def sampleLength : Ptr Block := sampleBoot.fs.indexnodeHead

/-- Between the fields that are set, the memory is zero. -/
theorem sampleMem_eq_zero {p : Ptr Block} (h₁ : 0x501001#32 ≤ p.off) (h₂ : p.off < 0x502000#32) :
    sampleMem p = 0 := by
  have hkeys : sampleBytes.all fun q => decide (q.1 < 0x501001#32 ∨ 0x502000#32 ≤ q.1) := by decide
  have hnone : sampleBytes.lookup p.off = none := by
    refine List.lookup_eq_none_iff.mpr fun q hq => bne_iff_ne.mpr fun he => ?_
    rcases of_decide_eq_true (List.all_eq_true.mp hkeys q hq) with hlt | hle
    · exact BitVec.not_lt.mpr h₁ (he ▸ hlt)
    · exact BitVec.not_lt.mpr hle (he ▸ h₂)
  rw [sampleMem, hnone]
  exact ite_self _

section SampleImage

variable (hm : Set.EqOn m sampleMem (Ptr.inBlock .flat \ sampleLength.span 4))

include hm

theorem sampleMem_byte {k : ℕ} (hk : k < 0x1000 ∨ 0x1004 ≤ k ∧ k < 2 ^ 32) :
    m (sampleBoot.fs.bootblockHead.shift k) = sampleMem (sampleBoot.fs.bootblockHead.shift k) := by
  have hlength : sampleLength = sampleBoot.fs.bootblockHead.shift 0x1000 := by decide
  refine hm ⟨rfl, ?_⟩
  rw [hlength]
  exact Ptr.shift_notMem_span_shift (by omega) (by omega) (by omega)

theorem sampleMem_word {k : ℕ} (hk : k + 4 ≤ 0x1000 ∨ 0x1004 ≤ k ∧ k + 4 ≤ 2 ^ 32) :
    readWord m (sampleBoot.fs.bootblockHead.shift k) =
      readWord sampleMem (sampleBoot.fs.bootblockHead.shift k) :=
  readWord_of_bytes fun i hi => by
    rw [Ptr.shift_shift]
    exact sampleMem_byte hm (by omega)

theorem sampleMem_numbers : sampleBoot.fs.dentryNum m = 2#32 ∧ sampleBoot.fs.inodesNum m = 1#32 ∧
    sampleBoot.fs.dataNum m = 1#32 := by
  have hdentryNum := sampleMem_word hm (k := 0) (by omega)
  rw [Ptr.shift_zero] at hdentryNum
  exact ⟨hdentryNum.trans (by decide), (sampleMem_word hm (k := 4) (by omega)).trans (by decide),
    (sampleMem_word hm (k := 8) (by omega)).trans (by decide)⟩

/-- All blocks of the file are the first data block. -/
theorem sampleMem_dataBlock {j : ℕ} (hj : j < 1023) : sampleBoot.fs.dataBlock m 0#32 j = 0#32 := by
  have hlength : sampleBoot.fs.indexnodeHead = sampleBoot.fs.bootblockHead.shift 0x1000 := by decide
  have hptr : sampleBoot.fs.indexnodeHead.shift (dataBlockSize * (0#32).toNat + 4 + 4 * j) =
      sampleBoot.fs.bootblockHead.shift (0x1004 + 4 * j) := by
    rw [hlength, Ptr.shift_shift, BitVec.toNat_zero]
    exact congrArg _ (by omega)
  have hzero (i : ℕ) (hi : i < 4) :
      sampleMem (sampleBoot.fs.bootblockHead.shift (0x1004 + 4 * j + i)) = 0 := by
    refine sampleMem_eq_zero ?_ ?_
    · show 0x501001#32 ≤ 0x500000#32 + BitVec.ofNat 32 (0x1004 + 4 * j + i)
      bv_omega
    · show 0x500000#32 + BitVec.ofNat 32 (0x1004 + 4 * j + i) < 0x502000#32
      bv_omega
  rw [FileSystem.dataBlock, hptr, sampleMem_word hm (by omega)]
  have hread : readWord sampleMem (sampleBoot.fs.bootblockHead.shift (0x1004 + 4 * j)) =
      readWord (fun _ => 0) sampleLength :=
    readWord_of_bytes fun i hi => by rw [Ptr.shift_shift, hzero i hi]
  rw [hread]
  decide

/-- **An image that differs from the sample image in the length of its file** is well formed, as
long as the file is not too long. -/
theorem wellFormed_of_sampleMem (hlen : (sampleBoot.fs.fileLength m 0#32).toNat ≤ maxFileSize) :
    sampleBoot.fs.WellFormed m := by
  obtain ⟨hdentryNum, hinodesNum, hdataNum⟩ := sampleMem_numbers hm
  have hinode {inode : BitVec 32} (hin : inode < sampleBoot.fs.inodesNum m) : inode = 0#32 := by
    rw [hinodesNum] at hin
    bv_omega
  constructor
  case head => decide
  case init =>
    rw [filesystemInit, sampleMem_word hm (by omega)]
    rfl
  case fits =>
    rw [hinodesNum, hdataNum]
    decide
  case dentryNum_le =>
    rw [hdentryNum]
    decide
  case terminated =>
    intro i hi
    refine ⟨0, by decide, ?_⟩
    have hi' := hi
    rw [maxFileNumber] at hi'
    rw [FileSystem.dentry, Dentry.size, Dentry.reserved, Ptr.shift_shift, Ptr.shift_shift,
      sampleMem_byte hm (by omega)]
    revert i
    decide
  case inode_lt =>
    intro i hi _
    rw [hdentryNum] at hi
    have hi' : i < 2 := hi
    have hentry : sampleBoot.fs.entryInode m i = sampleBoot.fs.entryInode sampleMem i := by
      rw [FileSystem.entryInode, FileSystem.entryInode, FileSystem.dentry, Dentry.size,
        Dentry.inodeIndex, Ptr.shift_shift]
      exact sampleMem_word hm (by omega)
    rw [hinodesNum, hentry]
    obtain rfl | rfl := Nat.le_one_iff_eq_zero_or_eq_one.mp (Nat.le_of_lt_succ hi')
    · decide
    · decide
  case length_le =>
    intro inode hin
    rwa [hinode hin]
  case block_lt =>
    intro inode hin p hp
    rw [hinode hin] at hp ⊢
    rw [maxFileSize] at hlen
    rw [sampleMem_dataBlock hm (by rw [dataBlockSize]; omega), hdataNum]
    decide

end SampleImage

/-- The sample image is well formed. -/
theorem wellFormed_sampleMem : sampleBoot.fs.WellFormed sampleMem :=
  wellFormed_of_sampleMem (Set.eqOn_refl ..) (by decide)

/-- The shell of the sample image is executable. -/
theorem executable_sampleMem :
    (filesystemInit ⟨.flat, 0x500000#32⟩ sampleMem).Executable sampleMem (shell ++ [0]) 0#32 where
  onBlock := FileSystem.onBlock_filesystemInit _ _
  head := by decide
  length := by decide
  entry := ⟨0, 5, 0, by decide, ⟨by decide, by decide⟩, ⟨by decide, by decide⟩, by decide,
    fun j hj => absurd hj (Nat.not_lt_zero j), by decide⟩
  inode_le := by decide
  four := by decide
  exeCheck := by decide

theorem parse_shell : parse shell = some (shell ++ [0], []) := by decide

/-- With the sample image and a free process id, the shell starts. -/
theorem execute_shell_sample {t : ProcTable} (hfs : s.fs = sampleBoot.fs)
    (hmem : Set.EqOn s.mem sampleMem (Ptr.inBlock .flat)) (halloc : s.procs.allocate = some t) :
    ∃ s' : KState, execute shell s = some (.user s'.entry (userMem + userStackSize - 4#32), s') ∧
      s'.fs = sampleBoot.fs ∧ Set.EqOn s'.mem sampleMem (Ptr.inBlock .flat) ∧
      s'.procs = t.start s.calls := by
  have hexec : s.fs.Executable s.mem (shell ++ [0]) 0#32 := by
    rw [hfs]
    exact executable_sampleMem.congr hmem
  have hfit : s.fs.fileLength s.mem 0#32 ≤ userEnd - userPaddr := by
    rw [FileSystem.fileLength_congr hexec.onBlock hmem, hfs]
    decide
  obtain ⟨s', hex, hfs', hmem', hprocs⟩ := execute_of_executable parse_shell hexec halloc hfit
  exact ⟨s', hex, hfs'.trans hfs, hmem'.trans hmem, hprocs⟩

/-- The kernel starts the shell of the sample image. -/
theorem execute_shell_sampleBoot :
    ∃ s : KState, execute shell sampleBoot =
        some (.user s.entry (userMem + userStackSize - 4#32), s) ∧
      s.fs = sampleBoot.fs ∧ Set.EqOn s.mem sampleMem (Ptr.inBlock .flat) ∧
      s.procs.Chain 0x401000#32 0 := by
  cases halloc : sampleBoot.procs.allocate with
  | none =>
    have hlive := ProcTable.allocate_eq_none.mp halloc 0 (by decide)
    exact absurd (isBoot_sampleBoot.pidCheck 0 (by decide)) hlive
  | some t =>
    obtain ⟨s, hex, hfs, hmem, hprocs⟩ :=
      execute_shell_sample rfl (Set.eqOn_refl sampleMem _) halloc
    refine ⟨s, hex, hfs, hmem, ?_⟩
    rw [hprocs]
    exact isBoot_sampleBoot.idle.start halloc _

/-- Where a directory entry has its inode at `0x4060C0`, the address of `issue.rtc_freq`. -/
def freqCurrent : Ptr Block := ⟨.flat, 0x40609C#32⟩

/-- Four bytes below the control block of process 0: there a directory entry has its type over the
flags of descriptor 1, and its inode over the driver of descriptor 2. -/
def fdCurrent : Ptr Block := ⟨.flat, pcbAddr 0#32 - 4#32⟩

/-- The descriptors of process 0 after an entry without a reserved string has been stored at
`fdCurrent`. -/
def strayFds (m : Mem Block) (fds : ℕ → FdEntry) : ℕ → FdEntry :=
  Function.update
    (Function.update fds 1 { fds 1 with flags := readWord m (Dentry.fileType fdCurrent) }) 2
    { fds 2 with
      fileotPointer := .raw (readWord m (Dentry.inodeIndex fdCurrent))
      inode := (fds 2).inode &&& 0xFFFFFF00#32 }

/-- Calls outside the table return at once. Of the pointers outside the scratch memory two hit data
of the kernel. -/
def sampleWild : Wild where
  call _ s := some (0#32, s)
  stray current s :=
    if current = freqCurrent then
      { s with rtcFreq := (readWord s.mem (Dentry.inodeIndex current)).toInt }
    else if current = fdCurrent then
      { s with procs :=
          s.procs.setFds (pcbAddr 0#32) (strayFds s.mem (s.procs.pcbs (pcbAddr 0#32)).fdArray) }
    else s

theorem stored_freqCurrent (s : KState) : sampleWild.stored freqCurrent s =
    { s with rtcFreq := (readWord s.mem (Dentry.inodeIndex freqCurrent)).toInt } := by
  have hscratch : freqCurrent ∉ stackVars := by decide
  rw [Wild.stored, if_neg hscratch]
  dsimp only [sampleWild]
  rw [if_pos rfl]

theorem stored_fdCurrent (s : KState) : sampleWild.stored fdCurrent s =
    { s with
      procs := s.procs.setFds (pcbAddr 0#32)
        (strayFds s.mem (s.procs.pcbs (pcbAddr 0#32)).fdArray) } := by
  have hscratch : fdCurrent ∉ stackVars := by decide
  have hfreq : fdCurrent ≠ freqCurrent := by decide
  rw [Wild.stored, if_neg hscratch]
  dsimp only [sampleWild]
  rw [if_neg hfreq, if_pos rfl]

/-- The pointers of the calls of `close` in the samples. -/
def sampleCurrents : ℕ → Ptr Block := fun _ => Local.current.ptr

theorem sampleCurrents_mem (fd : ℕ) : sampleCurrents fd ∈ stackVars :=
  Local.ptr_mem_stackVars .current

theorem benign_sampleWild : Benign sampleWild := fun _ _ _ _ h => by
  cases h
  exact .refl _

/-- The sample image has a reachable state, with the first process running. -/
theorem exists_reachable_sample :
    ∃ s, Reachable sampleWild 0x401000#32 s ∧ s.fs = sampleBoot.fs ∧
      Set.EqOn s.mem sampleMem (Ptr.inBlock .flat) ∧ s.procs.Chain 0x401000#32 0 := by
  obtain ⟨s, hex, hfs, hmem, hc⟩ := execute_shell_sampleBoot
  exact ⟨s, ⟨sampleBoot, s, _, _, [], isBoot_sampleBoot, hex, .nil s⟩, hfs, hmem, hc⟩

theorem returning_sampleWild : Returning sampleWild := fun _ s =>
  ⟨0#32, s, rfl, rfl, Set.eqOn_refl ..⟩

section Bootblock

variable (hm : ∀ k < 0x1000, m (sampleBoot.fs.bootblockHead.shift k) =
  sampleMem (sampleBoot.fs.bootblockHead.shift k))

include hm

theorem terminated_of_sampleMem {i : ℕ} (hi : i < maxFileNumber) :
    Dentry.Terminated m (sampleBoot.fs.dentry i) := by
  obtain ⟨k, hk, h0⟩ := wellFormed_sampleMem.terminated i hi
  rw [FileSystem.dentry, Dentry.size, Dentry.reserved, Ptr.shift_shift, Ptr.shift_shift] at h0
  rw [maxFileNumber] at hi
  refine ⟨k, hk, ?_⟩
  rw [FileSystem.dentry, Dentry.size, Dentry.reserved, Ptr.shift_shift, Ptr.shift_shift]
  exact (hm _ (by omega)).trans h0

/-- With the boot block of the sample image, `close` can copy the entries. -/
theorem entriesEnd_of_sampleMem : sampleBoot.fs.EntriesEnd m where
  onBlock := FileSystem.onBlock_filesystemInit _ _
  ends i hi _ := by
    obtain ⟨n, -, r, -, hn, hr⟩ := (terminated_of_sampleMem hm hi).exists_length
    exact ⟨n, r, hn, hr⟩

end Bootblock

theorem entriesEnd_sampleMem : sampleBoot.fs.EntriesEnd sampleMem :=
  entriesEnd_of_sampleMem fun _ _ => rfl

/-- With the sample image, the entry of the clock is stored at a place that does not meet the boot
block. -/
theorem exists_readClock_sample {fname : Ptr Block} {c : ℕ}
    (hmem : Set.EqOn m sampleMem (Ptr.inBlock .flat)) (h0 : fname ≠ Ptr.null)
    (hl : sampleBoot.fs.lookup m fname = some (some 1)) (hc : 0x1000 ≤ c) (hc' : c + 64 ≤ 2 ^ 32) :
    let current := sampleBoot.fs.bootblockHead.shift c
    ∃ m', sampleBoot.fs.readDentryByName fname current m = some (success, m') ∧
      Set.EqOn m' m (current.span 64)ᶜ ∧ readWord m' (Dentry.fileType current) = 0#32 ∧
      readWord m' (Dentry.inodeIndex current) = 0#32 := by
  intro current
  have hname : HasLength m (Dentry.fileName (sampleBoot.fs.dentry 1)) 3 := by
    have hlen : HasLength sampleMem (Dentry.fileName (sampleBoot.fs.dentry 1)) 3 :=
      ⟨by decide, by decide⟩
    exact hlen.congr fun k _ => hmem rfl
  have hreserved : HasLength m (Dentry.reserved (sampleBoot.fs.dentry 1)) 0 := by
    have hlen : HasLength sampleMem (Dentry.reserved (sampleBoot.fs.dentry 1)) 0 :=
      ⟨by decide, by decide⟩
    exact hlen.congr fun k _ => hmem rfl
  obtain ⟨m', hfound, hcopied⟩ := FileSystem.exists_readDentryByName h0 hl (by decide) (by decide)
    hname hreserved (Ptr.disjoint_span_shift (by rw [Dentry.size]; omega) hc')
  have htype := hcopied.readWord (a := 32) fun x hx => .inl (.inl (.inl hx))
  have hinode := hcopied.readWord (a := 36) fun x hx => .inl (.inl (.inr hx))
  refine ⟨m', hfound, hcopied.eqOn_span (copiedPositions_subset (by decide) (by decide)), ?_, ?_⟩
  · refine htype.trans ?_
    rw [FileSystem.readWord_congr_inBlock (p := (sampleBoot.fs.dentry 1).shift 32) rfl hmem]
    decide
  · refine hinode.trans ?_
    rw [FileSystem.readWord_congr_inBlock (p := (sampleBoot.fs.dentry 1).shift 36) rfl hmem]
    decide

/-- With the sample image, the first process can start a child. -/
theorem exists_started_sample :
    ∃ s s₁ eip esp, Reachable sampleWild 0x401000#32 s ∧
      execute shell s = some (.user eip esp, s₁) ∧ s₁.fs = sampleBoot.fs ∧
      Set.EqOn s₁.mem sampleMem (Ptr.inBlock .flat) ∧ s.procs.Chain 0x401000#32 0 ∧
      s₁.procs.Chain 0x401000#32 1 ∧
      (s₁.procs.pcbs (pcbAddr 0#32)).scheduledEbp = some (.initializePCB s.calls) := by
  obtain ⟨s, h, hfs, hmem, hc⟩ := exists_reachable_sample
  cases halloc : s.procs.allocate with
  | none =>
    have hlive := ProcTable.allocate_eq_none.mp halloc 1 (by decide)
    rw [hc.live 1 (by decide)] at hlive
    exact absurd rfl hlive
  | some t =>
    obtain ⟨s₁, hex, hfs₁, hmem₁, hprocs⟩ := execute_shell_sample hfs hmem halloc
    refine ⟨s, s₁, _, _, h, hex, hfs₁, hmem₁, hc, hprocs ▸ hc.start halloc _, ?_⟩
    rw [hprocs]
    exact hc.scheduledEbp_start halloc _

/-- The child can end. -/
theorem exists_childHalt_sample {s : KState} {call : ℕ} (hfs : s.fs = sampleBoot.fs)
    (hmem : ∀ k < 0x1000, s.mem (sampleBoot.fs.bootblockHead.shift k) =
      sampleMem (sampleBoot.fs.bootblockHead.shift k))
    (hc : s.procs.Chain 0x401000#32 1)
    (hframe : (s.procs.pcbs (pcbAddr 0#32)).scheduledEbp = some (.initializePCB call)) :
    ∃ o s', halt sampleWild 0 sampleCurrents s = some (o, s') ∧ s'.procs.Chain 0x401000#32 0 ∧
      s'.procs.fds = (s.procs.pcbs (pcbAddr 0#32)).fdArray := by
  have hparent : s.procs.parentPid = 0#32 := hc.parentPid.trans (by decide)
  have hne : s.procs.parentPid ≠ -1#32 := by
    rw [hparent]
    decide
  obtain ⟨o, s', hhalt, -, -⟩ :=
    exists_halt benign_sampleWild returning_sampleWild (hfs ▸ entriesEnd_of_sampleMem hmem) hne
      (by rw [hparent]; exact hframe) 0 sampleCurrents_mem
  have hfds : s.procs.leave.fds = (s.procs.pcbs (pcbAddr 0#32)).fdArray := by
    obtain ⟨fds, hpcb⟩ := ProcTable.pcbs_leave s.procs (pcbAddr 0#32)
    rw [ProcTable.fds, hc.leave.filedArray, hpcb, hc.filedArray, if_neg (by decide)]
  refine ⟨o, s', hhalt, ?_⟩
  rcases halt_cases benign_sampleWild sampleCurrents_mem hhalt with
    ⟨hroot, -⟩ | ⟨-, -, -, call, -, hout⟩
  · exact absurd hroot hne
  · rcases hout with ⟨-, -, ht⟩ | ⟨-, -, ht⟩
    · rw [ht]
      exact ⟨hc.leave, hfds⟩
    · have hset : s.procs.leave.setTss.fds = s.procs.leave.fds := by
        rw [ProcTable.setTss, ProcTable.fds, ProcTable.fds]
      rw [ht, hset]
      exact ⟨hc.leave.setTss, hfds⟩

/-- With the sample image, the first process can start a child, and the child can end. -/
theorem exists_child_sample :
    ∃ s s₁ s₂ eip esp o, Reachable sampleWild 0x401000#32 s ∧
      execute shell s = some (.user eip esp, s₁) ∧
      halt sampleWild 0 sampleCurrents s₁ = some (o, s₂) ∧
      s.procs.Chain 0x401000#32 0 ∧ s₁.procs.Chain 0x401000#32 1 ∧
      s₂.procs.Chain 0x401000#32 0 := by
  obtain ⟨s, s₁, eip, esp, h, hex, hfs, hmem, hc, hc₁, hframe⟩ := exists_started_sample
  obtain ⟨o, s₂, hhalt, hc₂, -⟩ :=
    exists_childHalt_sample hfs (fun k _ => hmem rfl) hc₁ hframe
  exact ⟨s, s₁, s₂, eip, esp, o, h, hex, hhalt, hc, hc₁, hc₂⟩

/-- The states in which the child runs, and in which it has ended. -/
theorem exists_family_sample :
    ∃ s₁ s₂, Reachable sampleWild 0x401000#32 s₁ ∧ Reachable sampleWild 0x401000#32 s₂ ∧
      s₁.procs.Chain 0x401000#32 1 ∧ s₂.procs.Chain 0x401000#32 0 := by
  obtain ⟨s, s₁, s₂, eip, esp, o, h, hex, hhalt, -, hc₁, hc₂⟩ := exists_child_sample
  have h₁ := h.step (.execute hex) trivial
  exact ⟨s₁, s₂, h₁, h₁.step (.halt hhalt) sampleCurrents_mem, hc₁, hc₂⟩

end Mp3Kernel
