import Mp3Kernel.FileSystem.Directory
import Mp3Kernel.Process.Parsing
import Mp3Kernel.Process.Program

/-!
# Which commands start a process

`execute` should start a process exactly for the files that begin as an executable does. It compares
four bytes of `data_buf`, a local variable that nothing clears, and `read_data` reports success for
a file that fills only a part of it. So a shorter file is accepted when it goes on as the buffer did
before.

A call that fails has stored into local variables only.

## Main definitions

* `KState.ImageOk`: the image is well formed.
* `KState.Finds`, `goesOn`: the entry that a command names; what `execute` decides about it.
* `FileSystem.IsExecutable`: what it should decide.

## Main results

* `goesOn_eq_some_false_iff`: the decision is that of `execute`.
* `goesOn_decides_iff`: for which commands it is as it should be.
* `execute_fails_keeps`: what a call that fails leaves alone.

Source: `process.c`, lines 33–136.
-/

namespace Mp3Kernel

open ByteMemory

/-! ### The decision -/

/-- The image is well formed, and lies in the flat address space. -/
structure KState.ImageOk (s : KState) : Prop where
  /-- The image is well formed. -/
  wellFormed : s.fs.WellFormed s.mem
  /-- It lies in the flat address space. -/
  flat : s.fs.bootblockHead.blk = .flat

/-- The file word of a command: all that follows its leading spaces. -/
def fileWord (command : List UInt8) : List UInt8 := command.dropWhile (· = space)

/-- The search of `execute` for the file word of the command stops at entry `i`. -/
def KState.Finds (s : KState) (command : List UInt8) (i : ℕ) : Prop :=
  s.fs.lookup (writeBytes s.mem Local.fileCommand.ptr (fileWord command ++ [0]))
    Local.fileCommand.ptr = some (some i)

/-- Whether `execute` goes on to create a process. -/
def goesOn (command : List UInt8) (s : KState) : Option Bool := do
  let (file, _) ← parse command
  let (checked, _) ← checkExecutable s file
  some (checked.isSome && s.procs.allocate.isSome)

/-- The inode is one of the image, and its file has at least four bytes and begins as an executable
does. -/
def FileSystem.IsExecutable (fs : FileSystem Block) (m : Mem Block) (inode : BitVec 32) : Prop :=
  inode < fs.inodesNum m ∧ 4 ≤ (fs.fileLength m inode).toNat ∧
    (List.range 4).map (fs.fileByte m inode) = exeCheck

variable {s s' : KState} {command file arg : List UInt8} {i call : ℕ} {v : BitVec 32}
  {m : Mem Block} {t : ProcTable}

theorem KState.ImageOk.onBlock (hs : s.ImageOk) : s.fs.OnBlock .flat :=
  hs.flat ▸ hs.wellFormed.onBlock

theorem goesOn_eq (command : List UInt8) (s : KState) : goesOn command s =
    (checkExecutable s (fileWord command ++ [0])).map fun r =>
      r.1.isSome && s.procs.allocate.isSome := by
  rw [goesOn, parse_eq]
  show (checkExecutable s (fileWord command ++ [0])).bind _ = _
  cases checkExecutable s (fileWord command ++ [0]) with
  | none => rfl
  | some r => rfl

/-- The call, for the file word of its command. -/
theorem execute_eq (command : List UInt8) (s : KState) : execute command s =
    (checkExecutable s (fileWord command ++ [0])).bind fun r => match r.1 with
      | none => some (.returns s.calls failure, { s with mem := r.2, calls := s.calls + 1 })
      | some inode => createProcess s.calls inode { s with mem := r.2, calls := s.calls + 1 } := by
  rw [execute, parse_eq]
  rfl

/-- **The decision is that of `execute`**: where it does not go on, it returns `-1`. -/
theorem goesOn_eq_some_false_iff : goesOn command s = some false ↔
    ∃ s', execute command s = some (.returns s.calls failure, s') := by
  rw [goesOn_eq, execute_eq]
  cases checkExecutable s (fileWord command ++ [0]) with
  | none => simp
  | some r =>
    obtain ⟨checked, m⟩ := r
    cases checked with
    | none => simp
    | some inode =>
      cases halloc : s.procs.allocate with
      | none => simp [createProcess, halloc]
      | some t =>
        refine iff_of_false (by simp) ?_
        rintro ⟨s', h⟩
        rcases createProcess_cases h with ⟨hnone, -⟩ | ⟨-, -, -, -, ho, -⟩
        · exact Option.some_ne_none t (halloc.symm.trans hnone)
        · cases ho

/-- What `execute` decides about an entry. -/
theorem goesOn_of_finds {r : ℕ} (hfs : s.fs.OnBlock .flat) (h0 : s.fs.bootblockHead ≠ Ptr.null)
    (hfind : s.Finds command i) (hr : HasLength s.mem (Dentry.reserved (s.fs.dentry i)) r)
    (hlen : (fileWord command).length < Dentry.fileNameLength)
    (halloc : s.procs.allocate = some t) :
    ∃ b, goesOn command s = some b ∧
      (b = true ↔ s.fs.Accepts s.mem (s.fs.entryInode s.mem i)) := by
  obtain ⟨checked, m, hcheck, hcases⟩ := checkExecutable_of_lookup hfs h0
    (by rw [List.length_append]; exact hlen) hfind hr
  refine ⟨checked.isSome, by rw [goesOn_eq, hcheck, halloc]; simp, ?_⟩
  rcases hcases with ⟨haccepts, rfl⟩ | ⟨hnot, rfl⟩
  · exact iff_of_true rfl haccepts
  · exact iff_of_false Bool.false_ne_true hnot

/-- A command that overflows `file_command` has no decision. -/
theorem goesOn_of_length (hlen : Dentry.fileNameLength ≤ (fileWord command).length) :
    goesOn command s = none := by
  have hlt : Dentry.fileNameLength < (fileWord command ++ [0]).length := by
    rw [List.length_append]
    exact Nat.lt_succ_of_le hlen
  rw [goesOn_eq, checkExecutable, if_pos hlt]
  rfl

/-- The search depends on the command and on the image. -/
theorem KState.Finds.congr (h : s.Finds command i) (hfs : s.fs.OnBlock .flat)
    (hlen : (fileWord command).length < Dentry.fileNameLength)
    (hm : Set.EqOn m s.mem (Ptr.inBlock .flat)) : KState.Finds { s with mem := m } command i := by
  rw [Dentry.fileNameLength] at hlen
  have hbyte (m : Mem Block) {k : ℕ} (hk : k < (fileWord command ++ [0]).length) :
      writeBytes m Local.fileCommand.ptr (fileWord command ++ [0])
        (Local.fileCommand.ptr.shift k) = (fileWord command ++ [0])[k] :=
    writeBytes_shift m _ _ (by rw [List.length_append]; exact Nat.le_trans hlen (by decide)) hk
  have hsucc : (fileWord command ++ [0]).length = (fileWord command).length + 1 :=
    List.length_append
  obtain ⟨l, hl, hlength⟩ := exists_hasLength_le (k := (fileWord command).length)
    ((hbyte s.mem (by omega)).trans (by simp))
  have hflat (m : Mem Block) :
      Set.EqOn (writeBytes m Local.fileCommand.ptr (fileWord command ++ [0])) m
        (Ptr.inBlock .flat) :=
    (fileCommand_eqOn m _).mono (Ptr.inBlock_subset_compl_inBlock (by decide))
  rw [KState.Finds]
  rw [FileSystem.lookup_congr_of_hasLength hfs ((hflat m).trans (hm.trans (hflat s.mem).symm))
    hlength fun k hk => (hbyte m (by omega)).trans (hbyte s.mem (by omega)).symm]
  exact h

/-! ### The file and the buffer -/

namespace FileSystem

variable {fs : FileSystem Block} {inode : BitVec 32}

theorem map_range_eq_exeCheck_iff {f : ℕ → UInt8} :
    (List.range 4).map f = exeCheck ↔ ∀ k < 4, f k = exeCheck.getD k 0 := by
  have hexe : exeCheck = (List.range 4).map fun k => exeCheck.getD k 0 := by decide
  conv_lhs => rw [hexe]
  rw [List.map_inj_left]
  simp only [List.mem_range]

theorem accepts_iff : fs.Accepts m inode ↔
    inode ≤ fs.inodesNum m ∧ ∀ k < 4, fs.checkedByte m inode k = exeCheck.getD k 0 := by
  rw [Accepts, map_range_eq_exeCheck_iff]

/-- Four bytes of the file are compared where it has as many. -/
theorem accepts_iff_of_le (h : 4 ≤ (fs.fileLength m inode).toNat) : fs.Accepts m inode ↔
    inode ≤ fs.inodesNum m ∧ ∀ k < 4, fs.fileByte m inode k = exeCheck.getD k 0 := by
  rw [accepts_iff]
  refine and_congr_right fun _ => forall₂_congr fun k hk => ?_
  rw [checkedByte, if_pos (by omega)]

/-- The checks accept what they should where the inode is one of the image and the file is long
enough, and otherwise where they accept nothing. -/
theorem accepts_iff_isExecutable_iff : (fs.Accepts m inode ↔ fs.IsExecutable m inode) ↔
    fs.inodesNum m < inode ∨ (inode < fs.inodesNum m ∧ 4 ≤ (fs.fileLength m inode).toNat) ∨
      ∃ k < 4, fs.checkedByte m inode k ≠ exeCheck.getD k 0 := by
  by_cases hgood : inode < fs.inodesNum m ∧ 4 ≤ (fs.fileLength m inode).toNat
  · refine iff_of_true ?_ (.inr (.inl hgood))
    rw [accepts_iff_of_le hgood.2, IsExecutable, map_range_eq_exeCheck_iff,
      and_iff_right hgood.1, and_iff_right hgood.2, and_iff_right (BitVec.le_of_lt hgood.1)]
  · have hnot : ¬ fs.IsExecutable m inode := fun h => hgood ⟨h.1, h.2.1⟩
    rw [iff_false_right hnot, accepts_iff, or_iff_right hgood, not_and_or, BitVec.not_le]
    push Not
    rfl

/-- The checks reject a file with a byte that is none of an executable's. -/
theorem not_accepts {k : ℕ} (hk : k < 4) (hlt : k < (fs.fileLength m inode).toNat)
    (hne : fs.fileByte m inode k ≠ exeCheck.getD k 0) : ¬ fs.Accepts m inode := by
  intro h
  have hbyte := (accepts_iff.mp h).2 k hk
  rw [checkedByte, if_pos hlt] at hbyte
  exact hne hbyte

instance : Decidable (fs.Accepts m inode) := inferInstanceAs (Decidable (_ ∧ _))

/-- What the checks accept when the buffer holds the given bytes. -/
theorem accepts_writeBytes_iff (hfs : fs.OnBlock .flat) {l : List UInt8} (hl : l.length = 4) :
    fs.Accepts (writeBytes m Local.dataBuf.ptr l) inode ↔ inode ≤ fs.inodesNum m ∧
      ∀ k < 4, (if k < (fs.fileLength m inode).toNat then fs.fileByte m inode k
        else l.getD k 0) = exeCheck.getD k 0 := by
  have hflat : Set.EqOn (writeBytes m Local.dataBuf.ptr l) m (Ptr.inBlock .flat) :=
    (writeBytes_eqOn ..).mono (Ptr.inBlock_subset_compl_span (by decide) _)
  rw [accepts_iff, inodesNum_congr hfs hflat]
  refine and_congr_right fun _ => forall₂_congr fun k hk => ?_
  have hkl : k < l.length := by omega
  have hget : l.getD k 0 = l[k] := by simp [List.getElem?_eq_getElem hkl]
  rw [checkedByte, fileLength_congr hfs hflat, fileByte_congr_inBlock hfs hflat,
    writeBytes_shift m _ l (by omega) hkl, hget]

/-- The checks accept the same whatever the local variables hold where the file is long enough, or
where what there is of it is rejected. -/
theorem accepts_same_iff (hfs : fs.OnBlock .flat) :
    (∃ b : Bool, ∀ m', Set.EqOn m' m stackVarsᶜ → (b = true ↔ fs.Accepts m' inode)) ↔
      fs.inodesNum m < inode ∨ 4 ≤ (fs.fileLength m inode).toNat ∨
        ∃ k < 4, k < (fs.fileLength m inode).toNat ∧
          fs.fileByte m inode k ≠ exeCheck.getD k 0 := by
  constructor
  · rintro ⟨b, hb⟩
    by_contra hcond
    push Not at hcond
    obtain ⟨hi, hshort, hbytes⟩ := hcond
    have hout (l : List UInt8) : Set.EqOn (writeBytes m Local.dataBuf.ptr l) m stackVarsᶜ :=
      (writeBytes_eqOn ..).mono ((compl_stackVars_subset .dataBuf).trans
        (Ptr.compl_inBlock_subset (p := Local.dataBuf.ptr) rfl _))
    -- Two runs, with the bytes of an executable in the buffer and with zeros.
    have htrue : b = true := by
      refine (hb _ (hout exeCheck)).mpr ((accepts_writeBytes_iff hfs rfl).mpr
        ⟨BitVec.not_lt.mp hi, fun k hk => ?_⟩)
      split_ifs with hlt
      · exact hbytes k hk hlt
      · rfl
    have hzeros := (accepts_writeBytes_iff hfs rfl).mp ((hb _ (hout [0, 0, 0, 0])).mp htrue)
    have hlast := hzeros.2 _ hshort
    rw [if_neg (lt_irrefl _)] at hlast
    revert hlast
    generalize (fs.fileLength m inode).toNat = k at hshort
    revert k
    decide
  · intro hcond
    refine ⟨decide (fs.Accepts m inode), fun m' hm => ?_⟩
    have hflat := hm.mono inBlock_flat_subset
    have hlen := fileLength_congr hfs hflat inode
    rw [decide_eq_true_iff]
    rcases hcond with hi | h4 | ⟨k, hk, hlt, hne⟩
    · refine iff_of_false (fun h => BitVec.not_le.mpr hi h.1) fun h => BitVec.not_le.mpr hi ?_
      rw [← inodesNum_congr hfs hflat]
      exact h.1
    · rw [accepts_iff_of_le h4, accepts_iff_of_le (by rw [hlen]; exact h4),
        inodesNum_congr hfs hflat]
      simp only [fileByte_congr_inBlock hfs hflat]
    · refine iff_of_false (not_accepts hk hlt hne) (not_accepts hk (by rwa [hlen]) ?_)
      rwa [fileByte_congr_inBlock hfs hflat]

end FileSystem

/-! ### The commands that are decided as they should be -/

/-- What is decided about the entry in a run in which the local variables hold anything. -/
theorem exists_goesOn (hs : s.ImageOk) (hfind : s.Finds command i)
    (hlen : (fileWord command).length < Dentry.fileNameLength) (halloc : s.procs.allocate = some t)
    (hm : Set.EqOn m s.mem stackVarsᶜ) : ∃ b, goesOn command { s with mem := m } = some b ∧
      (b = true ↔ s.fs.Accepts m (s.fs.entryInode s.mem i)) := by
  have hflat := hm.mono inBlock_flat_subset
  have hblk := hs.onBlock.blk_dentry i
  obtain ⟨r, hr⟩ := FileSystem.exists_hasLength_of_dentryNum_le hs.wellFormed.dentryNum_le
    (p := Dentry.reserved (s.fs.dentry i)) rfl
  have hinode : s.fs.entryInode m i = s.fs.entryInode s.mem i :=
    FileSystem.readWord_congr_inBlock (p := Dentry.inodeIndex (s.fs.dentry i)) hblk hflat
  rw [← hinode]
  exact goesOn_of_finds (s := { s with mem := m }) hs.onBlock hs.wellFormed.head
    (hfind.congr hs.onBlock hlen hflat) (hr.congr fun k _ => hflat hblk) hlen halloc

/-- **The decision is that of the file** exactly when the command fits into `file_command`, and its
inode is not in the image, or the file has four bytes, or what is compared is rejected: a byte of
the file or, where the file is too short, of the old buffer. It is **the same whatever the local
variables held** exactly when the command fits and the file has four bytes or what there is of it is
rejected. -/
theorem goesOn_decides_iff (hs : s.ImageOk) (hfind : s.Finds command i)
    (halloc : s.procs.allocate = some t) :
    let inode := s.fs.entryInode s.mem i
    let length := (s.fs.fileLength s.mem inode).toNat
    ((∃ b, goesOn command s = some b ∧ (b = true ↔ s.fs.IsExecutable s.mem inode)) ↔
      (fileWord command).length < Dentry.fileNameLength ∧ (s.fs.inodesNum s.mem < inode ∨
        (inode < s.fs.inodesNum s.mem ∧ 4 ≤ length) ∨
          ∃ k < 4, s.fs.checkedByte s.mem inode k ≠ exeCheck.getD k 0)) ∧
    ((∃ b, ∀ m, Set.EqOn m s.mem stackVarsᶜ → goesOn command { s with mem := m } = some b) ↔
      (fileWord command).length < Dentry.fileNameLength ∧ (s.fs.inodesNum s.mem < inode ∨
        4 ≤ length ∨ ∃ k < 4, k < length ∧
          s.fs.fileByte s.mem inode k ≠ exeCheck.getD k 0)) := by
  intro inode length
  by_cases hlen : (fileWord command).length < Dentry.fileNameLength
  · rw [and_iff_right hlen, and_iff_right hlen, ← FileSystem.accepts_iff_isExecutable_iff,
      ← FileSystem.accepts_same_iff hs.onBlock]
    constructor
    · obtain ⟨b, hb, hiff⟩ := exists_goesOn hs hfind hlen halloc (Set.eqOn_refl ..)
      have hb' : goesOn command s = some b := hb
      rw [hb', ← hiff]
      simp
    · refine exists_congr fun b => forall₂_congr fun m hm => ?_
      obtain ⟨b', hb', hiff⟩ := exists_goesOn hs hfind hlen halloc hm
      rw [hb', ← hiff]
      cases b <;> cases b' <;> simp
  · rw [goesOn_of_length (not_lt.mp hlen)]
    constructor
    · simp [hlen]
    · refine iff_of_false ?_ fun h => hlen h.1
      rintro ⟨b, hb⟩
      have hnone := hb s.mem (Set.eqOn_refl ..)
      rw [goesOn_of_length (not_lt.mp hlen)] at hnone
      cases hnone

theorem exists_allocate_sampleBoot : ∃ t, sampleBoot.procs.allocate = some t := ⟨_, rfl⟩

section Sample

variable (hm : Set.EqOn m sampleMem (Ptr.inBlock .flat \ sampleLength.span 4))

include hm

/-- The command `shell` finds the first entry of the sample image. -/
theorem finds_shell : KState.Finds { sampleBoot with mem := m } shell 0 := by
  have hflat : Set.EqOn (writeBytes m Local.fileCommand.ptr (shell ++ [0])) m (Ptr.inBlock .flat) :=
    (fileCommand_eqOn m _).mono (Ptr.inBlock_subset_compl_inBlock (by decide))
  have hname (k : ℕ) (hk : k ≤ 5) : writeBytes m Local.fileCommand.ptr (shell ++ [0])
      ((Dentry.fileName (sampleBoot.fs.dentry 0)).shift k) = (shell ++ [0]).getD k 0 := by
    rw [hflat rfl, FileSystem.dentry, Dentry.fileName, Ptr.shift_shift, Ptr.shift_shift,
      sampleMem_byte hm (by rw [Dentry.size]; omega)]
    revert k
    decide
  have hnum : sampleBoot.fs.dentryNum (writeBytes m Local.fileCommand.ptr (shell ++ [0])) = 2#32 :=
    (FileSystem.dentryNum_congr executable_sampleMem.onBlock hflat).trans (sampleMem_numbers hm).1
  show sampleBoot.fs.lookup (writeBytes m Local.fileCommand.ptr (shell ++ [0])) _ = _
  refine FileSystem.scanDentry_eq_some_some.mpr ⟨le_rfl, ?_, ⟨5, ⟨fun k hk => ?_, hname 5 le_rfl⟩,
    fun k hk => ?_⟩, fun k _ hk => absurd hk (Nat.not_lt_zero k)⟩
  · rw [hnum]
    decide
  · rw [hname k hk.le]
    revert k
    decide
  · rw [hname k hk.le]
    exact (writeBytes_shift m Local.fileCommand.ptr (shell ++ [0]) (by decide)
      (Nat.lt_succ_of_lt hk)).trans (by revert k; decide)

theorem entryInode_shell : sampleBoot.fs.entryInode m 0 = 0#32 := by
  rw [FileSystem.entryInode, FileSystem.dentry, Dentry.size, Dentry.inodeIndex, Ptr.shift_shift,
    sampleMem_word hm (by omega)]
  decide

/-- It starts a process when its file is accepted. -/
theorem goesOn_shell (haccepts : sampleBoot.fs.Accepts m 0#32) :
    goesOn shell { sampleBoot with mem := m } = some true := by
  have hr : HasLength m (Dentry.reserved (sampleBoot.fs.dentry 0)) 0 := by
    refine ⟨fun k hk => absurd hk (Nat.not_lt_zero k), ?_⟩
    rw [FileSystem.dentry, Dentry.size, Dentry.reserved, Ptr.shift_shift, Ptr.shift_shift,
      sampleMem_byte hm (by omega)]
    decide
  obtain ⟨t, halloc⟩ := exists_allocate_sampleBoot
  obtain ⟨b, hb, hiff⟩ := goesOn_of_finds (s := { sampleBoot with mem := m })
    executable_sampleMem.onBlock executable_sampleMem.head (finds_shell hm) hr (by decide) halloc
  obtain rfl : b = true := hiff.mpr (by rw [entryInode_shell hm]; exact haccepts)
  exact hb

end Sample

theorem goesOn_decides_shell : ∃ b, goesOn shell sampleBoot = some b ∧
    (b = true ↔ sampleBoot.fs.IsExecutable sampleMem 0#32) := by
  have hinode : sampleBoot.fs.entryInode sampleMem 0 = 0#32 := by decide
  obtain ⟨t, halloc⟩ := exists_allocate_sampleBoot
  have h := (goesOn_decides_iff (s := sampleBoot) ⟨wellFormed_sampleMem, rfl⟩
    (finds_shell (Set.eqOn_refl ..)) halloc).1.mpr
      ⟨by decide, .inr (.inl ⟨by decide, by decide⟩)⟩
  exact hinode ▸ h

/-- The sample image with the file cut to one byte, in a memory in which `data_buf` holds what an
earlier call has read. -/
def shortMem : Mem Block :=
  writeBytes (writeWord sampleMem sampleLength 1#32) Local.dataBuf.ptr exeCheck

theorem shortMem_eqOn : Set.EqOn shortMem sampleMem (Ptr.inBlock .flat \ sampleLength.span 4) := by
  have hlocal : Set.EqOn shortMem (writeWord sampleMem sampleLength 1#32) (Ptr.inBlock .flat) :=
    (writeBytes_eqOn ..).mono (Ptr.inBlock_subset_compl_span (by decide) _)
  exact (hlocal.mono Set.sdiff_subset).trans ((writeWord_eqOn ..).mono fun p hp => hp.2)

/-- A file of one byte is started, because `data_buf` holds the other three. -/
theorem short_file_accepted : ¬ ∀ (s : KState) (command : List UInt8) (i : ℕ) (t : ProcTable),
    s.ImageOk → s.Finds command i → s.procs.allocate = some t →
      ∃ b, goesOn command s = some b ∧
        (b = true ↔ s.fs.IsExecutable s.mem (s.fs.entryInode s.mem i)) := by
  intro hall
  set s : KState := { sampleBoot with mem := shortMem }
  have hlen : (sampleBoot.fs.fileLength shortMem 0#32).toNat = 1 := by decide
  have hs : s.ImageOk := ⟨wellFormed_of_sampleMem shortMem_eqOn (by rw [hlen]; decide), rfl⟩
  obtain ⟨t, halloc⟩ := exists_allocate_sampleBoot
  obtain ⟨b, hb, hiff⟩ := hall s shell 0 t hs (finds_shell shortMem_eqOn) halloc
  obtain rfl : b = true :=
    Option.some.inj (hb.symm.trans (goesOn_shell shortMem_eqOn (by decide)))
  have hexe := (hiff.mp rfl).2.1
  rw [entryInode_shell shortMem_eqOn, hlen] at hexe
  omega

/-! ### Calls that fail -/

/-- **A call of `execute` that fails changes nothing**: the processes with their control blocks and
descriptors, the page directory, the task state segment and the user page are as before, and so is
everything but the local variables. -/
theorem execute_fails_keeps (hfs : s.fs.OnBlock .flat)
    (h : execute command s = some (.returns call v, s')) :
    v = failure ∧ s'.procs = s.procs ∧ s'.fs = s.fs ∧
      (∀ addr, s'.mem (s'.userPtr addr) = s.mem (s.userPtr addr)) ∧
      Set.EqOn s'.mem s.mem stackVarsᶜ := by
  rw [execute_eq] at h
  obtain ⟨⟨checked, m⟩, hcheck, h₁⟩ := Option.bind_eq_some_iff.mp h
  have hm := checkExecutable_eqOn hfs hcheck
  have huser (addr : BitVec 32) : m (s.userPtr addr) = s.mem (s.userPtr addr) :=
    hm (s.userPtr_notMem_stackVars addr)
  cases checked with
  | none =>
    cases h₁
    exact ⟨rfl, rfl, rfl, huser, hm⟩
  | some inode =>
    rcases createProcess_cases h₁ with ⟨-, ho, rfl⟩ | ⟨-, -, -, -, ho, -⟩
    · cases ho
      exact ⟨rfl, rfl, rfl, huser, hm⟩
    · cases ho

/-- The command `x` is not found in the sample image. -/
theorem execute_unknown_keeps : ∃ s', execute [0x78] sampleBoot = some (.returns 0 failure, s') ∧
    s'.procs = sampleBoot.procs ∧ Set.EqOn s'.mem sampleMem stackVarsᶜ := by
  have hl : sampleBoot.fs.lookup (writeBytes sampleMem Local.fileCommand.ptr [0x78, 0])
      Local.fileCommand.ptr = some none := by
    refine FileSystem.scanDentry_eq_some_none.mpr fun k _ hk => ?_
    have hk' : k < 2 := hk
    obtain rfl | rfl := Nat.le_one_iff_eq_zero_or_eq_one.mp (Nat.le_of_lt_succ hk')
    · exact ⟨5, ⟨by decide, by decide⟩, fun h => absurd (h 0 (by decide)) (by decide)⟩
    · exact ⟨3, ⟨by decide, by decide⟩, fun h => absurd (h 0 (by decide)) (by decide)⟩
  have hgoes : goesOn [0x78] sampleBoot = some false := by
    have hcheck : checkExecutable sampleBoot [0x78, 0] = _ :=
      checkExecutable_of_missed (by decide) hl
    have hword : fileWord [0x78] ++ [0] = [0x78, 0] := by decide
    rw [goesOn_eq, hword, hcheck]
    rfl
  obtain ⟨s', hex⟩ := goesOn_eq_some_false_iff.mp hgoes
  obtain ⟨-, hprocs, -, -, hm⟩ := execute_fails_keeps executable_sampleMem.onBlock hex
  exact ⟨s', hex, hprocs, hm⟩

end Mp3Kernel
