import Mp3Kernel.FileSystem.Accesses
import Mp3Kernel.Process.Executables

/-!
# Loading a program

`execute` asks `read_data` for 4 MB of the file, to be stored from `USER_PADDR` on. What is stored
is the file, cut at its end, so that a program of at most `0x3B8000` bytes fills the user page as it
should. The length asked for is that of the whole page, not of what is left behind `USER_PADDR`: a
longer file, which the format allows, is stored beyond the end of the page.

## Main definitions

* `KState.Loads`: the user page holds the program, and execution starts at its entry point.
* `loadStores`, `LoadsInPage`: the addresses that the copy stores to; they lie in the user page.

## Main results

* `execute_loads`: a program that fits is loaded exactly.
* `loadsInPage_iff`: which programs fit.

Source: `process.c`, lines 138–190; `process.h`, lines 12–25; `filesystem.c`, lines 88–117.
-/

namespace Mp3Kernel

open ByteMemory

variable {s s' : KState} {command file arg : List UInt8} {i : ℕ} {inode : BitVec 32} {m : Mem Block}
  {t : ProcTable}

/-- A command that goes on has its inode accepted. -/
theorem exists_checked (hs : s.ImageOk) (hfind : s.Finds command i)
    (hgo : goesOn command s = some true) : ∃ m t,
      checkExecutable s (fileWord command ++ [0]) = some (some (s.fs.entryInode s.mem i), m) ∧
        s.procs.allocate = some t ∧ s.fs.entryInode s.mem i ≤ s.fs.inodesNum s.mem := by
  have hlen : (fileWord command).length < Dentry.fileNameLength := by
    by_contra hlt
    rw [goesOn_of_length (not_lt.mp hlt)] at hgo
    cases hgo
  obtain ⟨r, hr⟩ := FileSystem.exists_hasLength_of_dentryNum_le hs.wellFormed.dentryNum_le
    (p := Dentry.reserved (s.fs.dentry i)) rfl
  obtain ⟨checked, m, hcheck, hcases⟩ := checkExecutable_of_lookup hs.onBlock hs.wellFormed.head
    (by rw [List.length_append]; exact hlen) hfind hr
  rw [goesOn_eq, hcheck, Option.map_some, Option.some.injEq, Bool.and_eq_true] at hgo
  obtain ⟨t, halloc⟩ := Option.isSome_iff_exists.mp hgo.2
  rcases hcases with ⟨haccepts, rfl⟩ | ⟨-, rfl⟩
  · exact ⟨m, t, hcheck, halloc, haccepts.1⟩
  · exact absurd hgo.1 Bool.false_ne_true

/-! ### A program that fits -/

/-- The user page holds the file of the inode from `USER_PADDR` on and is otherwise as before, and
`eip` is the entry point that the file has at offset 24. -/
structure KState.Loads (s s' : KState) (inode eip : BitVec 32) : Prop where
  /-- The bytes of the file. -/
  bytes : ∀ k < (s.fs.fileLength s.mem inode).toNat,
    s'.mem (s'.userPtr (userPaddr + BitVec.ofNat 32 k)) = s.fs.fileByte s.mem inode k
  /-- The rest of the user page. -/
  rest : ∀ addr, userMem ≤ addr → addr < userEnd →
    (addr < userPaddr ∨ userPaddr.toNat + (s.fs.fileLength s.mem inode).toNat ≤ addr.toNat) →
      s'.mem (s'.userPtr addr) = s.mem (s'.userPtr addr)
  /-- The entry point. -/
  entry : 28 ≤ (s.fs.fileLength s.mem inode).toNat →
    eip = wordOf (s.fs.fileByte s.mem inode 24) (s.fs.fileByte s.mem inode 25)
      (s.fs.fileByte s.mem inode 26) (s.fs.fileByte s.mem inode 27)

/-- Behind `USER_PADDR` the user page is contiguous. -/
theorem KState.userPtr_add (s : KState) {k : ℕ} (hk : k < (userEnd - userPaddr).toNat) :
    s.userPtr (userPaddr + BitVec.ofNat 32 k) = (s.userPtr userPaddr).shift k := by
  have hroom : (userEnd - userPaddr).toNat = 0x3B8000 := rfl
  have hpage : userMem ≤ userPaddr + BitVec.ofNat 32 k ∧
      userPaddr + BitVec.ofNat 32 k < userEnd := by
    rw [userMem, userPaddr, userEnd]
    constructor <;> bv_omega
  rw [s.userPtr_userPaddr, KState.userPtr, if_pos hpage, Ptr.shift, Ptr.mk.injEq]
  refine ⟨rfl, ?_⟩
  bv_omega

/-- **A program that fits is loaded exactly**: for every entry that `execute` accepts, with a file
of at most `0x3B8000` bytes. -/
theorem execute_loads (hs : s.ImageOk) (hfind : s.Finds command i)
    (hgo : goesOn command s = some true)
    (hfit : s.fs.fileLength s.mem (s.fs.entryInode s.mem i) ≤ userEnd - userPaddr) :
    ∃ s' eip esp, execute command s = some (.user eip esp, s') ∧
      s.Loads s' (s.fs.entryInode s.mem i) eip := by
  obtain ⟨m, t, hcheck, halloc, hi⟩ := exists_checked hs hfind hgo
  generalize s.fs.entryInode s.mem i = inode at *
  obtain ⟨s', hex, -, -, hspec⟩ :=
    execute_of_checked hs.onBlock hs.wellFormed.head (parse_eq command) hcheck halloc hi hfit
  have hm := checkExecutable_eqOn hs.onBlock hcheck
  have hroom : (userEnd - userPaddr).toNat = 0x3B8000 := rfl
  have hlen := BitVec.le_def.mp hfit
  have hbyte (k : ℕ) (hk : k < (s.fs.fileLength s.mem inode).toNat) :
      s'.mem ((s'.userPtr userPaddr).shift k) = s.fs.fileByte s.mem inode k := by
    rw [hspec.delivered k hk, Nat.zero_add]
    exact FileSystem.fileByte_congr_inBlock hs.onBlock (hm.mono inBlock_flat_subset) inode k
  refine ⟨s', s'.entry, _, hex, fun k hk => ?_, fun addr hlow hhigh hout => ?_, fun h28 => ?_⟩
  · rw [s'.userPtr_add (by omega)]
    exact hbyte k hk
  · have hkept : s'.mem (s'.userPtr addr) = m (s'.userPtr addr) := by
      refine hspec.eqOn fun hin => ?_
      rw [s'.userPtr_userPaddr, KState.userPtr, if_pos ⟨hlow, hhigh⟩] at hin
      have hlt : (addr - userMem - (userPaddr - userMem)).toNat <
        (s.fs.fileLength s.mem inode).toNat := hin.2
      rw [userMem, userPaddr] at *
      bv_omega
    exact hkept.trans (hm (s'.userPtr_notMem_stackVars addr))
  · have hptr : s'.userPtr (userPaddr + 24#32) = (s'.userPtr userPaddr).shift 24 :=
      s'.userPtr_add (k := 24) (by decide)
    rw [KState.entry, hptr, readWord, Ptr.shift_shift, Ptr.shift_shift, Ptr.shift_shift,
      hbyte 24 (by omega), hbyte 25 (by omega), hbyte 26 (by omega), hbyte 27 (by omega)]

/-- The sample image with another length of its file. -/
def lengthMem (length : BitVec 32) : Mem Block := writeWord sampleMem sampleLength length

theorem lengthMem_eqOn (length : BitVec 32) :
    Set.EqOn (lengthMem length) sampleMem (Ptr.inBlock .flat \ sampleLength.span 4) :=
  (writeWord_eqOn ..).mono fun _ hp => hp.2

theorem fileLength_lengthMem (length : BitVec 32) :
    sampleBoot.fs.fileLength (lengthMem length) 0#32 = length := readWord_writeWord ..

/-- A file of 28 bytes, with its entry point in the last four. -/
theorem execute_loads_shell : ∃ s' esp,
    execute shell { sampleBoot with mem := lengthMem 28#32 } =
      some (.user 0x0804801C#32 esp, s') ∧
    KState.Loads { sampleBoot with mem := lengthMem 28#32 } s' 0#32 0x0804801C#32 := by
  set boot : KState := { sampleBoot with mem := lengthMem 28#32 }
  have hlen : boot.fs.fileLength boot.mem 0#32 = 28#32 := fileLength_lengthMem 28#32
  have hinode : boot.fs.entryInode boot.mem 0 = 0#32 := entryInode_shell (lengthMem_eqOn 28#32)
  obtain ⟨s', eip, esp, hex, hloads⟩ := execute_loads (s := boot) (i := 0)
    ⟨wellFormed_of_sampleMem (lengthMem_eqOn 28#32) (by rw [fileLength_lengthMem]; decide), rfl⟩
    (finds_shell (lengthMem_eqOn 28#32)) (goesOn_shell (lengthMem_eqOn 28#32) (by decide))
    (by rw [hinode, hlen]; decide)
  rw [hinode] at hloads
  have hentry := hloads.entry (by rw [hlen]; decide)
  obtain rfl : eip = 0x0804801C#32 := hentry.trans (by decide)
  exact ⟨s', esp, hex, hloads⟩

/-! ### The programs that fit -/

/-- The addresses that the copy of the program stores to. -/
def loadStores (s : KState) (inode : BitVec 32) : Set ℕ :=
  (userPaddr.toNat + ·) '' ImageAccess.allWritten
    (s.fs.readDataAccesses inode 0#32 (s.userPtr userPaddr) userStackSize s.mem)

/-- The copy of a program that `execute` accepts stores to the user page behind `USER_PADDR` only.
-/
def LoadsInPage (command : List UInt8) (s : KState) : Prop :=
  ∀ file arg inode m t, parse command = some (file, arg) →
    checkExecutable s file = some (some inode, m) → s.procs.allocate = some t →
      loadStores { s with mem := m, calls := s.calls + 1, procs := t.mapPage t.newPid } inode ⊆
        Set.Ico userPaddr.toNat userEnd.toNat

/-- The copy stores the file, or 4 MB of it. -/
theorem loadStores_subset_iff (h0 : s.fs.bootblockHead ≠ Ptr.null)
    (hi : inode ≤ s.fs.inodesNum s.mem) :
    loadStores s inode ⊆ Set.Ico userPaddr.toNat userEnd.toNat ↔
      s.fs.fileLength s.mem inode ≤ userEnd - userPaddr := by
  have hzero : 0#32 ≤ s.fs.fileLength s.mem inode := BitVec.le_def.mpr (Nat.zero_le _)
  have hsum : (0#32).toNat + userStackSize.toNat < 2 ^ 32 := by decide
  have hsize : userStackSize.toNat = 0x400000 := rfl
  have hroom : (userEnd - userPaddr).toNat = 0x3B8000 := rfl
  have hstart : userPaddr.toNat = 0x8048000 := rfl
  have hend : userEnd.toNat = 0x8400000 := rfl
  have hcount : (s.fs.readData inode 0#32 (s.userPtr userPaddr) userStackSize s.mem).1.toNat =
      min 0x400000 (s.fs.fileLength s.mem inode).toNat := by
    rw [FileSystem.readData_fst h0 hi hzero hsum, FileSystem.toNat_clipLength hzero hsum, hsize,
      BitVec.toNat_zero, Nat.sub_zero]
  rw [loadStores, FileSystem.written_readDataAccesses h0 hi hzero, hcount, BitVec.le_def, hroom,
    hstart, hend]
  constructor
  · intro hsub
    by_contra hlong
    have hlast := hsub (Set.mem_image_of_mem _ (Set.mem_Iio.mpr (by omega : 0x3B8000 < _)))
    exact Nat.lt_irrefl _ hlast.2
  · rintro hfit _ ⟨p, hp, rfl⟩
    have hlt := Set.mem_Iio.mp hp
    exact ⟨Nat.le_add_right .., by dsimp only; omega⟩

/-- What the checks store does not matter for the copy. -/
theorem loadStores_checked_subset_iff (hs : s.ImageOk)
    (hcheck : checkExecutable s file = some (some inode, m)) (hi : inode ≤ s.fs.inodesNum s.mem)
    (t : ProcTable) :
    loadStores { s with mem := m, calls := s.calls + 1, procs := t.mapPage t.newPid } inode ⊆
      Set.Ico userPaddr.toNat userEnd.toNat ↔
        s.fs.fileLength s.mem inode ≤ userEnd - userPaddr := by
  have hm := (checkExecutable_eqOn hs.onBlock hcheck).mono inBlock_flat_subset
  rw [← FileSystem.fileLength_congr hs.onBlock hm]
  rw [← FileSystem.inodesNum_congr hs.onBlock hm] at hi
  exact loadStores_subset_iff
    (s := { s with mem := m, calls := s.calls + 1, procs := t.mapPage t.newPid })
    hs.wellFormed.head hi

/-- **Loading stays in the user page** exactly when the file has at most `0x3B8000` bytes, for every
entry that `execute` accepts. -/
theorem loadsInPage_iff (hs : s.ImageOk) (hfind : s.Finds command i)
    (hgo : goesOn command s = some true) : LoadsInPage command s ↔
      s.fs.fileLength s.mem (s.fs.entryInode s.mem i) ≤ userEnd - userPaddr := by
  obtain ⟨m, t, hcheck, halloc, hi⟩ := exists_checked hs hfind hgo
  rw [← loadStores_checked_subset_iff hs hcheck hi t]
  constructor
  · exact fun h => h _ _ _ m t (parse_eq command) hcheck halloc
  · -- There is one copy only: the call is a function of the command and the state.
    intro h file arg inode m' t' hparse hcheck' halloc'
    rw [parse_eq] at hparse
    cases hparse
    obtain ⟨hinode, rfl⟩ := Prod.mk.inj (Option.some.inj (hcheck.symm.trans hcheck'))
    obtain rfl := Option.some.inj hinode
    obtain rfl := Option.some.inj (halloc.symm.trans halloc')
    exact h

theorem loadsInPage_shell : LoadsInPage shell sampleBoot :=
  (loadsInPage_iff (s := sampleBoot) ⟨wellFormed_sampleMem, rfl⟩ (finds_shell (Set.eqOn_refl ..))
    (goesOn_shell (Set.eqOn_refl ..) (by decide))).mpr (by decide)

/-- A file of `0x3B8001` bytes is stored up to the address `0x8400000`. -/
theorem long_file_overflows : ¬ ∀ (s : KState) (command : List UInt8) (i : ℕ),
    s.ImageOk → s.Finds command i → goesOn command s = some true → LoadsInPage command s := by
  intro hall
  have hlen : sampleBoot.fs.fileLength (lengthMem 0x3B8001#32) 0#32 = 0x3B8001#32 :=
    fileLength_lengthMem 0x3B8001#32
  have hs : KState.ImageOk { sampleBoot with mem := (lengthMem 0x3B8001#32) } :=
    ⟨wellFormed_of_sampleMem (lengthMem_eqOn 0x3B8001#32) (by rw [hlen]; decide), rfl⟩
  have haccepts : sampleBoot.fs.Accepts (lengthMem 0x3B8001#32) 0#32 := by decide
  have hfind := finds_shell (lengthMem_eqOn 0x3B8001#32)
  have hgo := goesOn_shell (lengthMem_eqOn 0x3B8001#32) haccepts
  obtain ⟨m, t, hcheck, halloc, hi⟩ := exists_checked hs hfind hgo
  have hsub := hall _ _ _ hs hfind hgo _ _ _ m t (parse_eq shell) hcheck halloc
  have hfit := (loadStores_checked_subset_iff hs hcheck hi t).mp hsub
  rw [entryInode_shell (lengthMem_eqOn 0x3B8001#32), hlen] at hfit
  exact absurd hfit (by decide)

end Mp3Kernel
