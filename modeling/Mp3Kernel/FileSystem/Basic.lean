import Mathlib.Tactic.Common
import Mp3Kernel.Lib.Strings

/-!
# The file system: layout of the image and directory lookup

The image starts with the boot block: a 64-byte header with the number of directory entries, of
index nodes and of data blocks, then 63 directory entries of 64 bytes. One index node of 4096
bytes follows for every inode, and then the data blocks. The functions here are those of
`filesystem.c` that search the directory, over a byte memory that holds the image; every pointer
of the source, the module-wide `curdentry` included, is a pointer into that memory.

A search or a copy that meets no NUL never ends in the source, and its result is `none` here.
The diagnostic `printf` calls are left out: they only reach the screen.

## Main definitions

* `FileSystem`, `filesystemInit`: the globals of `filesystem.c`.
* `FileSystem.dentry`, `FileSystem.fileLength`, `FileSystem.dataBlock`, `FileSystem.datablock`:
  addresses and fields in the image.
* `copyDentry`, `FileSystem.readDentryByIndex`, `FileSystem.scanDentry`,
  `FileSystem.readDentryByName`.

## Main results

* `exists_copyDentry`: the entry copied, when its reserved field holds a NUL.
* `FileSystem.scanDentry_eq_some_some`, `FileSystem.scanDentry_congr`: what the search finds,
  and what it depends on.

Source: `filesystem.h`; `filesystem.c`, lines 10–77.
-/

namespace Mp3Kernel

open ByteMemory

variable {β : Type}

/-- The return value `0` of the file system calls. -/
def success : BitVec 32 := 0

/-- The return value `-1` of the file system calls. -/
def failure : BitVec 32 := -1

/-! ### Directory entries -/

namespace Dentry

/-- `FILE_NAME_LENGTH`. -/
def fileNameLength : ℕ := 32

/-- The field `file_name` of the entry at `d`. -/
def fileName (d : Ptr β) : Ptr β := d.shift 0

/-- The field `file_type` of the entry at `d`. -/
def fileType (d : Ptr β) : Ptr β := d.shift 32

/-- The field `inode_index` of the entry at `d`. -/
def inodeIndex (d : Ptr β) : Ptr β := d.shift 36

/-- The field `reserved` of the entry at `d`. -/
def reserved (d : Ptr β) : Ptr β := d.shift 40

/-- The size of a `dentry_t`. -/
def size : ℕ := 64

/-- The reserved field of the entry at `d` holds a NUL, so that copying it as a string ends
inside the entry. -/
def Terminated (m : Mem β) (d : Ptr β) : Prop := ∃ k < 24, m ((reserved d).shift k) = 0

end Dentry

/-! ### The globals and the layout of the image -/

/-- The globals `bootblock_head`, `indexnode_head`, `datablock_ptr` and `curdentry`. -/
structure FileSystem (β : Type) where
  /-- The start of the image. -/
  bootblockHead : Ptr β
  /-- The first index node. -/
  indexnodeHead : Ptr β
  /-- The first data block. -/
  datablockPtr : Ptr β
  /-- The entry shared by the drivers. -/
  curdentry : Ptr β

/-- `DATA_BLOCK_SIZE`, also the size of the boot block and of an index node. -/
def dataBlockSize : ℕ := 4096

/-- `MAX_FILE_NUMBER`, the number of entries in the boot block. -/
def maxFileNumber : ℕ := 63

/-- `MAX_FILE_SIZE`. -/
def maxFileSize : ℕ := 4190208

/-- `int filesystem_init(bootblock *modstart)`: the globals after the call. -/
def filesystemInit (modstart : Ptr β) (m : Mem β) : FileSystem β where
  bootblockHead := modstart
  indexnodeHead := modstart.shift dataBlockSize
  datablockPtr := modstart.shift
    (dataBlockSize + dataBlockSize * (readWord m (modstart.shift 4)).toNat)
  curdentry := modstart

namespace FileSystem

variable (fs : FileSystem β)

/-- The field `dentry_num` of the boot block. -/
def dentryNum (m : Mem β) : BitVec 32 := readWord m fs.bootblockHead

/-- The field `inodes_num` of the boot block. -/
def inodesNum (m : Mem β) : BitVec 32 := readWord m (fs.bootblockHead.shift 4)

/-- The field `data_num` of the boot block. -/
def dataNum (m : Mem β) : BitVec 32 := readWord m (fs.bootblockHead.shift 8)

/-- The address of `bootblock_head->dentry[i]`. -/
def dentry (i : ℕ) : Ptr β := fs.bootblockHead.shift (64 + Dentry.size * i)

/-- The field `file_length` of `indexnode_head[inode]`. -/
def fileLength (m : Mem β) (inode : BitVec 32) : BitVec 32 :=
  readWord m (fs.indexnodeHead.shift (dataBlockSize * inode.toNat))

/-- The value of `indexnode_head[inode].data_blocks[i]`. -/
def dataBlock (m : Mem β) (inode : BitVec 32) (i : ℕ) : BitVec 32 :=
  readWord m (fs.indexnodeHead.shift (dataBlockSize * inode.toNat + 4 + 4 * i))

/-- The address `datablock_ptr + data_id`. -/
def datablock (dataId : BitVec 32) : Ptr β :=
  fs.datablockPtr.shift (dataBlockSize * dataId.toNat)

/-- The bytes of the image: the boot block, the index nodes and the data blocks. -/
def image (m : Mem β) : Set (Ptr β) :=
  fs.bootblockHead.span (dataBlockSize * (1 + (fs.inodesNum m).toNat + (fs.dataNum m).toNat))

end FileSystem

variable [DecidableEq β]

/-! ### Copying an entry -/

/-- The first two stores of `read_dentry_by_index`: the type and the inode. -/
def copyNumbers (mydentry entry : Ptr β) (m : Mem β) : Mem β :=
  let m := writeWord m (Dentry.fileType mydentry) (readWord m (Dentry.fileType entry))
  writeWord m (Dentry.inodeIndex mydentry) (readWord m (Dentry.inodeIndex entry))

/-- The stores of `read_dentry_by_index`: the two numbers, then the two strings. -/
def copyDentry (mydentry entry : Ptr β) (m : Mem β) : Option (Mem β) :=
  (strcpy (copyNumbers mydentry entry m) (Dentry.fileName mydentry) (Dentry.fileName entry)).bind
    fun m => strcpy m (Dentry.reserved mydentry) (Dentry.reserved entry)

/-- The positions of a 64-byte entry that a copy stores, when the name has length `n` and the
reserved string has length `r`. -/
def copiedPositions (n r : ℕ) : Set ℕ :=
  Set.Ico 32 36 ∪ Set.Ico 36 40 ∪ Set.Ico 0 (n + 1) ∪ Set.Ico 40 (40 + (r + 1))

theorem copiedPositions_subset {n r : ℕ} (hn : n < 64) (hr : r < 24) :
    copiedPositions n r ⊆ Set.Iio 64 := by
  intro k hk
  simp only [copiedPositions, Set.mem_union, Set.mem_Ico] at hk
  simp only [Set.mem_Iio]
  omega

omit [DecidableEq β] in
/-- The lengths of the strings of an entry whose reserved field holds a NUL. -/
theorem Dentry.Terminated.exists_length {m : Mem β} {d : Ptr β} (h : Dentry.Terminated m d) :
    ∃ n < 64, ∃ r < 24, HasLength m (Dentry.fileName d) n ∧ HasLength m (Dentry.reserved d) r := by
  obtain ⟨k, hk, h0⟩ := h
  obtain ⟨r, hr, hlr⟩ := exists_hasLength_le h0
  have h0' : m ((Dentry.fileName d).shift (40 + k)) = 0 := by
    simpa [Dentry.fileName, Dentry.reserved] using h0
  obtain ⟨n, hn, hln⟩ := exists_hasLength_le h0'
  exact ⟨n, by omega, r, by omega, hln, hlr⟩

/-- **An entry copied.** The entry is at `src`, its reserved field holds a NUL, and the entry
filled does not meet it: the copy ends, and it stores exactly the positions `copiedPositions`. -/
theorem exists_copyDentry {m : Mem β} {d src : Ptr β} {n r : ℕ} (hn : n < 64) (hr : r < 24)
    (hln : HasLength m (Dentry.fileName src) n) (hlr : HasLength m (Dentry.reserved src) r)
    (hd : Disjoint (src.span 64) (d.span 64)) :
    ∃ m', copyDentry d src m = some m' ∧ CopiedAt m m' d src (copiedPositions n r) := by
  have hsub (a b : ℕ) (hb : a + b ≤ 64) : Disjoint ((src.shift a).span b) ((d.shift a).span b) :=
    hd.mono (Ptr.span_shift_subset hb) (Ptr.span_shift_subset hb)
  have hP₁ : Set.Ico 32 36 ⊆ Set.Iio 64 := fun k hk => by simp_all; omega
  have hP₂ : Set.Ico 36 40 ⊆ Set.Iio 64 := fun k hk => by simp_all; omega
  have hP₃ : Set.Ico 0 (n + 1) ⊆ Set.Iio 64 := fun k hk => by simp_all; omega
  have hP₄ : Set.Ico 40 (40 + (r + 1)) ⊆ Set.Iio 64 := fun k hk => by simp_all; omega
  -- A partial copy leaves the source as it was.
  have hsrc {m' : Mem β} {P : Set ℕ} (hP : P ⊆ Set.Iio 64) (h : CopiedAt m m' d src P) (k : ℕ)
      (hk : k < 64) : m' (src.shift k) = m (src.shift k) :=
    h.eqOn_span hP (Set.disjoint_left.mp hd (Ptr.shift_mem_span hk))
  have hP₁₂ := Set.union_subset hP₁ hP₂
  have h₂ : CopiedAt m (copyNumbers d src m) d src (Set.Ico 32 36 ∪ Set.Ico 36 40) :=
    CopiedAt.trans (by omega) hd hP₁ hP₂
      (copied_writeWord m (Dentry.fileType d) (Dentry.fileType src)).copiedAt
      (copied_writeWord _ (Dentry.inodeIndex d) (Dentry.inodeIndex src)).copiedAt
  have hln₂ : HasLength (copyNumbers d src m) (Dentry.fileName src) n := hln.congr fun k hk => by
    simpa [Dentry.fileName] using hsrc hP₁₂ h₂ k (by omega)
  obtain ⟨m₃, hm₃, hc₃⟩ := strcpy_eq_some hln₂ (hsub 0 (n + 1) (by omega))
  have hc₃' := hc₃.copiedAt
  rw [Nat.zero_add] at hc₃'
  have h₃ := CopiedAt.trans (by omega) hd hP₁₂ hP₃ h₂ hc₃'
  have hP₁₂₃ := Set.union_subset hP₁₂ hP₃
  have hlr₃ : HasLength m₃ (Dentry.reserved src) r := hlr.congr fun k hk => by
    simpa [Dentry.reserved] using hsrc hP₁₂₃ h₃ (40 + k) (by omega)
  obtain ⟨m₄, hm₄, hc₄⟩ := strcpy_eq_some hlr₃ (hsub 40 (r + 1) (by omega))
  have h₄ := CopiedAt.trans (by omega) hd hP₁₂₃ hP₄ h₃ hc₄.copiedAt
  exact ⟨m₄, Option.bind_eq_some_iff.mpr ⟨m₃, hm₃, hm₄⟩, h₄⟩

/-! ### Searching the directory -/

/-- An index below a signed count is below the count. -/
theorem ofNat_le_of_lt_toInt {i : ℕ} {n : BitVec 32} (h : i < n.toInt.toNat) :
    BitVec.ofNat 32 i ≤ n ∧ (BitVec.ofNat 32 i).toNat = i := by
  have hcond := BitVec.toInt_eq_toNat_cond n
  have hn := n.isLt
  have hi : (BitVec.ofNat 32 i).toNat = i := by
    rw [BitVec.toNat_ofNat]
    split_ifs at hcond <;> omega
  refine ⟨?_, hi⟩
  rw [BitVec.le_def, hi]
  split_ifs at hcond <;> omega

namespace FileSystem

variable (fs : FileSystem β)

/-- `int32_t read_dentry_by_index(uint32_t index, dentry_t* mydentry)`. -/
def readDentryByIndex (index : BitVec 32) (mydentry : Ptr β) (m : Mem β) :
    Option (BitVec 32 × Mem β) :=
  if fs.dentryNum m < index then some (failure, m)
  else (copyDentry mydentry (fs.dentry index.toNat) m).map fun m' => (success, m')

/-- The loop of `read_dentry_by_name` at index `scan_loop`: the first entry whose name, compared
over its own length, agrees with `fname`. -/
def scanDentry (m : Mem β) (fname : Ptr β) : ℕ → ℕ → Option (Option ℕ)
  | 0, _ => some none
  | fuel + 1, scanLoop => do
    let n ← strlen m (Dentry.fileName (fs.dentry scanLoop))
    if strncmp m fname (Dentry.fileName (fs.dentry scanLoop)) n = 0 then some (some scanLoop)
    else scanDentry m fname fuel (scanLoop + 1)

/-- The search over the first `dentry_num` entries, a signed count. -/
def lookup (m : Mem β) (fname : Ptr β) : Option (Option ℕ) :=
  fs.scanDentry m fname (fs.dentryNum m).toInt.toNat 0

/-- `int32_t read_dentry_by_name(const uint8_t* fname, dentry_t* mydentry)`. -/
def readDentryByName [Inhabited β] (fname mydentry : Ptr β) (m : Mem β) :
    Option (BitVec 32 × Mem β) :=
  if fname = Ptr.null then some (failure, m)
  else do
    match ← fs.lookup m fname with
    | none => some (failure, m)
    | some scanLoop =>
      let (_, m) ← fs.readDentryByIndex (BitVec.ofNat 32 scanLoop) mydentry m
      some (success, m)

/-! ### What the search finds -/

omit [DecidableEq β] in
/-- The name of entry `i`, compared over its own length, agrees with `fname`. -/
def Matches (m : Mem β) (fname : Ptr β) (i : ℕ) : Prop :=
  ∃ n, HasLength m (Dentry.fileName (fs.dentry i)) n ∧
    IsPrefix m fname (Dentry.fileName (fs.dentry i)) n

omit [DecidableEq β] in
/-- The name of entry `i`, compared over its own length, differs from `fname`. -/
def Differs (m : Mem β) (fname : Ptr β) (i : ℕ) : Prop :=
  ∃ n, HasLength m (Dentry.fileName (fs.dentry i)) n ∧
    ¬ IsPrefix m fname (Dentry.fileName (fs.dentry i)) n

variable {fs}

omit [DecidableEq β] in
/-- The search is a matter of the comparisons with the names in the directory. -/
theorem scanDentry_congr {m m' : Mem β} {fname fname' : Ptr β}
    (hf : ∀ i n, strncmp m' fname' (Dentry.fileName (fs.dentry i)) n =
      strncmp m fname (Dentry.fileName (fs.dentry i)) n)
    (hd : ∀ i k, m' ((Dentry.fileName (fs.dentry i)).shift k) =
      m ((Dentry.fileName (fs.dentry i)).shift k)) (fuel i : ℕ) :
    fs.scanDentry m' fname' fuel i = fs.scanDentry m fname fuel i := by
  induction fuel generalizing i with
  | zero => rfl
  | succ fuel ih =>
    rw [scanDentry, scanDentry, strlen_congr (hd i)]
    refine congrArg (Option.bind _) (funext fun n => ?_)
    rw [hf, ih]

omit [DecidableEq β] in
theorem Matches.not_differs {m : Mem β} {fname : Ptr β} {i : ℕ} (h : fs.Matches m fname i) :
    ¬ fs.Differs m fname i := by
  rintro ⟨n', hn', hp'⟩
  obtain ⟨n, hn, hp⟩ := h
  exact hp' (hn.unique hn' ▸ hp)

omit [DecidableEq β] in
theorem scanDentry_succ_eq_some_iff {m : Mem β} {fname : Ptr β} {fuel i : ℕ} {o : Option ℕ} :
    fs.scanDentry m fname (fuel + 1) i = some o ↔
      (fs.Matches m fname i ∧ o = some i) ∨
        (fs.Differs m fname i ∧ fs.scanDentry m fname fuel (i + 1) = some o) := by
  rw [scanDentry]
  constructor
  · intro h
    obtain ⟨n, hn, h⟩ := Option.bind_eq_some_iff.mp h
    have hln := strlen_eq_some_iff.mp hn
    split_ifs at h with hcmp
    · exact .inl ⟨⟨n, hln, (strncmp_eq_zero_iff hln).mp hcmp⟩, (Option.some.inj h).symm⟩
    · exact .inr ⟨⟨n, hln, fun hp => hcmp ((strncmp_eq_zero_iff hln).mpr hp)⟩, h⟩
  · rintro (⟨⟨n, hln, hp⟩, rfl⟩ | ⟨⟨n, hln, hp⟩, h⟩) <;>
      rw [strlen_of_hasLength hln]
    · exact if_pos ((strncmp_eq_zero_iff hln).mpr hp)
    · exact (if_neg fun hc => hp ((strncmp_eq_zero_iff hln).mp hc)).trans h

omit [DecidableEq β] in
/-- **An entry found** is the first that matches, all before it having been compared. -/
theorem scanDentry_eq_some_some {m : Mem β} {fname : Ptr β} {fuel i j : ℕ} :
    fs.scanDentry m fname fuel i = some (some j) ↔
      i ≤ j ∧ j < i + fuel ∧ fs.Matches m fname j ∧ ∀ k, i ≤ k → k < j → fs.Differs m fname k := by
  induction fuel generalizing i with
  | zero =>
    simp only [scanDentry, Option.some.injEq, reduceCtorEq, false_iff]
    omega
  | succ fuel ih =>
    rw [scanDentry_succ_eq_some_iff, ih]
    constructor
    · rintro (⟨hm, ⟨⟩⟩ | ⟨hd, hij, hj, hm, hall⟩)
      · exact ⟨le_rfl, by omega, hm, fun k hk hk' => absurd hk' (by omega)⟩
      · refine ⟨by omega, by omega, hm, fun k hk hk' => ?_⟩
        rcases Nat.eq_or_lt_of_le hk with rfl | hk
        · exact hd
        · exact hall k hk hk'
    · rintro ⟨hij, hj, hm, hall⟩
      rcases Nat.eq_or_lt_of_le hij with rfl | hij
      · exact .inl ⟨hm, rfl⟩
      · exact .inr ⟨hall i le_rfl hij, hij, by omega, hm, fun k hk hk' => hall k (by omega) hk'⟩

omit [DecidableEq β] in
/-- No entry is found when every one has been compared and differs. -/
theorem scanDentry_eq_some_none {m : Mem β} {fname : Ptr β} {fuel i : ℕ} :
    fs.scanDentry m fname fuel i = some none ↔
      ∀ k, i ≤ k → k < i + fuel → fs.Differs m fname k := by
  induction fuel generalizing i with
  | zero =>
    simp only [scanDentry, true_iff]
    omega
  | succ fuel ih =>
    rw [scanDentry_succ_eq_some_iff, ih]
    constructor
    · rintro (⟨-, ⟨⟩⟩ | ⟨hd, hall⟩) k hk hk'
      rcases Nat.eq_or_lt_of_le hk with rfl | hk
      · exact hd
      · exact hall k hk (by omega)
    · exact fun hall =>
        .inr ⟨hall i le_rfl (by omega), fun k hk hk' => hall k (by omega) (by omega)⟩

omit [DecidableEq β] in
/-- The search ends where the strings of the entries do. -/
theorem exists_lookup_of_hasLength {m : Mem β} (fname : Ptr β)
    (h : ∀ i, ∃ n, HasLength m (Dentry.fileName (fs.dentry i)) n) :
    ∃ o, fs.lookup m fname = some o := by
  have hscan (fuel i : ℕ) : ∃ o, fs.scanDentry m fname fuel i = some o := by
    induction fuel generalizing i with
    | zero => exact ⟨none, rfl⟩
    | succ fuel ih =>
      obtain ⟨n, hn⟩ := h i
      by_cases hp : IsPrefix m fname (Dentry.fileName (fs.dentry i)) n
      · exact ⟨some i, scanDentry_succ_eq_some_iff.mpr (.inl ⟨⟨n, hn, hp⟩, rfl⟩)⟩
      · obtain ⟨o, ho⟩ := ih (i + 1)
        exact ⟨o, scanDentry_succ_eq_some_iff.mpr (.inr ⟨⟨n, hn, hp⟩, ho⟩)⟩
  exact hscan _ 0

omit [DecidableEq β] in
/-- An entry found has an index below the signed count `dentry_num`. -/
theorem lookup_lt {m : Mem β} {fname : Ptr β} {i : ℕ} (h : fs.lookup m fname = some (some i)) :
    BitVec.ofNat 32 i ≤ fs.dentryNum m ∧ (BitVec.ofNat 32 i).toNat = i := by
  obtain ⟨-, hlt, -⟩ := scanDentry_eq_some_some.mp h
  rw [Nat.zero_add] at hlt
  exact ofNat_le_of_lt_toInt hlt

end FileSystem

end Mp3Kernel
