import Mp3Kernel.FileSystem.Blocks
import Mp3Kernel.FileSystem.Bytes

/-!
# The file system: the header that the drivers store over

The drivers search into `curdentry`, and `filesystem_init` aims it at the header of the boot block.
An entry that is found is copied over `dentry_num` and `inodes_num`, and over the reserved bytes
behind them. In a well-formed image the copy ends in the header, so that the entries, the index
nodes and the data blocks stay as they are, whatever the drivers have found before.

## Main definitions

* `FileSystem.WellFormed`: the image is well formed.
* `FileSystem.body`: the block of the image without the header.
* `FileSystem.stamp`: the memory after an entry has been copied over the header.

## Main results

* `FileSystem.WellFormed.stamp_eqOn`: the copy stores into the header only.
* `FileSystem.WellFormed.fileOpen_of_found`, `FileSystem.WellFormed.fileRead_of_found`: the drivers
  of a regular file.
* `FileSystem.WellFormed.fileByte_eq`: the bytes of a file are those of the image.

Source: `filesystem.c`, lines 22–152.
-/

namespace Mp3Kernel

open ByteMemory

variable {β : Type}

namespace FileSystem

/-! ### Well-formed images -/

section Definitions

variable (fs : FileSystem β) (m : Mem β)

/-- The field `file_type` of entry `i`. -/
def entryType (i : ℕ) : BitVec 32 := readWord m (Dentry.fileType (fs.dentry i))

/-- The field `inode_index` of entry `i`. -/
def entryInode (i : ℕ) : BitVec 32 := readWord m (Dentry.inodeIndex (fs.dentry i))

/-- The block of the image, without the header of the boot block. -/
def body : Set (Ptr β) := Ptr.inBlock fs.bootblockHead.blk \ fs.bootblockHead.span Dentry.size

/-- The image is well formed, and the globals are those that `filesystem_init` sets for it. -/
structure WellFormed [Inhabited β] : Prop where
  /-- The image is not at the null pointer. -/
  head : fs.bootblockHead ≠ Ptr.null
  /-- The globals. -/
  init : fs = filesystemInit fs.bootblockHead m
  /-- The image does not run round the address space. -/
  fits : fs.bootblockHead.off.toNat +
    dataBlockSize * (1 + (fs.inodesNum m).toNat + (fs.dataNum m).toNat) ≤ 2 ^ 32
  /-- The entries in use are some of the boot block's. -/
  dentryNum_le : (fs.dentryNum m).toNat ≤ maxFileNumber
  /-- The reserved bytes of all entries hold a NUL. -/
  terminated : ∀ i < maxFileNumber, Dentry.Terminated m (fs.dentry i)
  /-- A regular file has one of the index nodes. -/
  inode_lt : ∀ i < (fs.dentryNum m).toNat, fs.entryType m i = 2#32 →
    fs.entryInode m i < fs.inodesNum m
  /-- A file is not longer than its index node can say. -/
  length_le : ∀ inode < fs.inodesNum m, (fs.fileLength m inode).toNat ≤ maxFileSize
  /-- The blocks of a file are some of the data blocks. -/
  block_lt : ∀ inode < fs.inodesNum m, ∀ p < (fs.fileLength m inode).toNat,
    fs.dataBlock m inode (p / dataBlockSize) < fs.dataNum m

/-- The memory after entry `i` has been copied over the header. -/
def stamp [DecidableEq β] (i : ℕ) : Mem β := (copyDentry fs.curdentry (fs.dentry i) m).getD m

end Definitions

variable {fs : FileSystem β} {m m' m₀ : Mem β} {i : ℕ} {inode : BitVec 32}

/-! ### The bytes that the header does not hold -/

theorem span_shift_subset_body {k n : ℕ} (hk : Dentry.size ≤ k) (hn : k + n ≤ 2 ^ 32) :
    (fs.bootblockHead.shift k).span n ⊆ fs.body := by
  intro q hq
  obtain ⟨j, hj, -, rfl⟩ := Ptr.exists_shift_of_mem_span hq
  refine ⟨hq.1, ?_⟩
  rw [Ptr.shift_shift]
  exact Ptr.shift_notMem_span (by omega) (by omega)

theorem body_subset_inBlock : fs.body ⊆ Ptr.inBlock fs.bootblockHead.blk := Set.sdiff_subset

/-- The entries of the boot block lie behind its header. -/
theorem span_dentry_subset_body (hi : i < maxFileNumber) :
    (fs.dentry i).span Dentry.size ⊆ fs.body := by
  rw [maxFileNumber] at hi
  exact span_shift_subset_body (by rw [Dentry.size]; omega) (by rw [Dentry.size]; omega)

theorem entryInode_eq (hm : Set.EqOn m m₀ fs.body) (hi : i < maxFileNumber) :
    fs.entryInode m i = fs.entryInode m₀ i :=
  readWord_congr hm ((Ptr.span_shift_subset (by decide)).trans (span_dentry_subset_body hi))

theorem entryType_eq (hm : Set.EqOn m m₀ fs.body) (hi : i < maxFileNumber) :
    fs.entryType m i = fs.entryType m₀ i :=
  readWord_congr hm ((Ptr.span_shift_subset (by decide)).trans (span_dentry_subset_body hi))

namespace WellFormed

variable [Inhabited β] (hwf : fs.WellFormed m₀)

include hwf

theorem curdentry_eq : fs.curdentry = fs.bootblockHead := by
  rw [hwf.init]
  rfl

theorem onBlock : fs.OnBlock fs.bootblockHead.blk := by
  rw [hwf.init]
  exact onBlock_filesystemInit fs.bootblockHead m₀

theorem dataValid : fs.DataValid m₀ where
  head := hwf.head
  init := hwf.init
  fits := hwf.fits
  length_le := hwf.length_le
  block_lt := hwf.block_lt

/-- The length of a file is not in the header. -/
theorem span_fileLength_subset_body (hin : inode < fs.inodesNum m₀) :
    (fs.indexnodeHead.shift (dataBlockSize * inode.toNat)).span 4 ⊆ fs.body := by
  have hfits := hwf.fits
  rw [BitVec.lt_def] at hin
  rw [hwf.dataValid.indexnodeHead_eq, Ptr.shift_shift]
  rw [dataBlockSize] at hfits ⊢
  exact span_shift_subset_body (by rw [Dentry.size]; omega) (by omega)

theorem fileLength_eq (hm : Set.EqOn m m₀ fs.body) (hin : inode < fs.inodesNum m₀) :
    fs.fileLength m inode = fs.fileLength m₀ inode :=
  readWord_congr hm (hwf.span_fileLength_subset_body hin)

/-- A byte of a file, and the word that says where it is, are not in the header. -/
theorem byteIn_body (hin : inode < fs.inodesNum m₀) {p : ℕ}
    (hp : p < (fs.fileLength m₀ inode).toNat) : fs.ByteIn m₀ inode fs.body p := by
  have hfits := hwf.fits
  have hsize : Dentry.size ≤ dataBlockSize := by decide
  obtain ⟨a, b, hword, hbyte, ha, hb⟩ := hwf.dataValid.exists_offsets hin hp
  rw [ByteIn, hword, hbyte]
  constructor
  · exact span_shift_subset_body (by omega) (by omega)
  · exact span_shift_subset_body (by omega) (by omega) (Ptr.self_mem_span Nat.one_pos)

/-- **The bytes of a file** are those of the image, whatever the header holds. -/
theorem fileByte_eq (hm : Set.EqOn m m₀ fs.body) (hin : inode < fs.inodesNum m₀) {p : ℕ}
    (hp : p < (fs.fileLength m₀ inode).toNat) : fs.fileByte m inode p = fs.fileByte m₀ inode p :=
  fileByte_congr hm (hwf.byteIn_body hin hp)

theorem terminated_of_eqOn (hm : Set.EqOn m m₀ fs.body) (hi : i < maxFileNumber) :
    Dentry.Terminated m (fs.dentry i) := by
  obtain ⟨k, hk, h0⟩ := hwf.terminated i hi
  refine ⟨k, hk, (hm (span_dentry_subset_body hi ?_)).trans h0⟩
  rw [Dentry.reserved, Ptr.shift_shift]
  exact Ptr.shift_mem_span (by rw [Dentry.size]; omega)

/-- A search ends: there is a NUL in the block of the image. -/
theorem exists_lookup (hm : Set.EqOn m m₀ fs.body) (fname : Ptr β) :
    ∃ o, fs.lookup m fname = some o := by
  obtain ⟨k, -, h0⟩ := hwf.terminated_of_eqOn hm (i := 0) (by decide)
  exact exists_lookup_of_hasLength fname fun i =>
    exists_hasLength_of_blk (q := (Dentry.reserved (fs.dentry 0)).shift k) rfl h0

/-! ### An entry copied over the header -/

variable [DecidableEq β]

/-- The copy ends, and it stores some of the positions of the header. -/
theorem exists_stamp (hm : Set.EqOn m m₀ fs.body) (hi : i < maxFileNumber) :
    ∃ n < 64, ∃ r < 24, HasLength m (Dentry.fileName (fs.dentry i)) n ∧
      HasLength m (Dentry.reserved (fs.dentry i)) r ∧
      copyDentry fs.curdentry (fs.dentry i) m = some (fs.stamp m i) ∧
      CopiedAt m (fs.stamp m i) fs.bootblockHead (fs.dentry i) (copiedPositions n r) := by
  obtain ⟨n, hn, r, hr, hln, hlr⟩ := (hwf.terminated_of_eqOn hm hi).exists_length
  have hd : Disjoint ((fs.dentry i).span 64) (fs.bootblockHead.span 64) :=
    Set.disjoint_sdiff_left.mono_left (span_dentry_subset_body hi)
  obtain ⟨m', hcopy, hc⟩ := exists_copyDentry hn hr hln hlr hd
  rw [← hwf.curdentry_eq] at hcopy
  have hstamp : fs.stamp m i = m' := by rw [stamp, hcopy, Option.getD_some]
  exact ⟨n, hn, r, hr, hln, hlr, hstamp ▸ hcopy, hstamp ▸ hc⟩

/-- **The copy stores into the header only.** -/
theorem stamp_eqOn (hm : Set.EqOn m m₀ fs.body) (hi : i < maxFileNumber) :
    Set.EqOn (fs.stamp m i) m (fs.bootblockHead.span Dentry.size)ᶜ := by
  obtain ⟨n, hn, r, hr, -, -, -, hc⟩ := hwf.exists_stamp hm hi
  exact hc.eqOn_span (copiedPositions_subset hn hr)

theorem stamp_eqOn_body (hm : Set.EqOn m m₀ fs.body) (hi : i < maxFileNumber) :
    Set.EqOn (fs.stamp m i) m fs.body :=
  (hwf.stamp_eqOn hm hi).mono fun _ hq => hq.2

/-- The inode in `curdentry` is that of the entry. -/
theorem inodeIndex_stamp (hm : Set.EqOn m m₀ fs.body) (hi : i < maxFileNumber) :
    readWord (fs.stamp m i) (Dentry.inodeIndex fs.curdentry) = fs.entryInode m i := by
  obtain ⟨n, -, r, -, -, -, -, hc⟩ := hwf.exists_stamp hm hi
  rw [hwf.curdentry_eq]
  exact hc.readWord fun k hk => .inl (.inl (.inr hk))

/-- A name of at least three characters is the new `dentry_num`. -/
theorem dentryNum_stamp (hm : Set.EqOn m m₀ fs.body) (hi : i < maxFileNumber) {n : ℕ}
    (hn : HasLength m (Dentry.fileName (fs.dentry i)) n) (h3 : 3 ≤ n) :
    fs.dentryNum (fs.stamp m i) = readWord m (Dentry.fileName (fs.dentry i)) := by
  obtain ⟨n', -, r, -, hn', -, -, hc⟩ := hwf.exists_stamp hm hi
  obtain rfl := hn.unique hn'
  have hword := hc.readWord (a := 0) fun k hk => .inl (.inr ⟨Nat.zero_le k, by have := hk.2; omega⟩)
  rwa [Ptr.shift_zero] at hword

/-- The header after the copy depends on the block of the image. -/
theorem stamp_congr (hm : Set.EqOn m m₀ fs.body) (hi : i < maxFileNumber)
    (h : Set.EqOn m' m (Ptr.inBlock fs.bootblockHead.blk)) :
    Set.EqOn (fs.stamp m' i) (fs.stamp m i) (Ptr.inBlock fs.bootblockHead.blk) := by
  obtain ⟨n, hn, r, hr, hln, hlr, -, hc⟩ := hwf.exists_stamp hm hi
  obtain ⟨n', -, r', -, hln', hlr', -, hc'⟩ :=
    hwf.exists_stamp ((h.mono body_subset_inBlock).trans hm) hi
  obtain rfl := hln'.unique (hln.congr fun k _ => h rfl)
  obtain rfl := hlr'.unique (hlr.congr fun k _ => h rfl)
  have hP := copiedPositions_subset hn hr
  intro q hq
  by_cases hin : q ∈ fs.bootblockHead.span Dentry.size
  · obtain ⟨k, hk, -, rfl⟩ := Ptr.exists_shift_of_mem_span hin
    by_cases hkP : k ∈ copiedPositions n' r'
    · rw [hc'.copied k hkP, hc.copied k hkP]
      exact h rfl
    · rw [hc'.kept (n := 64) (by omega) hP hk hkP, hc.kept (n := 64) (by omega) hP hk hkP]
      exact h rfl
  · rw [hc'.eqOn_span hP hin, hc.eqOn_span hP hin]
    exact h hq

/-! ### The drivers of a regular file -/

variable {fname buf : Ptr β} {offset length : BitVec 32}

/-- A search into `curdentry` that finds an entry of the boot block. -/
theorem readDentryByName_of_found (hm : Set.EqOn m m₀ fs.body) (h0 : fname ≠ Ptr.null)
    (hl : fs.lookup m fname = some (some i)) (hi : i < maxFileNumber) :
    fs.readDentryByName fname fs.curdentry m = some (success, fs.stamp m i) := by
  obtain ⟨hle, htoNat⟩ := lookup_lt hl
  obtain ⟨n, -, r, -, -, -, hcopy, -⟩ := hwf.exists_stamp hm hi
  exact readDentryByName_of_copy h0 hl hle (by rw [htoNat]; exact hcopy)

/-- A regular file opened under a name that is found. -/
theorem fileOpen_of_found (hm : Set.EqOn m m₀ fs.body) (h0 : fname ≠ Ptr.null)
    (hl : fs.lookup m fname = some (some i)) (hi : i < maxFileNumber) :
    fs.fileOpen fname m = some (success, fs.stamp m i) := by
  rw [fileOpen, if_neg h0, hwf.readDentryByName_of_found hm h0 hl hi]

/-- A regular file read under a name that is found. -/
theorem fileRead_of_found (hm : Set.EqOn m m₀ fs.body) (h0 : fname ≠ Ptr.null)
    (hl : fs.lookup m fname = some (some i)) (hi : i < maxFileNumber) :
    fs.fileRead fname offset buf length m =
      some (fs.readData (fs.entryInode m i) offset buf length (fs.stamp m i)) := by
  have hname := hwf.readDentryByName_of_found hm h0 hl hi
  rw [fileRead, if_neg hwf.head]
  refine Option.bind_eq_some_iff.mpr ⟨(success, fs.stamp m i), hname, ?_⟩
  dsimp only
  rw [if_neg (by decide), hwf.inodeIndex_stamp hm hi]

omit [DecidableEq β] in
/-- A name is found, or it is missed by a search that ends. -/
theorem lookup_or_misses (hm : Set.EqOn m m₀ fs.body) (fname : Ptr β) :
    (fname ≠ Ptr.null ∧ ∃ i, fs.lookup m fname = some (some i)) ∨
      fname = Ptr.null ∨ fs.lookup m fname = some none := by
  by_cases h0 : fname = Ptr.null
  · exact .inr (.inl h0)
  · obtain ⟨o, ho⟩ := hwf.exists_lookup hm fname
    cases o with
    | none => exact .inr (.inr ho)
    | some i => exact .inl ⟨h0, i, ho⟩

/-- A regular file read under a name that is missed. -/
theorem fileRead_of_missed (h : fname = Ptr.null ∨ fs.lookup m fname = some none) :
    fs.fileRead fname offset buf length m = some (failure, m) := by
  rw [fileRead, if_neg hwf.head]
  refine Option.bind_eq_some_iff.mpr ⟨(failure, m), readDentryByName_of_missed h, ?_⟩
  exact if_pos rfl

end WellFormed

end FileSystem

end Mp3Kernel
