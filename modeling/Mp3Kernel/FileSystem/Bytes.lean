import Mp3Kernel.FileSystem.ReadData

/-!
# The file system: which bytes of a file a read delivers

The loop of `read_data` copies every block from its first byte, also the block in which the offset
lies. A read that starts at a block boundary delivers the file. Any other read delivers the bytes
from the start of the block on, which are those asked for only where the file repeats itself.

## Main definitions

* `FileSystem.DataValid`: an image whose index nodes are valid.
* `FileSystem.bytesLeft`: how many bytes a read is to deliver.
* `FileSystem.DeliversFile`: the bytes delivered are those of the file from the offset on.
* `FileSystem.RepeatsFrom`: those bytes are also the ones from the start of the block on.

## Main results

* `FileSystem.DataValid.exists_offsets`: where the bytes of a file are in the image.
* `FileSystem.DataValid.readData_bytes`: the count returned and the bytes delivered.
* `deliversFile_iff`: when a read delivers the file.
* `read_second_byte`: a read that does not.

Source: `filesystem.h`, lines 42–50; `filesystem.c`, lines 79–117.
-/

namespace Mp3Kernel

open ByteMemory

variable {β : Type}

namespace FileSystem

/-! ### Images with valid index nodes -/

section Definitions

variable (fs : FileSystem β) (m : Mem β)

/-- The index nodes of the image are valid, and the globals are those that `filesystem_init` sets
for it. -/
structure DataValid [Inhabited β] : Prop where
  /-- The image is not at the null pointer. -/
  head : fs.bootblockHead ≠ Ptr.null
  /-- The globals. -/
  init : fs = filesystemInit fs.bootblockHead m
  /-- The image does not run round the address space. -/
  fits : fs.bootblockHead.off.toNat +
    dataBlockSize * (1 + (fs.inodesNum m).toNat + (fs.dataNum m).toNat) ≤ 2 ^ 32
  /-- A file is not longer than its index node can say. -/
  length_le : ∀ inode < fs.inodesNum m, (fs.fileLength m inode).toNat ≤ maxFileSize
  /-- The blocks of a file are some of the data blocks. -/
  block_lt : ∀ inode < fs.inodesNum m, ∀ p < (fs.fileLength m inode).toNat,
    fs.dataBlock m inode (p / dataBlockSize) < fs.dataNum m

/-- The bytes that a read is to deliver: those asked for, as far as the file goes. -/
def bytesLeft (inode offset length : BitVec 32) : ℕ :=
  min length.toNat ((fs.fileLength m inode).toNat - offset.toNat)

/-- The `n` bytes of the file from `offset` on are also those from the start of its block on. -/
def RepeatsFrom (inode : BitVec 32) (offset n : ℕ) : Prop :=
  ∀ k < n, fs.fileByte m inode (dataBlockSize * (offset / dataBlockSize) + k) =
    fs.fileByte m inode (offset + k)

/-- What `read_data` delivers is the file from the offset on: byte `k` of the buffer is the byte of
the file at position `offset + k`, for every `k` below the count returned. -/
def DeliversFile [DecidableEq β] [Inhabited β] (inode offset : BitVec 32) (buf : Ptr β)
    (length : BitVec 32) : Prop :=
  let r := fs.readData inode offset buf length m
  ∀ k < r.1.toNat, r.2 (buf.shift k) = fs.fileByte m inode (offset.toNat + k)

end Definitions

theorem init_filesystemInit (modstart : Ptr β) (m : Mem β) : filesystemInit modstart m =
    filesystemInit (filesystemInit modstart m).bootblockHead m := rfl

variable {fs : FileSystem β} {m : Mem β} {inode offset length : BitVec 32} {buf : Ptr β}

/-- At a block boundary the two starts are the same. -/
theorem repeatsFrom_of_dvd {o n : ℕ} (h : dataBlockSize ∣ o) : fs.RepeatsFrom m inode o n := by
  intro k _
  rw [Nat.mul_div_cancel' h]

section Inhabited

variable [Inhabited β]

namespace DataValid

variable (hv : fs.DataValid m)

include hv

theorem indexnodeHead_eq : fs.indexnodeHead = fs.bootblockHead.shift dataBlockSize := by
  rw [hv.init]
  rfl

theorem datablockPtr_eq : fs.datablockPtr = fs.bootblockHead.shift
    (dataBlockSize + dataBlockSize * (fs.inodesNum m).toNat) := by
  rw [hv.init]
  rfl

/-- Where a byte of a file is in the image, and the word that says so: behind the boot block. -/
theorem exists_offsets (hin : inode < fs.inodesNum m) {p : ℕ}
    (hp : p < (fs.fileLength m inode).toNat) : ∃ a b,
    fs.indexnodeHead.shift (dataBlockSize * inode.toNat + 4 + 4 * (p / dataBlockSize)) =
        fs.bootblockHead.shift a ∧
      fs.bytePtr m inode p = fs.bootblockHead.shift b ∧
      (dataBlockSize ≤ a ∧
        a + 4 ≤ dataBlockSize * (1 + (fs.inodesNum m).toNat + (fs.dataNum m).toNat)) ∧
      dataBlockSize ≤ b ∧
        b + 1 ≤ dataBlockSize * (1 + (fs.inodesNum m).toNat + (fs.dataNum m).toNat) := by
  have hlen := hv.length_le inode hin
  have hblock := BitVec.lt_def.mp (hv.block_lt inode hin p hp)
  have hmod : p % dataBlockSize < dataBlockSize := Nat.mod_lt p (by decide)
  rw [BitVec.lt_def] at hin
  rw [maxFileSize] at hlen
  rw [bytePtr, datablock, hv.datablockPtr_eq, hv.indexnodeHead_eq, Ptr.shift_shift, Ptr.shift_shift,
    Ptr.shift_shift]
  refine ⟨_, _, rfl, rfl, ?_, ?_⟩
  · rw [dataBlockSize]
    omega
  · rw [dataBlockSize] at hmod hblock ⊢
    omega

/-- A byte of a file, and the word that says where it is, lie in the image. -/
theorem byteIn_image (hin : inode < fs.inodesNum m) {p : ℕ}
    (hp : p < (fs.fileLength m inode).toNat) : fs.ByteIn m inode (fs.image m) p := by
  obtain ⟨a, b, hword, hbyte, ha, hb⟩ := hv.exists_offsets hin hp
  rw [ByteIn, hword, hbyte]
  exact ⟨Ptr.span_shift_subset ha.2, Ptr.shift_mem_span hb.2⟩

variable [DecidableEq β]

/-- **The bytes of a read.** It delivers what is left of the file, or all that is asked for, from
the start of the block that holds the offset. -/
theorem readData_bytes (hin : inode < fs.inodesNum m) (ho : offset ≤ fs.fileLength m inode)
    (hn : offset.toNat + length.toNat < 2 ^ 32)
    (hd : Disjoint (buf.span (fs.bytesLeft m inode offset length)) (fs.image m)) :
    (fs.readData inode offset buf length m).1.toNat = fs.bytesLeft m inode offset length ∧
      ∀ k < fs.bytesLeft m inode offset length,
        (fs.readData inode offset buf length m).2 (buf.shift k) =
          fs.fileByte m inode (dataBlockSize * (offset.toNat / dataBlockSize) + k) := by
  have hi : inode ≤ fs.inodesNum m := BitVec.le_of_lt hin
  have hclip : (fs.clipLength m inode offset length).toNat = fs.bytesLeft m inode offset length :=
    toNat_clipLength ho hn
  have hI (p : ℕ) (hp : p < (fs.clipLength m inode offset length).toNat) :
      fs.ByteIn m inode (fs.image m) (4096 * (offset.toNat / dataBlockSize) + p) := by
    refine hv.byteIn_image hin ?_
    rw [hclip, bytesLeft] at hp
    have hstart : 4096 * (offset.toNat / dataBlockSize) ≤ offset.toNat :=
      Nat.mul_div_le offset.toNat 4096
    omega
  have hspec := readData_spec hv.head hi ho hn (hclip.symm ▸ hd) hI
  rw [hclip] at hspec
  refine ⟨?_, hspec.delivered⟩
  rw [readData_fst hv.head hi ho hn, hclip]

/-- A read delivers the file exactly when the bytes from the two starts are the same. -/
theorem deliversFile_iff_repeatsFrom (hin : inode < fs.inodesNum m)
    (ho : offset ≤ fs.fileLength m inode) (hn : offset.toNat + length.toNat < 2 ^ 32)
    (hd : Disjoint (buf.span (fs.bytesLeft m inode offset length)) (fs.image m)) :
    fs.DeliversFile m inode offset buf length ↔
      fs.RepeatsFrom m inode offset.toNat (fs.bytesLeft m inode offset length) := by
  obtain ⟨hcount, hbytes⟩ := hv.readData_bytes hin ho hn hd
  simp only [DeliversFile, RepeatsFrom, hcount]
  constructor
  · intro h k hk
    rw [← hbytes k hk, h k hk]
  · intro h k hk
    rw [hbytes k hk, h k hk]

end DataValid

end Inhabited

end FileSystem

/-! ### When a read delivers the file -/

/-- **A read delivers the file** exactly when it starts at a block boundary, or where the bytes
asked for are repeated from the start of the block on. The image is valid, the offset lies in the
file, and the buffer does not meet the image. -/
theorem deliversFile_iff [DecidableEq β] [Inhabited β] {fs : FileSystem β} {m : Mem β}
    {inode offset length : BitVec 32} {buf : Ptr β} (hv : fs.DataValid m)
    (hin : inode < fs.inodesNum m) (ho : offset ≤ fs.fileLength m inode)
    (hn : offset.toNat + length.toNat < 2 ^ 32)
    (hd : Disjoint (buf.span (fs.bytesLeft m inode offset length)) (fs.image m)) :
    fs.DeliversFile m inode offset buf length ↔ dataBlockSize ∣ offset.toNat ∨
      fs.RepeatsFrom m inode offset.toNat (fs.bytesLeft m inode offset length) := by
  rw [hv.deliversFile_iff_repeatsFrom hin ho hn hd]
  constructor
  · exact .inr
  · rintro (h | h)
    · exact FileSystem.repeatsFrom_of_dvd h
    · exact h

/-! ### A file of two letters -/

/-- Where the image starts. -/
def lettersStart : Ptr Unit := ⟨(), 0x1000⟩

/-- A buffer in front of it. -/
def lettersBuf : Ptr Unit := ⟨(), 0x800⟩

/-- A memory with an image of no directory entry, one index node and one data block. The file holds
the letters `a` and `b`. -/
def lettersImage : Mem Unit := fun p =>
  if p = lettersStart.shift 4 ∨ p = lettersStart.shift 8 then 1
  else if p = lettersStart.shift 0x1000 then 2
  else if p = lettersStart.shift 0x2000 then 97
  else if p = lettersStart.shift 0x2001 then 98
  else 0

/-- The globals for the image. -/
def lettersFs : FileSystem Unit := filesystemInit lettersStart lettersImage

theorem fileLength_lettersImage : lettersFs.fileLength lettersImage 0 = 2 := by decide

theorem dataValid_lettersImage : lettersFs.DataValid lettersImage where
  head := by decide
  init := FileSystem.init_filesystemInit lettersStart lettersImage
  fits := by decide
  length_le inode hin := by
    have hnum : lettersFs.inodesNum lettersImage = 1 := by decide
    obtain rfl : inode = 0 := by bv_omega
    rw [fileLength_lettersImage]
    decide
  block_lt inode hin p hp := by
    have hnum : lettersFs.inodesNum lettersImage = 1 := by decide
    obtain rfl : inode = 0 := by bv_omega
    rw [fileLength_lettersImage] at hp
    obtain hp0 : p / dataBlockSize = 0 := Nat.div_eq_of_lt (Nat.lt_trans hp (by decide))
    rw [hp0]
    decide

theorem disjoint_lettersBuf {n : ℕ} (hn : n ≤ 2) :
    Disjoint (lettersBuf.span n) (lettersFs.image lettersImage) := by
  have h := Ptr.disjoint_span_shift (p := lettersBuf) (i := 0) (j := 0x800) (n := n) (k := 0x3000)
    (by omega) (by decide)
  rwa [Ptr.shift_zero] at h

theorem deliversFile_letters : lettersFs.DeliversFile lettersImage 0 0 lettersBuf 2 :=
  (deliversFile_iff dataValid_lettersImage (by decide) (by decide) (by decide)
    (disjoint_lettersBuf (by decide))).mpr (.inl (by decide))

/-- The second letter is asked for, and the first is delivered. -/
theorem read_second_byte : ¬ ∀ (fs : FileSystem Unit) (m : Mem Unit), fs.DataValid m →
    ∀ (inode offset length : BitVec 32) (buf : Ptr Unit), inode < fs.inodesNum m →
      offset ≤ fs.fileLength m inode → offset.toNat + length.toNat < 2 ^ 32 →
      Disjoint (buf.span (fs.bytesLeft m inode offset length)) (fs.image m) →
      fs.DeliversFile m inode offset buf length := by
  intro hall
  have hv := dataValid_lettersImage
  have hd : Disjoint (lettersBuf.span (lettersFs.bytesLeft lettersImage 0 1 1))
      (lettersFs.image lettersImage) := disjoint_lettersBuf (by decide)
  have hdelivers := hall lettersFs lettersImage hv 0 1 1 lettersBuf (by decide) (by decide)
    (by decide) hd
  rw [hv.deliversFile_iff_repeatsFrom (by decide) (by decide) (by decide) hd] at hdelivers
  have hbyte := hdelivers 0 (by decide)
  revert hbyte
  decide

end Mp3Kernel
