import Mp3Kernel.FileSystem.Basic

/-!
# The file system: reading the data of an inode

`read_data` copies a file block by block. It starts at the block that holds the offset, copies
every block from its first byte, and stops when the requested length, cut at the end of the
file, has been delivered.

## Main definitions

* `FileSystem.readBlocks`, `FileSystem.readData`.
* `FileSystem.bytePtr`, `FileSystem.fileByte`: where a byte of a file is, and its value.

## Main results

* `FileSystem.readData_eqOn`: `read_data` writes nothing outside the caller's buffer.
* `FileSystem.readData_fst`: the count it returns.
* `FileSystem.readData_spec`: the bytes delivered, when the buffer does not meet the bytes of the
  image that the copy reads.

Source: `filesystem.c`, lines 79–117.
-/

namespace Mp3Kernel

open ByteMemory

variable {β : Type} [DecidableEq β]

namespace FileSystem

variable (fs : FileSystem β)

/-! ### The function -/

/-- The loop of `read_data` at block `i`, with `k` rounds left and `bufOffset` bytes delivered. -/
def readBlocks (inode : BitVec 32) (buf : Ptr β) (length : BitVec 32) :
    ℕ → ℕ → BitVec 32 → Mem β → BitVec 32 × Mem β
  | 0, _, bufOffset, m => (bufOffset, m)
  | k + 1, i, bufOffset, m =>
    let dataId := fs.dataBlock m inode i
    let memcpyLen := if length - bufOffset < 4096 then length - bufOffset else 4096
    readBlocks inode buf length k (i + 1) (bufOffset + memcpyLen)
      (memcpy m (buf.shift bufOffset.toNat) (fs.datablock dataId) memcpyLen.toNat)

omit [DecidableEq β] in
/-- The length requested, cut at the end of the file. The sum wraps. -/
def clipLength (m : Mem β) (inode offset length : BitVec 32) : BitVec 32 :=
  if fs.fileLength m inode < length + offset then fs.fileLength m inode - offset else length

/-- `int32_t read_data(uint32_t inode, uint32_t offset, uint8_t* buf, uint32_t length)`. -/
def readData [Inhabited β] (inode offset : BitVec 32) (buf : Ptr β) (length : BitVec 32)
    (m : Mem β) : BitVec 32 × Mem β :=
  if fs.bootblockHead = Ptr.null then (failure, m)
  else if fs.inodesNum m < inode ∨ fs.fileLength m inode < offset then (failure, m)
  else
    let length := fs.clipLength m inode offset length
    let starting := offset.toNat / dataBlockSize
    let ending := (offset + length).toNat / dataBlockSize
    fs.readBlocks inode buf length (ending + 1 - starting) starting 0 m

/-! ### The bytes of a file -/

omit [DecidableEq β] in
/-- Where the byte at position `p` of a file is. -/
def bytePtr (m : Mem β) (inode : BitVec 32) (p : ℕ) : Ptr β :=
  (fs.datablock (fs.dataBlock m inode (p / dataBlockSize))).shift (p % dataBlockSize)

omit [DecidableEq β] in
/-- The byte at position `p` of a file. -/
def fileByte (m : Mem β) (inode : BitVec 32) (p : ℕ) : UInt8 := m (fs.bytePtr m inode p)

omit [DecidableEq β] in
/-- The entry of `data_blocks` for position `p` of a file, and the byte there, lie in `I`. -/
def ByteIn (m : Mem β) (inode : BitVec 32) (I : Set (Ptr β)) (p : ℕ) : Prop :=
  (fs.indexnodeHead.shift
    (dataBlockSize * inode.toNat + 4 + 4 * (p / dataBlockSize))).span 4 ⊆ I ∧
    fs.bytePtr m inode p ∈ I

variable {fs} {inode offset length bufOffset : BitVec 32} {buf : Ptr β} {m m₀ : Mem β} {k i t : ℕ}

omit [DecidableEq β] in
theorem dataBlock_congr {I : Set (Ptr β)} {p : ℕ} (h : Set.EqOn m m₀ I)
    (hp : fs.ByteIn m₀ inode I p) :
    fs.dataBlock m inode (p / dataBlockSize) = fs.dataBlock m₀ inode (p / dataBlockSize) :=
  readWord_congr h hp.1

omit [DecidableEq β] in
theorem fileByte_congr {I : Set (Ptr β)} {p : ℕ} (h : Set.EqOn m m₀ I)
    (hp : fs.ByteIn m₀ inode I p) : fs.fileByte m inode p = fs.fileByte m₀ inode p := by
  rw [fileByte, fileByte, bytePtr, dataBlock_congr h hp]
  exact h hp.2

/-! ### The count returned -/

/-- The bytes still to copy in one round. -/
theorem toNat_memcpyLen (h : bufOffset ≤ length) :
    (if length - bufOffset < 4096 then length - bufOffset else 4096 : BitVec 32).toNat =
      min 4096 (length.toNat - bufOffset.toNat) := by
  split_ifs <;> bv_omega

/-- One round does not wrap. -/
theorem toNat_add_memcpyLen_of_le (h : bufOffset ≤ length) :
    (bufOffset + if length - bufOffset < 4096 then length - bufOffset else 4096).toNat =
      bufOffset.toNat + min 4096 (length.toNat - bufOffset.toNat) := by
  have hle := BitVec.le_def.mp h
  have hlt := length.isLt
  rw [BitVec.toNat_add, toNat_memcpyLen h]
  omega

/-- After `t` rounds the count is `4096 * t`, or the whole length. -/
theorem toNat_add_memcpyLen (h : bufOffset.toNat = min (4096 * t) length.toNat) :
    (bufOffset + if length - bufOffset < 4096 then length - bufOffset else 4096).toNat =
      min (4096 * (t + 1)) length.toNat := by
  have hle : bufOffset ≤ length := by
    rw [BitVec.le_def]
    omega
  rw [toNat_add_memcpyLen_of_le hle]
  omega

/-- The count after `k` rounds, whatever they copy. -/
theorem toNat_readBlocks_fst (h : bufOffset.toNat = min (4096 * t) length.toNat) :
    (fs.readBlocks inode buf length k i bufOffset m).1.toNat =
      min (4096 * (t + k)) length.toNat := by
  induction k generalizing i t bufOffset m with
  | zero => exact h
  | succ k ih => rw [readBlocks, ih (toNat_add_memcpyLen h), Nat.add_right_comm, Nat.add_assoc]

/-- The loop delivers the whole length when it has rounds enough. -/
theorem readBlocks_fst (h : bufOffset.toNat = min (4096 * t) length.toNat)
    (hk : length.toNat < 4096 * (t + k)) :
    (fs.readBlocks inode buf length k i bufOffset m).1 = length := by
  apply BitVec.eq_of_toNat_eq
  rw [toNat_readBlocks_fst h]
  omega

/-- The rounds from the block of the offset to the block of the end are enough. -/
theorem length_lt_rounds (h : offset.toNat + length.toNat < 2 ^ 32) :
    length.toNat < 4096 * (0 + ((offset + length).toNat / dataBlockSize + 1 -
      offset.toNat / dataBlockSize)) := by
  rw [BitVec.toNat_add, Nat.mod_eq_of_lt h, dataBlockSize]
  omega

omit [DecidableEq β] in
theorem clipLength_le (length : BitVec 32) (h : offset ≤ fs.fileLength m inode) :
    fs.clipLength m inode offset length ≤ length := by
  rw [clipLength]
  split_ifs with hlt
  · generalize fs.fileLength m inode = l at *
    bv_omega
  · exact BitVec.le_refl _

omit [DecidableEq β] in
/-- What is left of the file, or all that is asked for. -/
theorem toNat_clipLength (h : offset ≤ fs.fileLength m inode)
    (hn : offset.toNat + length.toNat < 2 ^ 32) :
    (fs.clipLength m inode offset length).toNat =
      min length.toNat ((fs.fileLength m inode).toNat - offset.toNat) := by
  rw [clipLength]
  generalize fs.fileLength m inode = l at *
  split_ifs with hlt <;> bv_omega

variable [Inhabited β]

/-- A call whose checks pass runs the loop. -/
theorem readData_of_valid (h0 : fs.bootblockHead ≠ Ptr.null) (hi : inode ≤ fs.inodesNum m)
    (ho : offset ≤ fs.fileLength m inode) :
    fs.readData inode offset buf length m =
      fs.readBlocks inode buf (fs.clipLength m inode offset length)
        ((offset + fs.clipLength m inode offset length).toNat / dataBlockSize + 1 -
          offset.toNat / dataBlockSize) (offset.toNat / dataBlockSize) 0 m := by
  rw [readData, if_neg h0, if_neg]
  rintro (h | h)
  · exact absurd hi (BitVec.not_le.mpr h)
  · exact absurd ho (BitVec.not_le.mpr h)

/-- A call whose checks fail returns `-1` and does nothing. -/
theorem readData_of_invalid (h : fs.inodesNum m < inode ∨ fs.fileLength m inode < offset) :
    fs.readData inode offset buf length m = (failure, m) := by
  rw [readData]
  split_ifs
  · rfl
  · rfl

/-- The count that `read_data` returns. -/
theorem readData_fst (h0 : fs.bootblockHead ≠ Ptr.null) (hi : inode ≤ fs.inodesNum m)
    (ho : offset ≤ fs.fileLength m inode) (hn : offset.toNat + length.toNat < 2 ^ 32) :
    (fs.readData inode offset buf length m).1 = fs.clipLength m inode offset length := by
  have hle := BitVec.le_def.mp (clipLength_le length ho)
  rw [readData_of_valid h0 hi ho]
  exact readBlocks_fst (t := 0) (by simp) (length_lt_rounds (by omega))

/-! ### The bytes written -/

omit [Inhabited β] in
theorem readBlocks_eqOn (h : bufOffset ≤ length) :
    Set.EqOn (fs.readBlocks inode buf length k i bufOffset m).2 m (buf.span length.toNat)ᶜ := by
  induction k generalizing i bufOffset m with
  | zero => exact Set.eqOn_refl ..
  | succ k ih =>
    have hlen := toNat_memcpyLen h
    have hle := BitVec.le_def.mp h
    have hsum := toNat_add_memcpyLen_of_le h
    rw [readBlocks]
    set memcpyLen : BitVec 32 := if length - bufOffset < 4096 then length - bufOffset else 4096
    have hsub : (buf.span length.toNat)ᶜ ⊆
        ((buf.shift bufOffset.toNat).span memcpyLen.toNat)ᶜ :=
      Set.compl_subset_compl.mpr (Ptr.span_shift_subset (by omega))
    have hle' : bufOffset + memcpyLen ≤ length := by
      rw [BitVec.le_def]
      omega
    exact (ih hle').trans ((memcpy_eqOn ..).mono hsub)

/-- **`read_data` writes nothing outside the caller's buffer**, for every image and every
argument. -/
theorem readData_eqOn (inode offset : BitVec 32) (buf : Ptr β) (length : BitVec 32) (m : Mem β) :
    Set.EqOn (fs.readData inode offset buf length m).2 m (buf.span length.toNat)ᶜ := by
  rw [readData]
  split_ifs with h0 hinv
  · exact Set.eqOn_refl ..
  · exact Set.eqOn_refl ..
  · rw [not_or, BitVec.not_lt, BitVec.not_lt] at hinv
    have hle := BitVec.le_def.mp (clipLength_le length hinv.2)
    refine (readBlocks_eqOn (BitVec.le_def.mpr (Nat.zero_le _))).mono
      (Set.compl_subset_compl.mpr ?_)
    exact Ptr.span_mono hle

/-! ### The bytes delivered -/

/-- The invariant of the loop: the bytes delivered are the file's, from the start of the first
block on, and nothing outside the buffer has changed. -/
structure Delivered (fs : FileSystem β) (m₀ m : Mem β) (inode : BitVec 32) (buf : Ptr β)
    (length : BitVec 32) (start n : ℕ) : Prop where
  /-- The bytes delivered so far. -/
  delivered : ∀ p < n, m (buf.shift p) = fs.fileByte m₀ inode (start + p)
  /-- Nothing else changes. -/
  eqOn : Set.EqOn m m₀ (buf.span length.toNat)ᶜ

omit [Inhabited β] in
/-- One round of the loop delivers one block, or what is left. -/
theorem Delivered.step {I : Set (Ptr β)} {s : ℕ} (hd : Disjoint (buf.span length.toNat) I)
    (hI : ∀ p < length.toNat, fs.ByteIn m₀ inode I (4096 * s + p))
    (hn : bufOffset.toNat = min (4096 * t) length.toNat)
    (h : fs.Delivered m₀ m inode buf length (4096 * s) bufOffset.toNat) {n : ℕ}
    (hlen : n = min 4096 (length.toNat - bufOffset.toNat)) :
    fs.Delivered m₀ (memcpy m (buf.shift bufOffset.toNat)
      (fs.datablock (fs.dataBlock m inode (s + t))) n) inode buf length (4096 * s)
      (bufOffset.toNat + n) := by
  have hmI : Set.EqOn m m₀ I := h.eqOn.mono (Set.subset_compl_iff_disjoint_left.mpr hd)
  by_cases h0 : n = 0
  · subst h0
    exact h
  · -- A round that copies starts at a block boundary of the buffer.
    have hbo : bufOffset.toNat = 4096 * t := by omega
    have hpos (j : ℕ) (hj : j < n) : (4096 * s + (4096 * t + j)) / dataBlockSize = s + t ∧
        (4096 * s + (4096 * t + j)) % dataBlockSize = j := by
      rw [dataBlockSize]
      omega
    have hin (j : ℕ) (hj : j < n) : fs.ByteIn m₀ inode I (4096 * s + (4096 * t + j)) :=
      hI _ (by omega)
    have hid : fs.dataBlock m inode (s + t) = fs.dataBlock m₀ inode (s + t) := by
      have h := dataBlock_congr hmI (hin 0 (by omega))
      rwa [(hpos 0 (by omega)).1] at h
    have hptr (j : ℕ) (hj : j < n) : fs.bytePtr m₀ inode (4096 * s + (4096 * t + j)) =
        (fs.datablock (fs.dataBlock m inode (s + t))).shift j := by
      rw [bytePtr, (hpos j hj).1, (hpos j hj).2, hid]
    have hdest : (buf.shift bufOffset.toNat).span n ⊆ buf.span length.toNat :=
      Ptr.span_shift_subset (by omega)
    have hsrc : (fs.datablock (fs.dataBlock m inode (s + t))).span n ⊆ I := by
      intro q hq
      obtain ⟨j, hj, _, rfl⟩ := Ptr.exists_shift_of_mem_span hq
      exact hptr j hj ▸ (hin j hj).2
    have hlt := length.isLt
    have hc := copied_memcpy (m := m) (by omega) (hd.symm.mono hsrc hdest)
    constructor
    · intro p hp
      by_cases hpn : p < bufOffset.toNat
      · have hout : buf.shift p ∉ (buf.shift bufOffset.toNat).span n :=
          Ptr.shift_notMem_span_shift (.inl hpn) (by omega) (by omega)
        rw [hc.eqOn hout, h.delivered p hpn]
      · obtain ⟨j, rfl⟩ := Nat.exists_eq_add_of_le (Nat.not_lt.mp hpn)
        have hj : j < n := by omega
        rw [← Ptr.shift_shift, hc.copied j hj, hbo, fileByte, hptr j hj]
        exact hmI (hsrc (Ptr.shift_mem_span hj))
    · exact (hc.eqOn.mono (Set.compl_subset_compl.mpr hdest)).trans h.eqOn

omit [Inhabited β] in
theorem readBlocks_spec {I : Set (Ptr β)} {s : ℕ} (hd : Disjoint (buf.span length.toNat) I)
    (hI : ∀ p < length.toNat, fs.ByteIn m₀ inode I (4096 * s + p))
    (hn : bufOffset.toNat = min (4096 * t) length.toNat)
    (hk : length.toNat < 4096 * (t + k))
    (h : fs.Delivered m₀ m inode buf length (4096 * s) bufOffset.toNat) :
    fs.Delivered m₀ (fs.readBlocks inode buf length k (s + t) bufOffset m).2 inode buf length
      (4096 * s) length.toNat := by
  induction k generalizing t bufOffset m with
  | zero =>
    have hfull : bufOffset.toNat = length.toNat := by omega
    exact hfull ▸ h
  | succ k ih =>
    have hle : bufOffset ≤ length := by
      rw [BitVec.le_def]
      omega
    have hlen := toNat_memcpyLen hle
    have hsum := toNat_add_memcpyLen_of_le hle
    rw [← hlen] at hsum
    rw [readBlocks]
    set memcpyLen : BitVec 32 := if length - bufOffset < 4096 then length - bufOffset else 4096
    have hstep := h.step hd hI hn hlen
    rw [← hsum] at hstep
    exact ih (t := t + 1) (by omega) (by omega) hstep

/-- **The bytes delivered.** Where the buffer does not meet the bytes of the image that the copy
reads, `read_data` delivers the file from the start of the block that holds the offset. -/
theorem readData_spec {I : Set (Ptr β)} (h0 : fs.bootblockHead ≠ Ptr.null)
    (hi : inode ≤ fs.inodesNum m) (ho : offset ≤ fs.fileLength m inode)
    (hn : offset.toNat + length.toNat < 2 ^ 32)
    (hd : Disjoint (buf.span (fs.clipLength m inode offset length).toNat) I)
    (hI : ∀ p < (fs.clipLength m inode offset length).toNat,
      fs.ByteIn m inode I (4096 * (offset.toNat / dataBlockSize) + p)) :
    fs.Delivered m (fs.readData inode offset buf length m).2 inode buf
      (fs.clipLength m inode offset length) (4096 * (offset.toNat / dataBlockSize))
      (fs.clipLength m inode offset length).toNat := by
  have hle := BitVec.le_def.mp (clipLength_le length ho)
  rw [readData_of_valid h0 hi ho]
  refine readBlocks_spec (t := 0) hd hI (by simp) (length_lt_rounds (by omega)) ?_
  exact ⟨fun p hp => absurd hp (by simp), Set.eqOn_refl ..⟩

end FileSystem

end Mp3Kernel
