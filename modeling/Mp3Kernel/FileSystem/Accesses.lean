import Mathlib.Order.Interval.Set.LinearOrder
import Mp3Kernel.FileSystem.Bytes

/-!
# The file system: what a read touches

`read_data` reads the length of the file and one entry of `data_blocks` for every round of its loop,
and it stores into the buffer with `memcpy` only. This file lists these accesses in order, and says
from the list which parts of the tables and of the buffer a call touches.

Two bounds are off by one. The inode is compared with `inodes_num` by `>`, so that the index node
behind the last is read; and the loop runs up to the block in which the read ends, which is none of
the file where the file ends at a block boundary. The sum of the offset and the length wraps, and
then the length is not cut.

## Main definitions

* `ImageAccess`, `ImageAccess.replay`: an access, and what it does to memory.
* `FileSystem.readDataAccesses`: the accesses of a call.
* `FileSystem.Transfers`, `FileSystem.InTables`: a call stores what it should; it reads what it may.

## Main results

* `FileSystem.readData_eq_replay`: the accesses are those of `read_data`.
* `FileSystem.written_readDataAccesses`: a call stores as many bytes as it returns.
* `transfers_iff`, `inTables_iff`: for which calls this is as it should be.

Source: `filesystem.h`, lines 8–50; `filesystem.c`, lines 79–117.
-/

namespace Mp3Kernel

open ByteMemory

variable {β : Type}

/-! ### Accesses -/

/-- An access of `read_data` to an index node, or to a data block and the buffer. -/
inductive ImageAccess
  /-- `indexnode_head[inode].file_length`. -/
  | fileLength (inode : BitVec 32)
  /-- `indexnode_head[inode].data_blocks[i]`. -/
  | dataBlock (inode : BitVec 32) (i : ℕ)
  /-- `memcpy(buf + bufOffset, datablock_ptr + dataId, memcpyLen)`. -/
  | copy (bufOffset dataId memcpyLen : BitVec 32)

namespace ImageAccess

/-- The index node that is read. -/
def indexNode? : ImageAccess → Option (BitVec 32)
  | fileLength inode => some inode
  | dataBlock inode _ => some inode
  | copy .. => none

/-- The entry of `data_blocks` that is read. -/
def blockIndex? : ImageAccess → Option ℕ
  | dataBlock _ i => some i
  | _ => none

@[simp] theorem blockIndex?_dataBlock (inode : BitVec 32) (i : ℕ) :
    (dataBlock inode i).blockIndex? = some i := rfl

@[simp] theorem blockIndex?_copy (bufOffset dataId memcpyLen : BitVec 32) :
    (copy bufOffset dataId memcpyLen).blockIndex? = none := rfl

@[simp] theorem blockIndex?_fileLength (inode : BitVec 32) :
    (fileLength inode).blockIndex? = none := rfl

/-- The positions of the buffer that are stored. -/
def written : ImageAccess → Set ℕ
  | copy bufOffset _ memcpyLen => Set.Ico bufOffset.toNat (bufOffset.toNat + memcpyLen.toNat)
  | _ => ∅

/-- What an access does to memory. -/
def replay [DecidableEq β] (fs : FileSystem β) (buf : Ptr β) (m : Mem β) : ImageAccess → Mem β
  | copy bufOffset dataId memcpyLen =>
    memcpy m (buf.shift bufOffset.toNat) (fs.datablock dataId) memcpyLen.toNat
  | _ => m

/-- The positions of the buffer that a list of accesses stores. -/
def allWritten (l : List ImageAccess) : Set ℕ := {p | ∃ a ∈ l, p ∈ a.written}

@[simp] theorem allWritten_nil : allWritten [] = ∅ :=
  Set.eq_empty_of_forall_notMem fun _ ⟨_, ha, _⟩ => List.not_mem_nil ha

@[simp] theorem allWritten_cons (a : ImageAccess) (l : List ImageAccess) :
    allWritten (a :: l) = a.written ∪ allWritten l := by
  ext p
  simp [allWritten]

@[simp] theorem allWritten_append (l l' : List ImageAccess) :
    allWritten (l ++ l') = allWritten l ∪ allWritten l' := by
  ext p
  simp [allWritten, or_and_right, exists_or]

/-- One access leaves everything but its positions alone. -/
theorem replay_eqOn [DecidableEq β] (fs : FileSystem β) (buf : Ptr β) (m : Mem β)
    (a : ImageAccess) : Set.EqOn (a.replay fs buf m) m (buf.shift '' a.written)ᶜ := by
  cases a with
  | fileLength => exact Set.eqOn_refl ..
  | dataBlock => exact Set.eqOn_refl ..
  | copy bufOffset dataId memcpyLen =>
    refine (memcpy_eqOn ..).mono (Set.compl_subset_compl.mpr fun q hq => ?_)
    obtain ⟨j, hj, -, rfl⟩ := Ptr.exists_shift_of_mem_span hq
    exact ⟨bufOffset.toNat + j, ⟨by omega, by omega⟩, by rw [Ptr.shift_shift]⟩

/-- Accesses leave everything but their positions alone. -/
theorem foldl_replay_eqOn [DecidableEq β] (fs : FileSystem β) (buf : Ptr β) (m : Mem β)
    (l : List ImageAccess) :
    Set.EqOn (l.foldl (replay fs buf) m) m (buf.shift '' allWritten l)ᶜ := by
  induction l generalizing m with
  | nil => exact Set.eqOn_refl ..
  | cons a l ih =>
    rw [List.foldl_cons, allWritten_cons, Set.image_union, Set.compl_union]
    exact ((ih _).mono Set.inter_subset_right).trans
      ((replay_eqOn fs buf m a).mono Set.inter_subset_left)

end ImageAccess

namespace FileSystem

/-! ### The accesses of a call -/

section Definitions

variable (fs : FileSystem β) [DecidableEq β]

/-- The accesses of the loop of `read_data`, as `readBlocks` has it. -/
def readBlocksAccesses (inode : BitVec 32) (buf : Ptr β) (length : BitVec 32) :
    ℕ → ℕ → BitVec 32 → Mem β → List ImageAccess
  | 0, _, _, _ => []
  | k + 1, i, bufOffset, m =>
    let dataId := fs.dataBlock m inode i
    let memcpyLen := if length - bufOffset < 4096 then length - bufOffset else 4096
    .dataBlock inode i :: .copy bufOffset dataId memcpyLen ::
      readBlocksAccesses inode buf length k (i + 1) (bufOffset + memcpyLen)
        (memcpy m (buf.shift bufOffset.toNat) (fs.datablock dataId) memcpyLen.toNat)

/-- The accesses of `read_data`. The second comparison reads the length once more, and so does the
cut at the end of the file. -/
def readDataAccesses [Inhabited β] (inode offset : BitVec 32) (buf : Ptr β) (length : BitVec 32)
    (m : Mem β) : List ImageAccess :=
  if fs.bootblockHead = Ptr.null then []
  else if fs.inodesNum m < inode then []
  else if fs.fileLength m inode < offset then [.fileLength inode]
  else
    let cut := if fs.fileLength m inode < length + offset then [.fileLength inode] else []
    let length := fs.clipLength m inode offset length
    let starting := offset.toNat / dataBlockSize
    let ending := (offset + length).toNat / dataBlockSize
    [.fileLength inode, .fileLength inode] ++ cut ++
      fs.readBlocksAccesses inode buf length (ending + 1 - starting) starting 0 m

end Definitions

variable {fs : FileSystem β} {inode offset length bufOffset : BitVec 32} {buf : Ptr β} {m : Mem β}
  {k i t : ℕ}

section Loop

variable [DecidableEq β]

theorem readBlocks_eq_replay : (fs.readBlocks inode buf length k i bufOffset m).2 =
    (fs.readBlocksAccesses inode buf length k i bufOffset m).foldl
      (ImageAccess.replay fs buf) m := by
  induction k generalizing i bufOffset m with
  | zero => rfl
  | succ k ih =>
    rw [readBlocks, readBlocksAccesses, ih]
    rfl

/-- The loop reads one entry of `data_blocks` in every round. -/
theorem blockIndex_readBlocksAccesses {j : ℕ} :
    (∃ a ∈ fs.readBlocksAccesses inode buf length k i bufOffset m, a.blockIndex? = some j) ↔
      i ≤ j ∧ j < i + k := by
  induction k generalizing i bufOffset m with
  | zero =>
    simp only [readBlocksAccesses, List.not_mem_nil, false_and, exists_false, false_iff]
    omega
  | succ k ih =>
    rw [readBlocksAccesses]
    simp only [List.mem_cons, exists_eq_or_imp, ImageAccess.blockIndex?_dataBlock,
      ImageAccess.blockIndex?_copy, ih, Option.some.injEq, reduceCtorEq, false_or]
    omega

/-- The loop reads the index node of the file only. -/
theorem indexNode_readBlocksAccesses {a : ImageAccess} {n : BitVec 32}
    (ha : a ∈ fs.readBlocksAccesses inode buf length k i bufOffset m)
    (hn : a.indexNode? = some n) : n = inode := by
  induction k generalizing i bufOffset m with
  | zero => exact absurd ha List.not_mem_nil
  | succ k ih =>
    rw [readBlocksAccesses, List.mem_cons, List.mem_cons] at ha
    rcases ha with rfl | rfl | ha
    · exact (Option.some.inj hn).symm
    · cases hn
    · exact ih ha

/-- The loop stores the bytes that it counts, the first `4096 * (t + k)` at most. -/
theorem written_readBlocksAccesses (h : bufOffset.toNat = min (4096 * t) length.toNat) :
    ImageAccess.allWritten (fs.readBlocksAccesses inode buf length k i bufOffset m) =
      Set.Ico bufOffset.toNat (min (4096 * (t + k)) length.toNat) := by
  induction k generalizing i t bufOffset m with
  | zero =>
    rw [readBlocksAccesses, ImageAccess.allWritten_nil, Nat.add_zero, ← h, Set.Ico_self]
  | succ k ih =>
    have hnext := toNat_add_memcpyLen h
    have hle : bufOffset ≤ length := by
      rw [BitVec.le_def]
      omega
    have hlen := toNat_memcpyLen hle
    rw [readBlocksAccesses]
    rw [ImageAccess.allWritten_cons, ImageAccess.allWritten_cons, ih hnext, hnext]
    set memcpyLen : BitVec 32 := if length - bufOffset < 4096 then length - bufOffset else 4096
    have hround : bufOffset.toNat + memcpyLen.toNat = min (4096 * (t + 1)) length.toNat := by omega
    have hsub : min (4096 * (t + 1)) length.toNat ≤ min (4096 * (t + 1 + k)) length.toNat := by
      omega
    show ∅ ∪ (Set.Ico bufOffset.toNat (bufOffset.toNat + memcpyLen.toNat) ∪ _) = _
    rw [Set.empty_union, hround, Set.Ico_union_Ico_eq_Ico (by omega) hsub, Nat.add_right_comm,
      Nat.add_assoc]

end Loop

section Inhabited

variable [DecidableEq β] [Inhabited β]

/-- The accesses of a call whose checks pass. -/
theorem readDataAccesses_of_valid (buf : Ptr β) (length : BitVec 32)
    (h0 : fs.bootblockHead ≠ Ptr.null) (hi : inode ≤ fs.inodesNum m)
    (ho : offset ≤ fs.fileLength m inode) : ∃ cut, (∀ a ∈ cut, a = ImageAccess.fileLength inode) ∧
      fs.readDataAccesses inode offset buf length m = cut ++
        fs.readBlocksAccesses inode buf (fs.clipLength m inode offset length)
          ((offset + fs.clipLength m inode offset length).toNat / dataBlockSize + 1 -
            offset.toNat / dataBlockSize) (offset.toNat / dataBlockSize) 0 m := by
  refine ⟨[.fileLength inode, .fileLength inode] ++
    if fs.fileLength m inode < length + offset then [.fileLength inode] else [], ?_, ?_⟩
  · intro a ha
    split_ifs at ha <;> simpa using ha
  · rw [readDataAccesses, if_neg h0, if_neg (BitVec.not_lt.mpr hi), if_neg (BitVec.not_lt.mpr ho)]

/-- A call for an inode that the check rejects touches nothing. -/
theorem readDataAccesses_of_lt (offset : BitVec 32) (buf : Ptr β) (length : BitVec 32)
    (h : fs.inodesNum m < inode) : fs.readDataAccesses inode offset buf length m = [] := by
  rw [readDataAccesses]
  split_ifs
  · rfl
  · rfl

/-- A call for an offset behind the end of the file reads the length of the file. -/
theorem readDataAccesses_of_offset_gt (h0 : fs.bootblockHead ≠ Ptr.null)
    (hi : inode ≤ fs.inodesNum m) (ho : fs.fileLength m inode < offset) :
    fs.readDataAccesses inode offset buf length m = [.fileLength inode] := by
  rw [readDataAccesses, if_neg h0, if_neg (BitVec.not_lt.mpr hi), if_pos ho]

/-- **The accesses are those of `read_data`**: what they do to memory is what the call does. -/
theorem readData_eq_replay : (fs.readData inode offset buf length m).2 =
    (fs.readDataAccesses inode offset buf length m).foldl (ImageAccess.replay fs buf) m := by
  have hcut (cut : List ImageAccess) (hcut : ∀ a ∈ cut, a = .fileLength inode) :
      cut.foldl (ImageAccess.replay fs buf) m = m := by
    induction cut with
    | nil => rfl
    | cons a cut ih =>
      obtain rfl := hcut a List.mem_cons_self
      exact ih fun a ha => hcut a (List.mem_cons_of_mem _ ha)
  by_cases h0 : fs.bootblockHead = Ptr.null
  · rw [readData, if_pos h0, readDataAccesses, if_pos h0]
    rfl
  by_cases hi : inode ≤ fs.inodesNum m
  · by_cases ho : offset ≤ fs.fileLength m inode
    · obtain ⟨cut, hlength, haccesses⟩ :=
        readDataAccesses_of_valid buf length h0 hi ho
      rw [readData_of_valid h0 hi ho, haccesses, List.foldl_append, hcut cut hlength,
        readBlocks_eq_replay]
    · rw [readData_of_invalid (.inr (BitVec.not_le.mp ho)),
        readDataAccesses_of_offset_gt h0 hi (BitVec.not_le.mp ho)]
      rfl
  · rw [readData_of_invalid (.inl (BitVec.not_le.mp hi)),
      readDataAccesses_of_lt offset buf length (BitVec.not_le.mp hi)]
    rfl

/-- What a call leaves alone is everything but the positions that it stores. -/
theorem readData_eqOn_written : Set.EqOn (fs.readData inode offset buf length m).2 m
    (buf.shift '' ImageAccess.allWritten (fs.readDataAccesses inode offset buf length m))ᶜ := by
  rw [readData_eq_replay]
  exact ImageAccess.foldl_replay_eqOn fs buf m _

/-- **A call stores as many bytes as it returns**, from the start of the buffer on. -/
theorem written_readDataAccesses (h0 : fs.bootblockHead ≠ Ptr.null) (hi : inode ≤ fs.inodesNum m)
    (ho : offset ≤ fs.fileLength m inode) :
    ImageAccess.allWritten (fs.readDataAccesses inode offset buf length m) =
      Set.Iio (fs.readData inode offset buf length m).1.toNat := by
  obtain ⟨cut, hlength, haccesses⟩ :=
    readDataAccesses_of_valid buf length h0 hi ho
  have hcut : ImageAccess.allWritten cut = ∅ := by
    refine Set.eq_empty_of_forall_notMem fun p ⟨a, ha, hp⟩ => ?_
    obtain rfl := hlength a ha
    exact hp
  have hzero : (0 : BitVec 32).toNat =
      min (4096 * 0) (fs.clipLength m inode offset length).toNat := by
    simp
  rw [haccesses, ImageAccess.allWritten_append, hcut, Set.empty_union,
    written_readBlocksAccesses hzero, readData_of_valid h0 hi ho, toNat_readBlocks_fst hzero]
  ext p
  simp

/-! ### The bytes transferred -/

/-- A call returns the number of bytes that are asked for and left in the file, stores exactly the
first as many bytes of the buffer, and leaves everything else alone. -/
def Transfers (fs : FileSystem β) (m : Mem β) (inode offset : BitVec 32) (buf : Ptr β)
    (length : BitVec 32) : Prop :=
  let n := fs.bytesLeft m inode offset length
  (fs.readData inode offset buf length m).1.toNat = n ∧
    ImageAccess.allWritten (fs.readDataAccesses inode offset buf length m) = Set.Iio n ∧
    Set.EqOn (fs.readData inode offset buf length m).2 m (buf.span n)ᶜ

/-- It is enough that the count is right. -/
theorem transfers_iff_count (h0 : fs.bootblockHead ≠ Ptr.null) (hi : inode ≤ fs.inodesNum m)
    (ho : offset ≤ fs.fileLength m inode) : fs.Transfers m inode offset buf length ↔
      (fs.readData inode offset buf length m).1.toNat = fs.bytesLeft m inode offset length := by
  refine ⟨fun h => h.1, fun h => ⟨h, ?_, ?_⟩⟩
  · rw [written_readDataAccesses h0 hi ho, h]
  · refine readData_eqOn_written.mono (Set.compl_subset_compl.mpr ?_)
    rw [written_readDataAccesses h0 hi ho, h]
    rintro _ ⟨p, hp, rfl⟩
    exact Ptr.shift_mem_span hp

/-- The count, where the sum of the offset and the length wraps: it lies in a block before that of
the offset, and there is no round, or in the same block, and there is one. -/
theorem toNat_readData_fst_of_wraps (h0 : fs.bootblockHead ≠ Ptr.null) (hi : inode ≤ fs.inodesNum m)
    (ho : offset ≤ fs.fileLength m inode) (hlen : (fs.fileLength m inode).toNat ≤ maxFileSize)
    (hw : 2 ^ 32 ≤ offset.toNat + length.toNat) :
    (fs.readData inode offset buf length m).1.toNat =
      if (offset + length).toNat / dataBlockSize = offset.toNat / dataBlockSize then dataBlockSize
      else 0 := by
  have hsum : (offset + length).toNat = offset.toNat + length.toNat - 2 ^ 32 := by
    rw [BitVec.toNat_add]
    have := offset.isLt
    have := length.isLt
    omega
  have ho' := BitVec.le_def.mp ho
  have hlt := length.isLt
  have hclip : fs.clipLength m inode offset length = length := by
    refine if_neg (BitVec.not_lt.mpr (BitVec.le_def.mpr ?_))
    rw [BitVec.add_comm, hsum]
    omega
  rw [readData_of_valid h0 hi ho, hclip, toNat_readBlocks_fst (t := 0) (by simp)]
  rw [maxFileSize] at hlen
  rw [dataBlockSize]
  split_ifs with hblock
  · rw [hblock]
    omega
  · have hle : (offset + length).toNat / 4096 ≤ offset.toNat / 4096 :=
      Nat.div_le_div_right (by omega)
    omega

/-! ### The tables -/

/-- `INDEX_NODE_DB`. -/
def indexNodeDb : ℕ := (dataBlockSize - 4) / 4

/-- A call reads index nodes of the image only, and entries of `data_blocks` that the file has; an
inode that the image does not have is answered by `-1` with the buffer untouched. -/
structure InTables (fs : FileSystem β) (m : Mem β) (inode offset : BitVec 32) (buf : Ptr β)
    (length : BitVec 32) : Prop where
  /-- The index nodes. -/
  indexNode : ∀ a ∈ fs.readDataAccesses inode offset buf length m, ∀ n, a.indexNode? = some n →
    n < fs.inodesNum m
  /-- The entries of `data_blocks`. -/
  blockIndex : ∀ a ∈ fs.readDataAccesses inode offset buf length m, ∀ i, a.blockIndex? = some i →
    i < indexNodeDb ∧ dataBlockSize * i < (fs.fileLength m inode).toNat
  /-- The inodes that the image does not have. -/
  absent : fs.inodesNum m ≤ inode →
    (fs.readData inode offset buf length m).1 = failure ∧
      ImageAccess.allWritten (fs.readDataAccesses inode offset buf length m) = ∅

/-- A call for the inode `inodes_num` passes the check and reads behind the index nodes. -/
theorem not_inTables_inodesNum (h0 : fs.bootblockHead ≠ Ptr.null) :
    ¬ fs.InTables m (fs.inodesNum m) offset buf length := by
  intro h
  have hmem : ImageAccess.fileLength (fs.inodesNum m) ∈
      fs.readDataAccesses (fs.inodesNum m) offset buf length m := by
    by_cases ho : offset ≤ fs.fileLength m (fs.inodesNum m)
    · rw [readDataAccesses, if_neg h0, if_neg (BitVec.not_lt.mpr (BitVec.le_refl _)),
        if_neg (BitVec.not_lt.mpr ho)]
      exact List.mem_append_left _ (List.mem_append_left _ List.mem_cons_self)
    · rw [readDataAccesses_of_offset_gt h0 (BitVec.le_refl _) (BitVec.not_le.mp ho)]
      exact List.mem_cons_self
  have hlt := h.indexNode _ hmem _ rfl
  rw [BitVec.lt_def] at hlt
  omega

/-- A call for an inode that the check rejects is in order. -/
theorem inTables_of_lt (h : fs.inodesNum m < inode) : fs.InTables m inode offset buf length := by
  have hnone := readDataAccesses_of_lt offset buf length h
  constructor
  · rw [hnone]
    exact fun a ha => absurd ha List.not_mem_nil
  · rw [hnone]
    exact fun a ha => absurd ha List.not_mem_nil
  · rw [hnone, readData_of_invalid (.inl h)]
    exact fun _ => ⟨rfl, ImageAccess.allWritten_nil⟩

/-- The entries of `data_blocks` that a call reads: those from the block of the offset to the block
in which the read ends. -/
theorem blockIndex_readDataAccesses (buf : Ptr β) (h0 : fs.bootblockHead ≠ Ptr.null)
    (hi : inode ≤ fs.inodesNum m) (ho : offset ≤ fs.fileLength m inode)
    (hn : offset.toNat + length.toNat < 2 ^ 32) (j : ℕ) :
    (∃ a ∈ fs.readDataAccesses inode offset buf length m, a.blockIndex? = some j) ↔
      offset.toNat / dataBlockSize ≤ j ∧
        dataBlockSize * j ≤ min (offset.toNat + length.toNat) (fs.fileLength m inode).toNat := by
  obtain ⟨cut, hlength, haccesses⟩ :=
    readDataAccesses_of_valid buf length h0 hi ho
  have hcut : ¬ ∃ a ∈ cut, a.blockIndex? = some j := by
    rintro ⟨a, ha, hj⟩
    obtain rfl := hlength a ha
    cases hj
  have hclip := toNat_clipLength ho hn
  have ho' := BitVec.le_def.mp ho
  have hsum : (offset + fs.clipLength m inode offset length).toNat =
      min (offset.toNat + length.toNat) (fs.fileLength m inode).toNat := by
    rw [BitVec.toNat_add, hclip]
    omega
  simp only [haccesses, List.mem_append, or_and_right, exists_or, hcut, false_or,
    blockIndex_readBlocksAccesses, hsum]
  rw [dataBlockSize]
  omega

/-- The index nodes that a call reads. -/
theorem indexNode_readDataAccesses (h0 : fs.bootblockHead ≠ Ptr.null) (hi : inode ≤ fs.inodesNum m)
    {a : ImageAccess} {n : BitVec 32} (ha : a ∈ fs.readDataAccesses inode offset buf length m)
    (hn : a.indexNode? = some n) : n = inode := by
  by_cases ho : offset ≤ fs.fileLength m inode
  · obtain ⟨cut, hlength, haccesses⟩ :=
      readDataAccesses_of_valid buf length h0 hi ho
    rw [haccesses, List.mem_append] at ha
    rcases ha with ha | ha
    · obtain rfl := hlength a ha
      exact (Option.some.inj hn).symm
    · exact indexNode_readBlocksAccesses ha hn
  · rw [readDataAccesses_of_offset_gt h0 hi (BitVec.not_le.mp ho)] at ha
    obtain rfl := List.mem_singleton.mp ha
    exact (Option.some.inj hn).symm

end Inhabited

end FileSystem

/-! ### The calls that are in order -/

section Calls

variable [DecidableEq β] [Inhabited β] {fs : FileSystem β} {m : Mem β}
  {inode offset length : BitVec 32} {buf : Ptr β}

/-- **A read transfers what is asked for and left** exactly when the sum of the offset and the
length does not wrap, or where what is left happens to be the whole block that is copied when the
wrapped sum lies in the block of the offset, and nothing when it lies in front of it. The image is
valid, and the offset lies in the file. -/
theorem transfers_iff (hv : fs.DataValid m) (hin : inode < fs.inodesNum m)
    (ho : offset ≤ fs.fileLength m inode) : fs.Transfers m inode offset buf length ↔
      offset.toNat + length.toNat < 2 ^ 32 ∨
        (fs.fileLength m inode).toNat - offset.toNat =
          if (offset + length).toNat / dataBlockSize = offset.toNat / dataBlockSize
          then dataBlockSize else 0 := by
  have hi : inode ≤ fs.inodesNum m := BitVec.le_of_lt hin
  rw [FileSystem.transfers_iff_count hv.head hi ho, FileSystem.bytesLeft]
  by_cases hn : offset.toNat + length.toNat < 2 ^ 32
  · refine iff_of_true ?_ (.inl hn)
    rw [FileSystem.readData_fst hv.head hi ho hn, FileSystem.toNat_clipLength ho hn]
  · have hlen := hv.length_le inode hin
    have hmin : min length.toNat ((fs.fileLength m inode).toNat - offset.toNat) =
        (fs.fileLength m inode).toNat - offset.toNat := by
      rw [maxFileSize] at hlen
      have ho' := BitVec.le_def.mp ho
      omega
    rw [FileSystem.toNat_readData_fst_of_wraps hv.head hi ho hlen (Nat.not_lt.mp hn), hmin,
      or_iff_right hn]
    exact eq_comm

end Calls

/-- The file of two letters is read as a whole. -/
theorem transfers_letters : lettersFs.Transfers lettersImage 0 0 lettersBuf 2 :=
  (transfers_iff dataValid_lettersImage (by decide) (by decide)).mpr (.inl (by decide))

/-- All that follows the first letter is asked for, with the largest length: the sum wraps to zero,
and a whole block is copied. -/
theorem read_wraps : ¬ ∀ (fs : FileSystem Unit) (m : Mem Unit), fs.DataValid m →
    ∀ (inode offset length : BitVec 32) (buf : Ptr Unit), inode < fs.inodesNum m →
      offset ≤ fs.fileLength m inode → fs.Transfers m inode offset buf length := by
  intro hall
  have hv := dataValid_lettersImage
  have hi : (0 : BitVec 32) ≤ lettersFs.inodesNum lettersImage := by decide
  have ho : 1 ≤ lettersFs.fileLength lettersImage 0 := by decide
  have htransfers := hall lettersFs lettersImage hv 0 1 0xFFFFFFFF lettersBuf (by decide) ho
  rw [FileSystem.transfers_iff_count hv.head hi ho,
    FileSystem.toNat_readData_fst_of_wraps hv.head hi ho (hv.length_le 0 (by decide)) (by decide),
    FileSystem.bytesLeft, fileLength_lettersImage] at htransfers
  revert htransfers
  decide

section Calls

variable [DecidableEq β] [Inhabited β] {fs : FileSystem β} {m : Mem β}
  {inode offset length : BitVec 32} {buf : Ptr β}

/-- **A read stays inside the tables** exactly when its inode is above `inodes_num`, or below it and
the offset lies behind the end of the file, the read ends in front of it, or the file does not end
at a block boundary. The image is valid, and the sum of offset and length does not wrap. -/
theorem inTables_iff (hv : fs.DataValid m) (hn : offset.toNat + length.toNat < 2 ^ 32) :
    fs.InTables m inode offset buf length ↔
      fs.inodesNum m < inode ∨ inode < fs.inodesNum m ∧
        (fs.fileLength m inode < offset ∨
          offset.toNat + length.toNat < (fs.fileLength m inode).toNat ∨
          ¬ dataBlockSize ∣ (fs.fileLength m inode).toNat) := by
  by_cases habove : fs.inodesNum m < inode
  · exact iff_of_true (FileSystem.inTables_of_lt habove) (.inl habove)
  rw [or_iff_right habove]
  have hi : inode ≤ fs.inodesNum m := BitVec.not_lt.mp habove
  by_cases hin : inode < fs.inodesNum m
  · rw [and_iff_right hin]
    have habsent : ¬ fs.inodesNum m ≤ inode := BitVec.not_le.mpr hin
    have hnode : ∀ a ∈ fs.readDataAccesses inode offset buf length m, ∀ n, a.indexNode? = some n →
        n < fs.inodesNum m := fun a ha n hn =>
      (FileSystem.indexNode_readDataAccesses hv.head hi ha hn).symm ▸ hin
    by_cases ho : offset ≤ fs.fileLength m inode
    · have hindex := FileSystem.blockIndex_readDataAccesses buf hv.head hi ho hn
      have hlen := hv.length_le inode hin
      rw [or_iff_right (BitVec.not_lt.mpr ho)]
      rw [BitVec.le_def] at ho
      have hdb : FileSystem.indexNodeDb = 1023 := rfl
      rw [maxFileSize] at hlen
      rw [dataBlockSize] at hindex ⊢
      constructor
      · -- The last entry read is that of the block in which the read ends.
        intro h
        by_contra hend
        obtain ⟨hlong, j, hj⟩ := not_or.mp hend |>.imp_right not_not.mp
        obtain ⟨a, ha, haj⟩ := (hindex j).mpr ⟨by omega, by omega⟩
        have hlast := (h.blockIndex a ha j haj).2
        rw [dataBlockSize] at hlast
        omega
      · intro hend
        refine ⟨hnode, fun a ha j haj => ?_, fun h => absurd h habsent⟩
        obtain ⟨-, hj⟩ := (hindex j).mp ⟨a, ha, haj⟩
        rw [hdb, dataBlockSize]
        rcases hend with hend | hend
        · omega
        · have hne : 4096 * j ≠ (fs.fileLength m inode).toNat := fun he => hend ⟨j, he.symm⟩
          omega
    · have hgt := BitVec.not_le.mp ho
      refine iff_of_true ⟨hnode, fun a ha j haj => ?_, fun h => absurd h habsent⟩ (.inl hgt)
      rw [FileSystem.readDataAccesses_of_offset_gt hv.head hi hgt] at ha
      obtain rfl := List.mem_singleton.mp ha
      cases haj
  · obtain rfl : inode = fs.inodesNum m := BitVec.le_antisymm hi (BitVec.not_lt.mp hin)
    exact iff_of_false (FileSystem.not_inTables_inodesNum hv.head) fun h => hin h.1

end Calls

theorem inTables_letters : lettersFs.InTables lettersImage 0 0 lettersBuf 2 :=
  (inTables_iff dataValid_lettersImage (by decide)).mpr
    (.inr ⟨by decide, .inr (.inr (by rw [fileLength_lettersImage]; decide))⟩)

/-- An image with one index node is read with inode 1. -/
theorem read_behind_indexnodes : ¬ ∀ (fs : FileSystem Unit) (m : Mem Unit), fs.DataValid m →
    ∀ (inode offset length : BitVec 32) (buf : Ptr Unit), offset.toNat + length.toNat < 2 ^ 32 →
      fs.InTables m inode offset buf length := by
  intro hall
  have hv := dataValid_lettersImage
  exact FileSystem.not_inTables_inodesNum hv.head
    (hall lettersFs lettersImage hv (lettersFs.inodesNum lettersImage) 0 2 lettersBuf (by decide))

end Mp3Kernel
