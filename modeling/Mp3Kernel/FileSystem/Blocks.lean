import Mp3Kernel.FileSystem.Drivers

/-!
# The file system: an image in a block of its own

Where the image lies in one block of memory and the entry or the buffer of a call in another, the
call leaves the image alone however long its strings are, and what the file system knows depends on
the block of the image only.

## Main definitions

* `FileSystem.OnBlock`: the file system lies in one block.

## Main results

* `FileSystem.lookup_congr` and its companions: what the file system depends on.
* `copyDentry_of_blk_ne`, `FileSystem.readDentryByName_of_blk_ne`: an entry copied between blocks.

Source: `filesystem.c`, lines 22–117.
-/

namespace Mp3Kernel

open ByteMemory

variable {β : Type}

namespace FileSystem

/-! ### What the file system depends on -/

/-- The globals of the file system point into one block. -/
structure OnBlock (fs : FileSystem β) (b : β) : Prop where
  bootblockHead : fs.bootblockHead.blk = b
  indexnodeHead : fs.indexnodeHead.blk = b
  datablockPtr : fs.datablockPtr.blk = b
  curdentry : fs.curdentry.blk = b

theorem onBlock_filesystemInit (modstart : Ptr β) (m : Mem β) :
    (filesystemInit modstart m).OnBlock modstart.blk :=
  ⟨rfl, Ptr.shift_blk .., Ptr.shift_blk .., rfl⟩

variable {fs : FileSystem β} {b : β} {m m' : Mem β}

theorem OnBlock.blk_dentry (h : fs.OnBlock b) (i : ℕ) : (fs.dentry i).blk = b :=
  (Ptr.shift_blk ..).trans h.bootblockHead

theorem readWord_congr_inBlock {p : Ptr β} (hp : p.blk = b)
    (hm : Set.EqOn m' m (Ptr.inBlock b)) : readWord m' p = readWord m p :=
  readWord_congr hm (hp ▸ Ptr.span_subset_inBlock p 4)

section Congr

variable (h : fs.OnBlock b) (hm : Set.EqOn m' m (Ptr.inBlock b))

include h hm

theorem dentryNum_congr : fs.dentryNum m' = fs.dentryNum m :=
  readWord_congr_inBlock h.bootblockHead hm

theorem inodesNum_congr : fs.inodesNum m' = fs.inodesNum m :=
  readWord_congr_inBlock h.bootblockHead hm

theorem fileLength_congr (inode : BitVec 32) : fs.fileLength m' inode = fs.fileLength m inode :=
  readWord_congr_inBlock h.indexnodeHead hm

theorem dataBlock_congr_inBlock (inode : BitVec 32) (i : ℕ) :
    fs.dataBlock m' inode i = fs.dataBlock m inode i :=
  readWord_congr_inBlock h.indexnodeHead hm

theorem fileByte_congr_inBlock (inode : BitVec 32) (p : ℕ) :
    fs.fileByte m' inode p = fs.fileByte m inode p := by
  rw [fileByte, fileByte, bytePtr, bytePtr, dataBlock_congr_inBlock h hm]
  exact hm h.datablockPtr

theorem dentry_congr (i k : ℕ) : m' ((fs.dentry i).shift k) = m ((fs.dentry i).shift k) :=
  hm h.bootblockHead

theorem fileName_congr (i k : ℕ) : m' ((Dentry.fileName (fs.dentry i)).shift k) =
    m ((Dentry.fileName (fs.dentry i)).shift k) :=
  hm (h.blk_dentry i)

/-- The search depends on the name and on the image. -/
theorem lookup_congr {fname fname' : Ptr β} (hf : ∀ k, m' (fname'.shift k) = m (fname.shift k)) :
    fs.lookup m' fname' = fs.lookup m fname := by
  rw [lookup, lookup, dentryNum_congr h hm,
    scanDentry_congr (fun i => strncmp_congr hf (fileName_congr h hm i)) (fileName_congr h hm)]

/-- The search depends on the name up to its NUL. -/
theorem lookup_congr_of_hasLength {fname fname' : Ptr β} {l : ℕ} (hl : HasLength m fname l)
    (hf : ∀ k ≤ l, m' (fname'.shift k) = m (fname.shift k)) :
    fs.lookup m' fname' = fs.lookup m fname := by
  rw [lookup, lookup, dentryNum_congr h hm,
    scanDentry_congr (fun i => strncmp_congr_of_hasLength hl hf (fileName_congr h hm i))
      (fileName_congr h hm)]

end Congr

/-- Every byte that `read_data` reads lies in the block of the image. -/
theorem OnBlock.byteIn (h : fs.OnBlock b) (inode : BitVec 32) (p : ℕ) :
    fs.ByteIn m inode (Ptr.inBlock b) p :=
  ⟨fun _ hq => hq.1.trans h.indexnodeHead, h.datablockPtr⟩

/-- A buffer in another block does not meet the image. -/
theorem disjoint_span_inBlock {p : Ptr β} (hp : p.blk ≠ b) (n : ℕ) :
    Disjoint (p.span n) (Ptr.inBlock b) :=
  Set.disjoint_left.mpr fun _ hq hb => hp (hq.1.symm.trans hb)

end FileSystem

/-! ### Entries copied between blocks -/

variable {m m' : Mem β} {d src : Ptr β}

/-- A byte of the record at `d` that is the one of the record at `src` stays so when a range of the
record is copied. -/
theorem copied_agree {m₁ m₂ : Mem β} {a n k : ℕ} (hd : d.blk ≠ src.blk)
    (h : Copied m₁ m₂ (d.shift a) (src.shift a) n)
    (hk : m₁ (d.shift k) = m₁ (src.shift k)) : m₂ (d.shift k) = m₂ (src.shift k) := by
  have hsrc (i : ℕ) : m₂ (src.shift i) = m₁ (src.shift i) := h.eqOn fun hin => hd hin.1.symm
  by_cases hin : d.shift k ∈ (d.shift a).span n
  · obtain ⟨j, hj, -, he⟩ := Ptr.exists_shift_of_mem_span hin
    have hoff : BitVec.ofNat 32 k = BitVec.ofNat 32 (a + j) := by
      rw [Ptr.shift_shift, Ptr.shift, Ptr.shift, Ptr.mk.injEq] at he
      exact (BitVec.add_right_inj _).mp he.2
    rw [he, h.copied j hj, Ptr.shift_shift, hsrc, Ptr.shift, Ptr.shift, hoff]
  · rw [h.eqOn hin, hsrc, hk]

/-- A range copied to another block agrees with its source afterwards. -/
theorem copied_agree_self {m₁ m₂ : Mem β} {a n i : ℕ} (hd : d.blk ≠ src.blk)
    (h : Copied m₁ m₂ (d.shift a) (src.shift a) n) (hi : i < n) :
    m₂ (d.shift (a + i)) = m₂ (src.shift (a + i)) := by
  have hsrc : m₂ (src.shift (a + i)) = m₁ (src.shift (a + i)) := h.eqOn fun hin => hd hin.1.symm
  have hcopied := h.copied i hi
  rwa [Ptr.shift_shift, Ptr.shift_shift, ← hsrc] at hcopied

variable [DecidableEq β]

/-- **An entry copied to another block.** However long its strings are, the copy stores only into
that block, and the type and the inode are those of the entry. -/
theorem copyDentry_of_blk_ne (hd : d.blk ≠ src.blk) (h : copyDentry d src m = some m') :
    Set.EqOn m' m (Ptr.inBlock d.blk)ᶜ ∧
      readWord m' (Dentry.fileType d) = readWord m (Dentry.fileType src) ∧
        readWord m' (Dentry.inodeIndex d) = readWord m (Dentry.inodeIndex src) := by
  obtain ⟨m₁, h₁, h₂⟩ := Option.bind_eq_some_iff.mp h
  -- The four parts of the copy, each of the same range of both records.
  have hc₁ := copied_writeWord m (Dentry.fileType d) (Dentry.fileType src)
  have hc₂ := copied_writeWord (writeWord m (Dentry.fileType d) (readWord m (Dentry.fileType src)))
    (Dentry.inodeIndex d) (Dentry.inodeIndex src)
  have hd' (a : ℕ) : (d.shift a).blk ≠ (src.shift a).blk := hd
  obtain ⟨n, -, hc₃⟩ := copied_strcpy (hd' 0) h₁
  obtain ⟨r, -, hc₄⟩ := copied_strcpy (hd' 40) h₂
  have hout : Set.EqOn m' m (Ptr.inBlock d.blk)ᶜ :=
    (((hc₄.eqOn.mono (Ptr.compl_inBlock_subset (Ptr.shift_blk d 40) _)).trans
      (hc₃.eqOn.mono (Ptr.compl_inBlock_subset (Ptr.shift_blk d 0) _))).trans
        (hc₂.eqOn.mono (Ptr.compl_inBlock_subset (Ptr.shift_blk d 36) _))).trans
          (hc₁.eqOn.mono (Ptr.compl_inBlock_subset (Ptr.shift_blk d 32) _))
  have hsrc (k : ℕ) : m' (src.shift k) = m (src.shift k) := hout fun h => hd h.symm
  refine ⟨hout, readWord_of_bytes fun i hi => ?_, readWord_of_bytes fun i hi => ?_⟩
  · have hagree := copied_agree_self hd hc₁ hi
    have hagree' := copied_agree hd hc₄ (copied_agree hd hc₃ (copied_agree hd hc₂ hagree))
    rw [Dentry.fileType, Dentry.fileType, Ptr.shift_shift, Ptr.shift_shift, hagree', hsrc]
  · have hagree := copied_agree_self hd hc₂ hi
    have hagree' := copied_agree hd hc₄ (copied_agree hd hc₃ hagree)
    rw [Dentry.inodeIndex, Dentry.inodeIndex, Ptr.shift_shift, Ptr.shift_shift, hagree', hsrc]

/-- The string of an entry copied to another block. -/
theorem copyDentry_fileName_of_blk_ne {n k : ℕ} (hd : d.blk ≠ src.blk)
    (h : copyDentry d src m = some m') (hn : HasLength m (Dentry.fileName src) n) (hk : k ≤ n) :
    m' ((Dentry.fileName d).shift k) = m ((Dentry.fileName src).shift k) := by
  have hout := (copyDentry_of_blk_ne hd h).1
  obtain ⟨m₁, h₁, h₂⟩ := Option.bind_eq_some_iff.mp h
  have hd' (a : ℕ) : (d.shift a).blk ≠ (src.shift a).blk := hd
  obtain ⟨n', hn', hc⟩ := copied_strcpy (hd' 0) h₁
  obtain ⟨r, -, hc'⟩ := copied_strcpy (hd' 40) h₂
  have hnumbers : Set.EqOn (copyNumbers d src m) m (Ptr.inBlock src.blk) :=
    (FileSystem.copyNumbers_eqOn ..).mono (Ptr.inBlock_subset_compl_span hd _)
  obtain rfl := hn'.unique (hn.congr fun _ _ => hnumbers rfl)
  have hagree := copied_agree hd hc' (copied_agree_self hd hc (Nat.lt_succ_of_le hk))
  have hsrc : m' (src.shift (0 + k)) = m (src.shift (0 + k)) := hout fun he => hd he.symm
  rw [Dentry.fileName, Dentry.fileName, Ptr.shift_shift, Ptr.shift_shift, hagree, hsrc]

/-- A copy to another block ends when the two strings end. -/
theorem exists_copyDentry_of_blk_ne {n r : ℕ} (hd : d.blk ≠ src.blk)
    (hn : HasLength m (Dentry.fileName src) n) (hr : HasLength m (Dentry.reserved src) r) :
    ∃ m', copyDentry d src m = some m' := by
  have hnumbers : Set.EqOn (copyNumbers d src m) m (Ptr.inBlock src.blk) :=
    (FileSystem.copyNumbers_eqOn ..).mono (Ptr.inBlock_subset_compl_span hd _)
  have hn' : HasLength (copyNumbers d src m) (Dentry.fileName src) n :=
    hn.congr fun _ _ => hnumbers rfl
  have hd' (a : ℕ) : (src.shift a).blk ≠ (d.shift a).blk := hd.symm
  obtain ⟨m₁, h₁, hc⟩ := strcpy_eq_some hn' (Ptr.disjoint_span_of_blk_ne (hd' 0) _ _)
  have hname : Set.EqOn m₁ (copyNumbers d src m) (Ptr.inBlock src.blk) :=
    hc.eqOn.mono (Ptr.inBlock_subset_compl_span (p := d.shift 0) hd _)
  have hr' : HasLength m₁ (Dentry.reserved src) r :=
    hr.congr fun _ _ => (hname.trans hnumbers) rfl
  obtain ⟨m₂, h₂, -⟩ := strcpy_eq_some hr' (Ptr.disjoint_span_of_blk_ne (hd' 40) _ _)
  exact ⟨m₂, Option.bind_eq_some_iff.mpr ⟨m₁, h₁, h₂⟩⟩

namespace FileSystem

variable {fs : FileSystem β} {b : β} [Inhabited β] {fname mydentry : Ptr β}

omit [Inhabited β] in
/-- An entry read by its index into another block. -/
theorem readDentryByIndex_of_blk_ne {index r : BitVec 32} (h : fs.OnBlock b) (hd : mydentry.blk ≠ b)
    (hr : fs.readDentryByIndex index mydentry m = some (r, m')) :
    Set.EqOn m' m (Ptr.inBlock mydentry.blk)ᶜ := by
  rw [readDentryByIndex] at hr
  split_ifs at hr with hlt
  · cases hr
    exact Set.eqOn_refl ..
  · obtain ⟨m₁, h₁, h₂⟩ := Option.map_eq_some_iff.mp hr
    cases h₂
    exact (copyDentry_of_blk_ne (fun he => hd (he.trans (h.blk_dentry _))) h₁).1

/-- **A search into another block** that finds an entry at an index not above `dentry_num` delivers
the type and the inode of the entry, and stores only into that block. -/
theorem readDentryByName_of_blk_ne {r : BitVec 32} (h : fs.OnBlock b) (hd : mydentry.blk ≠ b)
    (hr : fs.readDentryByName fname mydentry m = some (r, m')) :
    Set.EqOn m' m (Ptr.inBlock mydentry.blk)ᶜ ∧
      ∀ i, fs.lookup m fname = some (some i) → BitVec.ofNat 32 i ≤ fs.dentryNum m → r = success →
        readWord m' (Dentry.fileType mydentry) =
          readWord m (Dentry.fileType (fs.dentry (BitVec.ofNat 32 i).toNat)) ∧
        readWord m' (Dentry.inodeIndex mydentry) =
          readWord m (Dentry.inodeIndex (fs.dentry (BitVec.ofNat 32 i).toNat)) := by
  rcases readDentryByName_cases hr with ⟨-, rfl, rfl⟩ | ⟨i, r', -, hl, rfl, h₁⟩
  · exact ⟨Set.eqOn_refl .., fun _ _ _ hs => absurd hs (by decide)⟩
  · refine ⟨readDentryByIndex_of_blk_ne h hd h₁, fun j hj hle _ => ?_⟩
    obtain rfl : i = j := Option.some.inj (Option.some.inj (hl.symm.trans hj))
    rw [readDentryByIndex, if_neg (BitVec.not_lt.mpr hle)] at h₁
    obtain ⟨m₁, h₂, h₃⟩ := Option.map_eq_some_iff.mp h₁
    cases h₃
    exact (copyDentry_of_blk_ne (fun he => hd (he.trans (h.blk_dentry _))) h₂).2

end FileSystem

end Mp3Kernel
