import Mp3Kernel.FileSystem.ReadData

/-!
# The file system: the file and directory drivers

The drivers of regular files and of directories, as the file operation table names them. They
search the directory into the entry `curdentry` that all of them share.

## Main definitions

* `FileSystem.fileOpen`, `FileSystem.fileRead`, `FileSystem.directoryOpen`,
  `FileSystem.directoryRead`: the calls that search.
* `FileSystem.Misses`: the search finds nothing.
* `FileSystem.CopyFits`: an entry can be copied without storing into a region.

## Main results

* `FileSystem.readDentryByName_of_misses`: a search that finds nothing does nothing.
* `FileSystem.copyDentry_eqOn`, `FileSystem.readDentryByName_eqOn`: what a copy leaves alone.
* `FileSystem.directoryRead_eqOn`: what a read of the directory leaves alone.

Source: `filesystem.c`, lines 119–211.
-/

namespace Mp3Kernel

open ByteMemory

variable {β : Type} [DecidableEq β]

namespace FileSystem

variable (fs : FileSystem β)

/-! ### The driver calls -/

section Calls

variable [Inhabited β]

/-- `int file_open(const char* fname)`. -/
def fileOpen (fname : Ptr β) (m : Mem β) : Option (BitVec 32 × Mem β) :=
  if fname = Ptr.null then some (failure, m)
  else fs.readDentryByName fname fs.curdentry m

/-- `int file_read(const char* fname, uint32_t offset, void* buf, int32_t length)`. -/
def fileRead (fname : Ptr β) (offset : BitVec 32) (buf : Ptr β) (length : BitVec 32)
    (m : Mem β) : Option (BitVec 32 × Mem β) :=
  if fs.bootblockHead = Ptr.null then some (failure, m)
  else do
    let (found, m) ← fs.readDentryByName fname fs.curdentry m
    if found = failure then some (failure, m)
    else some (fs.readData (readWord m (Dentry.inodeIndex fs.curdentry)) offset buf length m)

/-- `int directory_open(const char* fname)`. -/
def directoryOpen (fname : Ptr β) (m : Mem β) : Option (BitVec 32 × Mem β) :=
  if fname = Ptr.null then some (failure, m)
  else do
    let (found, m) ← fs.readDentryByName fname fs.curdentry m
    if found ≠ 0 then some (failure, m) else some (success, m)

omit [Inhabited β] [DecidableEq β] in
/-- The length that `directory_read` copies: at most `FILE_NAME_LENGTH` by a signed comparison,
then at most the length of the name in `curdentry` by an unsigned one. -/
def directoryLength (length : BitVec 32) (nameLength : ℕ) : BitVec 32 :=
  let length := if (BitVec.ofNat 32 Dentry.fileNameLength).slt length then
    BitVec.ofNat 32 Dentry.fileNameLength else length
  if BitVec.ofNat 32 nameLength < length then BitVec.ofNat 32 nameLength else length

/-- `int directory_read(const char* fname, uint32_t offset, void* buf, int32_t length)`. -/
def directoryRead (fname : Ptr β) (_offset : BitVec 32) (buf : Ptr β) (length : BitVec 32)
    (m : Mem β) : Option (BitVec 32 × Mem β) :=
  if buf = Ptr.null then some (failure, m)
  else do
    let nameLength ← strlen m (Dentry.fileName fs.curdentry)
    let length := directoryLength length nameLength
    let (_, m) ← fs.readDentryByName fname fs.curdentry m
    some (length, memcpy m buf (Dentry.fileName fs.curdentry) length.toNat)

end Calls

/-- `int file_close(const char* fname)`. -/
def fileClose (_fname : Ptr β) : BitVec 32 := success

/-- `int file_write(int32_t fd, const void* buf, int32_t nbytes)`. -/
def fileWrite (_fd : BitVec 32) (_buf : Ptr β) (_nbytes : BitVec 32) : BitVec 32 := failure

/-- `int directory_close(const char* fname)`. -/
def directoryClose (_fname : Ptr β) : BitVec 32 := success

/-- `int directory_write(int32_t fd, const void* buf, int32_t nbytes)`. -/
def directoryWrite (_fd : BitVec 32) (_buf : Ptr β) (_nbytes : BitVec 32) : BitVec 32 := failure

/-! ### Copies that fit -/

omit [DecidableEq β] in
/-- The bytes that a copy to the entry at `d` stores, for strings of lengths `n` and `r`. -/
def storedBytes (d : Ptr β) (n r : ℕ) : Set (Ptr β) :=
  d.span Dentry.size ∪ (Dentry.fileName d).span (n + 1) ∪ (Dentry.reserved d).span (r + 1)

omit [DecidableEq β] in
/-- The two strings of the entry at `d`, of lengths `n` and `r`. -/
def stringBytes (d : Ptr β) (n r : ℕ) : Set (Ptr β) :=
  (Dentry.fileName d).span (n + 1) ∪ (Dentry.reserved d).span (r + 1)

omit [DecidableEq β] in
/-- The two strings of `entry` end, and copied to `mydentry` they meet neither the region `I` nor
themselves. -/
def CopyFits (m : Mem β) (I : Set (Ptr β)) (mydentry entry : Ptr β) : Prop :=
  ∃ n r, HasLength m (Dentry.fileName entry) n ∧ HasLength m (Dentry.reserved entry) r ∧
    Disjoint (I ∪ stringBytes entry n r) (storedBytes mydentry n r)

variable {fs} {m m' : Mem β} {I : Set (Ptr β)} {fname mydentry entry : Ptr β}

theorem copyNumbers_eqOn (mydentry entry : Ptr β) (m : Mem β) :
    Set.EqOn (copyNumbers mydentry entry m) m (mydentry.span Dentry.size)ᶜ := by
  have h₁ : (mydentry.span Dentry.size)ᶜ ⊆ ((Dentry.fileType mydentry).span 4)ᶜ :=
    Set.compl_subset_compl.mpr (Ptr.span_shift_subset (by simp [Dentry.size]))
  have h₂ : (mydentry.span Dentry.size)ᶜ ⊆ ((Dentry.inodeIndex mydentry).span 4)ᶜ :=
    Set.compl_subset_compl.mpr (Ptr.span_shift_subset (by simp [Dentry.size]))
  exact ((writeWord_eqOn ..).mono h₂).trans ((writeWord_eqOn ..).mono h₁)

/-- A copy that fits does not store into the region. -/
theorem copyDentry_eqOn (hfit : CopyFits m I mydentry entry)
    (h : copyDentry mydentry entry m = some m') : Set.EqOn m' m I := by
  obtain ⟨n, r, hn, hr, hd⟩ := hfit
  obtain ⟨m₁, h₁, h₂⟩ := Option.bind_eq_some_iff.mp h
  rw [stringBytes, storedBytes] at hd
  -- Each of the three parts of the copy leaves the region and the strings alone.
  set S := I ∪ ((Dentry.fileName entry).span (n + 1) ∪ (Dentry.reserved entry).span (r + 1))
    with hS
  have hnS : (Dentry.fileName entry).span (n + 1) ⊆ S :=
    Set.subset_union_left.trans Set.subset_union_right
  have hrS : (Dentry.reserved entry).span (r + 1) ⊆ S :=
    Set.subset_union_right.trans Set.subset_union_right
  rw [Set.disjoint_union_right, Set.disjoint_union_right] at hd
  obtain ⟨⟨hd₀, hd₁⟩, hd₂⟩ := hd
  have hE₀ : Set.EqOn (copyNumbers mydentry entry m) m S :=
    (copyNumbers_eqOn ..).mono (Set.subset_compl_iff_disjoint_right.mpr hd₀)
  have hn₀ : HasLength (copyNumbers mydentry entry m) (Dentry.fileName entry) n :=
    hn.congr fun k hk => hE₀ (hnS (Ptr.shift_mem_span (by omega)))
  have hE₁ : Set.EqOn m₁ m S :=
    ((strcpy_eqOn h₁ hn₀ (hd₁.mono_left hnS)).mono
      (Set.subset_compl_iff_disjoint_right.mpr hd₁)).trans hE₀
  have hr₁ : HasLength m₁ (Dentry.reserved entry) r :=
    hr.congr fun k hk => hE₁ (hrS (Ptr.shift_mem_span (by omega)))
  have hE₂ : Set.EqOn m' m S :=
    ((strcpy_eqOn h₂ hr₁ (hd₂.mono_left hrS)).mono
      (Set.subset_compl_iff_disjoint_right.mpr hd₂)).trans hE₁
  exact hE₂.mono Set.subset_union_left

theorem readDentryByIndex_eqOn {index : BitVec 32} {r : BitVec 32}
    (hfit : index ≤ fs.dentryNum m → CopyFits m I mydentry (fs.dentry index.toNat))
    (h : fs.readDentryByIndex index mydentry m = some (r, m')) : Set.EqOn m' m I := by
  rw [readDentryByIndex] at h
  split_ifs at h with hlt
  · cases h
    exact Set.eqOn_refl ..
  · obtain ⟨m₁, h₁, h₂⟩ := Option.map_eq_some_iff.mp h
    cases h₂
    exact copyDentry_eqOn (hfit (BitVec.not_lt.mp hlt)) h₁

theorem readDentryByIndex_of_copy {index : BitVec 32} (hi : index ≤ fs.dentryNum m)
    (hc : copyDentry mydentry (fs.dentry index.toNat) m = some m') :
    fs.readDentryByIndex index mydentry m = some (success, m') := by
  rw [readDentryByIndex, if_neg (BitVec.not_lt.mpr hi), hc, Option.map_some]

variable [Inhabited β]

/-! ### Searches -/

variable (fs) in
omit [DecidableEq β] in
/-- The search for `fname` finds no entry. -/
def Misses (m : Mem β) (fname : Ptr β) : Prop :=
  fname = Ptr.null ∨ ∀ i, fs.lookup m fname ≠ some (some i)

/-- A search that ends either finds nothing, and does nothing, or copies the entry found. -/
theorem readDentryByName_cases {r : BitVec 32}
    (h : fs.readDentryByName fname mydentry m = some (r, m')) :
    (fs.Misses m fname ∧ r = failure ∧ m' = m) ∨
      ∃ i r', fname ≠ Ptr.null ∧ fs.lookup m fname = some (some i) ∧ r = success ∧
        fs.readDentryByIndex (BitVec.ofNat 32 i) mydentry m = some (r', m') := by
  rw [readDentryByName] at h
  split_ifs at h with h0
  · cases h
    exact .inl ⟨.inl h0, rfl, rfl⟩
  · obtain ⟨o, ho, h⟩ := Option.bind_eq_some_iff.mp h
    cases o with
    | none =>
      cases h
      refine .inl ⟨.inr fun i hi => ?_, rfl, rfl⟩
      rw [ho] at hi
      cases hi
    | some i =>
      obtain ⟨⟨r', m₁⟩, h₁, h⟩ := Option.bind_eq_some_iff.mp h
      cases h
      exact .inr ⟨i, r', h0, ho, rfl, h₁⟩

/-- A search that finds nothing does nothing. -/
theorem readDentryByName_of_misses {r : BitVec 32} (hm : fs.Misses m fname)
    (h : fs.readDentryByName fname mydentry m = some (r, m')) : r = failure ∧ m' = m := by
  rcases readDentryByName_cases h with ⟨-, hr, hm'⟩ | ⟨i, r', h0, hi, -⟩
  · exact ⟨hr, hm'⟩
  · rcases hm with hm | hm
    · exact absurd hm h0
    · exact absurd hi (hm i)

/-- A search for no name, or one that ends behind the last entry, does nothing. -/
theorem readDentryByName_of_missed (h : fname = Ptr.null ∨ fs.lookup m fname = some none) :
    fs.readDentryByName fname mydentry m = some (failure, m) := by
  rw [readDentryByName]
  by_cases h0 : fname = Ptr.null
  · rw [if_pos h0]
  · rw [if_neg h0, h.resolve_left h0]
    rfl

/-- A search that finds an entry copies it. -/
theorem readDentryByName_of_copy {i : ℕ} (h0 : fname ≠ Ptr.null)
    (hl : fs.lookup m fname = some (some i)) (hi : BitVec.ofNat 32 i ≤ fs.dentryNum m)
    (hc : copyDentry mydentry (fs.dentry (BitVec.ofNat 32 i).toNat) m = some m') :
    fs.readDentryByName fname mydentry m = some (success, m') := by
  simp only [readDentryByName, if_neg h0, hl, Option.bind_eq_bind, Option.bind_some,
    readDentryByIndex_of_copy hi hc]

/-- A search that finds an entry whose strings are not too long copies it to any place that does not
meet it. -/
theorem exists_readDentryByName {i n r : ℕ} (h0 : fname ≠ Ptr.null)
    (hl : fs.lookup m fname = some (some i)) (hn : n < 64) (hr : r < 24)
    (hln : HasLength m (Dentry.fileName (fs.dentry i)) n)
    (hlr : HasLength m (Dentry.reserved (fs.dentry i)) r)
    (hd : Disjoint ((fs.dentry i).span 64) (mydentry.span 64)) :
    ∃ m', fs.readDentryByName fname mydentry m = some (success, m') ∧
      CopiedAt m m' mydentry (fs.dentry i) (copiedPositions n r) := by
  obtain ⟨hle, hi⟩ := lookup_lt hl
  obtain ⟨m', hcopy, hc⟩ := exists_copyDentry hn hr hln hlr hd
  exact ⟨m', readDentryByName_of_copy h0 hl hle (by rw [hi]; exact hcopy), hc⟩

/-- A search that finds an entry and ends succeeds. -/
theorem readDentryByName_of_found {r : BitVec 32} {i : ℕ} (h0 : fname ≠ Ptr.null)
    (hl : fs.lookup m fname = some (some i))
    (h : fs.readDentryByName fname mydentry m = some (r, m')) : r = success := by
  rcases readDentryByName_cases h with ⟨hm, -⟩ | ⟨j, r', -, -, hr, -⟩
  · rcases hm with hm | hm
    · exact absurd hm h0
    · exact absurd hl (hm i)
  · exact hr

/-- What a search leaves alone, when the entry it finds fits. -/
theorem readDentryByName_eqOn {r : BitVec 32}
    (hfit : fname ≠ Ptr.null → ∀ i, fs.lookup m fname = some (some i) →
      BitVec.ofNat 32 i ≤ fs.dentryNum m →
        CopyFits m I mydentry (fs.dentry (BitVec.ofNat 32 i).toNat))
    (h : fs.readDentryByName fname mydentry m = some (r, m')) : Set.EqOn m' m I := by
  rcases readDentryByName_cases h with ⟨-, -, rfl⟩ | ⟨i, r', h0, hi, -, h₁⟩
  · exact Set.eqOn_refl ..
  · exact readDentryByIndex_eqOn (hfit h0 i hi) h₁

/-! ### What the drivers leave alone -/

/-- A file opened under a name that is not found does nothing. -/
theorem fileOpen_of_misses {r : BitVec 32} (hm : fs.Misses m fname)
    (h : fs.fileOpen fname m = some (r, m')) : m' = m := by
  rw [fileOpen] at h
  split_ifs at h with h0
  · cases h
    rfl
  · exact (readDentryByName_of_misses hm h).2

/-- A directory opened under a name that is not found does nothing. -/
theorem directoryOpen_of_misses {r : BitVec 32} (hm : fs.Misses m fname)
    (h : fs.directoryOpen fname m = some (r, m')) : m' = m := by
  rw [directoryOpen] at h
  split_ifs at h with h0
  · cases h
    rfl
  · obtain ⟨⟨found, m₁⟩, h₁, h₂⟩ := Option.bind_eq_some_iff.mp h
    obtain ⟨rfl, rfl⟩ := readDentryByName_of_misses hm h₁
    cases h₂
    rfl

/-- A read of a file that is not found does nothing. -/
theorem fileRead_of_misses {offset length r : BitVec 32} {buf : Ptr β}
    (hm : fs.bootblockHead = Ptr.null ∨ fs.Misses m fname)
    (h : fs.fileRead fname offset buf length m = some (r, m')) : m' = m := by
  rw [fileRead] at h
  split_ifs at h with h0
  · cases h
    rfl
  · obtain ⟨⟨found, m₁⟩, h₁, h₂⟩ := Option.bind_eq_some_iff.mp h
    obtain ⟨rfl, rfl⟩ := readDentryByName_of_misses (hm.resolve_left h0) h₁
    cases h₂
    rfl

omit [DecidableEq β] [Inhabited β] in
theorem directoryLength_le (length : BitVec 32) (n : ℕ) : directoryLength length n ≤ length := by
  have h32 : (BitVec.ofNat 32 Dentry.fileNameLength) = 32#32 := rfl
  simp only [directoryLength, h32]
  generalize BitVec.ofNat 32 n = l
  have hs : (32#32).slt length = true → 32#32 ≤ length := by
    intro h
    have h32' : (32#32).toInt = 32 := rfl
    rw [BitVec.slt_eq_decide, decide_eq_true_eq, h32', BitVec.toInt_eq_toNat_cond] at h
    split_ifs at h <;> bv_omega
  split_ifs with h₁ h₂ h₂
  · exact BitVec.le_trans (BitVec.le_of_lt h₂) (hs h₁)
  · exact hs h₁
  · exact BitVec.le_of_lt h₂
  · exact BitVec.le_refl _

/-- A read of the directory under a name that is not found writes nothing outside the buffer. -/
theorem directoryRead_eqOn (offset : BitVec 32) {length r : BitVec 32} {buf : Ptr β}
    (hm : buf = Ptr.null ∨ fs.Misses m fname)
    (h : fs.directoryRead fname offset buf length m = some (r, m')) :
    Set.EqOn m' m (buf.span length.toNat)ᶜ := by
  rw [directoryRead] at h
  split_ifs at h with h0
  · cases h
    exact Set.eqOn_refl ..
  · obtain ⟨n, -, h⟩ := Option.bind_eq_some_iff.mp h
    obtain ⟨⟨found, m₁⟩, h₁, h₂⟩ := Option.bind_eq_some_iff.mp h
    obtain ⟨-, rfl⟩ := readDentryByName_of_misses (hm.resolve_left h0) h₁
    cases h₂
    have hle := BitVec.le_def.mp (directoryLength_le length n)
    exact (memcpy_eqOn ..).mono (Set.compl_subset_compl.mpr (Ptr.span_mono hle))

end FileSystem

end Mp3Kernel
