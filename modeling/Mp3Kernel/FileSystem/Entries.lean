import Mp3Kernel.FileSystem.Directory

/-!
# The file system: an entry read by its index

`read_dentry_by_index` should copy an entry of the directory, and refuse an index behind the last.
The index is compared with `dentry_num` by `>`, so that the index behind the last is not refused;
and two fields of the entry are printed before the comparison, wherever the index points.

## Main definitions

* `EntryAccess`, `EntryAccess.replay`: a field of an entry that is read, and what it is read for.
* `FileSystem.readDentryByIndexAccesses`: the fields that a call reads.
* `Dentry.SameAs`, `FileSystem.Serves`: what a call should do.

## Main results

* `FileSystem.readDentryByIndex_eq_replay`: the accesses are those of `read_dentry_by_index`.
* `FileSystem.exists_copyDentry_sameAs`: an entry copied, whatever the length of its name.
* `serves_iff`: for which indices a call does what it should.

Source: `filesystem.h`, lines 28–41; `filesystem.c`, lines 64–77; `lib.c`, lines 545–553.
-/

namespace Mp3Kernel

open ByteMemory

variable {β : Type}

/-! ### The fields that are read -/

/-- The fields of a `dentry_t`. -/
inductive Dentry.Field
  | fileName
  | fileType
  | inodeIndex
  | reserved
  deriving DecidableEq

/-- The address of a field of the entry at `d`. -/
def Dentry.Field.ptr (d : Ptr β) : Dentry.Field → Ptr β
  | fileName => Dentry.fileName d
  | fileType => Dentry.fileType d
  | inodeIndex => Dentry.inodeIndex d
  | reserved => Dentry.reserved d

/-- A field of `bootblock_head->dentry[index]` that is read, as an argument of `printf` or to be
stored in the same field of `*mydentry`. -/
inductive EntryAccess
  | print (field : Dentry.Field) (index : BitVec 32)
  | copy (field : Dentry.Field) (index : BitVec 32)

namespace EntryAccess

/-- The entry that is read. -/
def index : EntryAccess → BitVec 32
  | print _ index => index
  | copy _ index => index

/-- What an access does to memory: the numbers are assigned, the strings are copied by `strcpy`. -/
def replay [DecidableEq β] (fs : FileSystem β) (mydentry : Ptr β) (m : Mem β) :
    EntryAccess → Option (Mem β)
  | print _ _ => some m
  | copy field index =>
    let dest := field.ptr mydentry
    let src := field.ptr (fs.dentry index.toNat)
    match field with
    | .fileType | .inodeIndex => some (writeWord m dest (readWord m src))
    | .fileName | .reserved => strcpy m dest src

end EntryAccess

/-- The entry at `d` in the memory `m'` has the name, the type and the inode of the entry at `e` in
the memory `m`. -/
structure Dentry.SameAs (m' : Mem β) (d : Ptr β) (m : Mem β) (e : Ptr β) : Prop where
  name : Dentry.name m' d = Dentry.name m e
  fileType : readWord m' (Dentry.fileType d) = readWord m (Dentry.fileType e)
  inodeIndex : readWord m' (Dentry.inodeIndex d) = readWord m (Dentry.inodeIndex e)

/-- The name of an entry, read from its string. -/
theorem Dentry.name_of_hasLength {m : Mem β} {d : Ptr β} {n : ℕ}
    (hn : HasLength m (Dentry.fileName d) n) :
    Dentry.name m d = bytesAt m (Dentry.fileName d) (min n Dentry.fileNameLength) := by
  refine takeWhile_bytesAt (Nat.min_le_right ..) (fun k hk => hn.1 k ?_) fun hlt => ?_
  · exact hk.trans_le (Nat.min_le_left ..)
  · rw [Nat.min_eq_left (by omega)]
    exact hn.2

/-- Two entries whose strings agree have one name. -/
theorem Dentry.name_eq_of_hasLength {m m' : Mem β} {d e : Ptr β} {n : ℕ}
    (hn : HasLength m (Dentry.fileName e) n)
    (h : ∀ k ≤ n, m' ((Dentry.fileName d).shift k) = m ((Dentry.fileName e).shift k)) :
    Dentry.name m' d = Dentry.name m e := by
  have hn' : HasLength m' (Dentry.fileName d) n := hn.congr h
  rw [Dentry.name_of_hasLength hn, Dentry.name_of_hasLength hn', bytesAt_eq_iff]
  exact fun k hk => h k (hk.le.trans (Nat.min_le_left ..))

namespace FileSystem

variable (fs : FileSystem β)

/-- The fields of entries that `read_dentry_by_index` reads. -/
def readDentryByIndexAccesses (m : Mem β) (index : BitVec 32) : List EntryAccess :=
  [.print .fileType index, .print .inodeIndex index] ++
    if fs.dentryNum m < index then []
    else [.copy .fileType index, .copy .inodeIndex index, .copy .fileName index,
      .copy .reserved index]

variable {fs} {m m' : Mem β} {d e mydentry : Ptr β} {index : BitVec 32} {n : ℕ}

/-- The accesses of a call are what it does. -/
theorem readDentryByIndex_eq_replay [DecidableEq β] :
    fs.readDentryByIndex index mydentry m =
      ((fs.readDentryByIndexAccesses m index).foldlM (EntryAccess.replay fs mydentry) m).map
        fun m' => (if fs.dentryNum m < index then failure else success, m') := by
  rw [readDentryByIndex, readDentryByIndexAccesses]
  split_ifs with hlt
  · rfl
  · simp only [List.foldlM_append, List.foldlM_cons, List.foldlM_nil, EntryAccess.replay,
      Option.bind_eq_bind, Option.bind_some, Option.pure_def, Option.bind_fun_some]
    rfl

/-! ### What a call should do -/

variable (fs) in
/-- The call with `index` does what it should: it succeeds for the entries of the directory only.
Then it copies the entry and stores nothing outside `*mydentry`; else it leaves `*mydentry` alone
and reads no entry outside the table. -/
def Serves [DecidableEq β] (m : Mem β) (index : BitVec 32) (mydentry : Ptr β) : Prop :=
  ∃ r m', fs.readDentryByIndex index mydentry m = some (r, m') ∧
    (r = success ↔ index < fs.dentryNum m) ∧
    (r = success → Dentry.SameAs m' mydentry m (fs.dentry index.toNat) ∧
      Set.EqOn m' m (mydentry.span Dentry.size)ᶜ) ∧
    (r ≠ success → Set.EqOn m' m (mydentry.span Dentry.size) ∧
      ∀ a ∈ fs.readDentryByIndexAccesses m index, a.index.toNat < maxFileNumber)

/-- **An entry copied.** The string of a name of 32 bytes runs on into the fields behind it, on both
sides alike. -/
theorem exists_copyDentry_sameAs [DecidableEq β] (hterm : Dentry.Terminated m e)
    (hd : Disjoint (e.span Dentry.size) (mydentry.span Dentry.size)) :
    ∃ m', copyDentry mydentry e m = some m' ∧ Dentry.SameAs m' mydentry m e ∧
      Set.EqOn m' m (mydentry.span Dentry.size)ᶜ := by
  obtain ⟨n, hn, r, hr, hln, hlr⟩ := hterm.exists_length
  obtain ⟨m', hcopy, hc⟩ := exists_copyDentry hn hr hln hlr hd
  refine ⟨m', hcopy, ⟨Dentry.name_eq_of_hasLength hln fun k hk => ?_, ?_, ?_⟩, ?_⟩
  · rw [Dentry.fileName, Dentry.fileName, Ptr.shift_zero, Ptr.shift_zero]
    exact hc.copied k (.inl (.inr ⟨Nat.zero_le k, Nat.lt_succ_of_le hk⟩))
  · exact hc.readWord fun k hk => .inl (.inl (.inl hk))
  · exact hc.readWord fun k hk => .inl (.inl (.inr hk))
  · exact hc.eqOn_span (copiedPositions_subset hn hr)

/-- A call with an index behind the last refuses it, and has printed two fields of the entry. -/
theorem readDentryByIndex_of_lt [DecidableEq β] (mydentry : Ptr β)
    (hlt : fs.dentryNum m < index) :
    fs.readDentryByIndex index mydentry m = some (failure, m) ∧
      fs.readDentryByIndexAccesses m index =
        [.print .fileType index, .print .inodeIndex index] := by
  rw [readDentryByIndex, readDentryByIndexAccesses, if_pos hlt, if_pos hlt, List.append_nil]
  exact ⟨rfl, rfl⟩

/-- A call with an index not above `dentry_num` does not fail. -/
theorem eq_success_of_le [DecidableEq β] {r : BitVec 32} (hle : index ≤ fs.dentryNum m)
    (h : fs.readDentryByIndex index mydentry m = some (r, m')) : r = success := by
  rw [readDentryByIndex, if_neg (BitVec.not_lt.mpr hle)] at h
  obtain ⟨m₁, -, h₁⟩ := Option.map_eq_some_iff.mp h
  exact (Prod.mk.inj h₁).1.symm

end FileSystem

/-! ### The indices that are served -/

/-- **A call does what it should** exactly when its index is neither `dentry_num` nor behind the
table. -/
theorem serves_iff [DecidableEq β] {fs : FileSystem β} {m : Mem β} {mydentry : Ptr β}
    (index : BitVec 32) (hle : (fs.dentryNum m).toNat ≤ maxFileNumber)
    (hterm : ∀ i < maxFileNumber, Dentry.Terminated m (fs.dentry i))
    (hd : ∀ i < maxFileNumber,
      Disjoint ((fs.dentry i).span Dentry.size) (mydentry.span Dentry.size)) :
    fs.Serves m index mydentry ↔ index ≠ fs.dentryNum m ∧ index.toNat < maxFileNumber := by
  constructor
  · rintro ⟨r, m', hread, hiff, -, hfail⟩
    have hne : index ≠ fs.dentryNum m := by
      rintro rfl
      exact (BitVec.lt_irrefl _) (hiff.mp (FileSystem.eq_success_of_le (BitVec.le_refl _) hread))
    refine ⟨hne, ?_⟩
    by_cases hlt : index < fs.dentryNum m
    · exact (BitVec.lt_def.mp hlt).trans_le hle
    · have hr : r ≠ success := fun h => hlt (hiff.mp h)
      refine (hfail hr).2 (.print .fileType index) ?_
      rw [FileSystem.readDentryByIndexAccesses]
      exact List.mem_append_left _ (List.mem_cons_self ..)
  · rintro ⟨hne, hlt63⟩
    by_cases hlt : index < fs.dentryNum m
    · obtain ⟨m', hcopy, hsame, hout⟩ :=
        FileSystem.exists_copyDentry_sameAs (hterm _ hlt63) (hd _ hlt63)
      exact ⟨success, m', FileSystem.readDentryByIndex_of_copy (BitVec.le_of_lt hlt) hcopy,
        iff_of_true rfl hlt, fun _ => ⟨hsame, hout⟩, fun h => absurd rfl h⟩
    · have hgt : fs.dentryNum m < index :=
        BitVec.lt_of_le_ne (BitVec.not_lt.mp hlt) hne.symm
      obtain ⟨hread, haccesses⟩ := FileSystem.readDentryByIndex_of_lt mydentry hgt
      have hfailure : failure ≠ success := by decide
      refine ⟨failure, m, hread, iff_of_false hfailure hlt, fun h => absurd h hfailure,
        fun _ => ⟨Set.eqOn_refl .., fun a ha => ?_⟩⟩
      rw [haccesses] at ha
      obtain rfl | rfl : a = .print .fileType index ∨ a = .print .inodeIndex index := by
        simpa using ha
      · exact hlt63
      · exact hlt63

theorem disjoint_dentry_sample {i : ℕ} (hi : i < maxFileNumber) :
    Disjoint ((sampleFs.dentry i).span Dentry.size) (sampleDentry.span Dentry.size) := by
  rw [maxFileNumber] at hi
  have hentry : sampleFs.dentry i = sampleDentry.shift (0xC00 + (64 + Dentry.size * i)) := by
    rw [← Ptr.shift_shift]
    rfl
  have h := Ptr.disjoint_span_shift (p := sampleDentry) (i := 0)
    (j := 0xC00 + (64 + Dentry.size * i)) (n := Dentry.size) (k := Dentry.size)
    (by rw [Dentry.size]; omega) (by rw [Dentry.size]; omega)
  rw [Ptr.shift_zero] at h
  rw [hentry]
  exact h.symm

theorem terminated_sample :
    ∀ i < maxFileNumber, Dentry.Terminated sampleImage (sampleFs.dentry i) := by
  intro i hi
  refine ⟨0, by decide, ?_⟩
  revert i
  decide

/-- The entry of the one file is copied. -/
theorem serves_sample : sampleFs.Serves sampleImage 0 sampleDentry :=
  (serves_iff 0 (by decide) terminated_sample fun _ => disjoint_dentry_sample).mpr
    ⟨by decide, by decide⟩

/-- The index 1 is not refused in a directory of one entry. -/
theorem serves_behind_last : ¬ ∀ (fs : FileSystem Unit) (m : Mem Unit) (mydentry : Ptr Unit),
    (fs.dentryNum m).toNat ≤ maxFileNumber →
      (∀ i < maxFileNumber, Dentry.Terminated m (fs.dentry i)) →
      (∀ i < maxFileNumber,
        Disjoint ((fs.dentry i).span Dentry.size) (mydentry.span Dentry.size)) →
      ∀ index : BitVec 32, fs.Serves m index mydentry := by
  intro hall
  obtain ⟨r, m', hread, hiff, -⟩ := hall sampleFs sampleImage sampleDentry (by decide)
    terminated_sample (fun _ => disjoint_dentry_sample) 1
  have hr := FileSystem.eq_success_of_le (by decide) hread
  exact absurd (hiff.mp hr) (by decide)

end Mp3Kernel
