import Mp3Kernel.FileSystem.ReadOnly

/-!
# The file system: the entry that a name finds

`read_dentry_by_name` compares a file name with the name of each entry over the length of the latter
only, and takes the first entry for which the two agree. An entry whose name begins the file name is
taken for it, so that a search is sound only when no such entry comes before the one that has the
name.

## Main definitions

* `FileSystem.Names`: a string is the name of an entry.
* `FileSystem.CopiesEntry`: the entry that a search copies.
* `FileSystem.Spelled`, `FileSystem.Shadows`: the two ways in which an entry agrees with a name.

## Main results

* `FileSystem.Matches.spelled_or_shadows`: there is no third.
* `lookup_sound_iff`: when a search that succeeds copies the entry of the name.
* `lookup_shadowed`: a search that copies another one.

Source: `filesystem.c`, lines 32–77; `lib.c`, lines 351–356 and 524–538.
-/

namespace Mp3Kernel

open ByteMemory

variable {β : Type}

namespace FileSystem

/-! ### Names and what agrees with them -/

section Definitions

variable (fs : FileSystem β) (m : Mem β) (fname : Ptr β) (i : ℕ)

/-- The string at `fname` is the name of entry `i`: its bytes up to the first NUL, or all 32. -/
def Names : Prop :=
  ∃ k ≤ Dentry.fileNameLength, HasLength m fname k ∧
    IsPrefix m fname (Dentry.fileName (fs.dentry i)) k ∧
    (k < Dentry.fileNameLength → m ((Dentry.fileName (fs.dentry i)).shift k) = 0)

/-- The string at `fname`, of at most 32 bytes, is the string of entry `i`. The string of an entry
goes on into `file_type` when its name has 32 bytes. -/
def Spelled : Prop :=
  ∃ n ≤ Dentry.fileNameLength, HasLength m fname n ∧
    HasLength m (Dentry.fileName (fs.dentry i)) n ∧
    IsPrefix m fname (Dentry.fileName (fs.dentry i)) n

/-- The string of entry `i` begins the string at `fname`, and either it is shorter or it goes on
behind the 32 bytes of the name. -/
def Shadows : Prop :=
  ∃ l n, HasLength m fname l ∧ HasLength m (Dentry.fileName (fs.dentry i)) n ∧
    IsPrefix m fname (Dentry.fileName (fs.dentry i)) n ∧ (n < l ∨ Dentry.fileNameLength < n)

/-- The search for `fname` stops at entry `i`, and the entry is copied to `mydentry`, which leaves
the memory `m'`. -/
def CopiesEntry [DecidableEq β] (mydentry : Ptr β) (m' : Mem β) : Prop :=
  fs.lookup m fname = some (some i) ∧ copyDentry mydentry (fs.dentry i) m = some m'

end Definitions

variable {fs : FileSystem β} {m m' : Mem β} {fname mydentry : Ptr β} {i l : ℕ}

theorem Spelled.matches (h : fs.Spelled m fname i) : fs.Matches m fname i := by
  obtain ⟨n, -, -, hn, hp⟩ := h
  exact ⟨n, hn, hp⟩

theorem Shadows.matches (h : fs.Shadows m fname i) : fs.Matches m fname i := by
  obtain ⟨-, n, -, hn, hp, -⟩ := h
  exact ⟨n, hn, hp⟩

theorem Spelled.names (h : fs.Spelled m fname i) : fs.Names m fname i := by
  obtain ⟨n, hle, hl, hn, hp⟩ := h
  exact ⟨n, hle, hl, hp, fun _ => hn.2⟩

/-- An entry agrees with a file name when it has the name, or when it shadows it. -/
theorem Matches.spelled_or_shadows (hl : HasLength m fname l) (h : fs.Matches m fname i) :
    fs.Spelled m fname i ∨ fs.Shadows m fname i := by
  obtain ⟨n, hn, hp⟩ := h
  rcases Nat.lt_or_eq_of_le (hp.le_length hn hl) with hlt | rfl
  · exact .inr ⟨l, n, hl, hn, hp, .inl hlt⟩
  · rcases Nat.lt_or_ge Dentry.fileNameLength n with hlt | hle
    · exact .inr ⟨n, n, hl, hn, hp, .inr hlt⟩
    · exact .inl ⟨n, hle, hl, hn, hp⟩

/-- An entry that shadows a file name has another name. -/
theorem Shadows.not_names (h : fs.Shadows m fname i) : ¬ fs.Names m fname i := by
  rintro ⟨k, hk, hlen, hp, hnul⟩
  obtain ⟨l, n, hl, hn, hpn, hor⟩ := h
  obtain rfl := hlen.unique hl
  have hle := hpn.le_length hn hl
  rcases hor with hlt | hlt
  · -- The NUL of the entry's string would be inside the name.
    exact hlen.1 n hlt ((hp n hlt).trans hn.2)
  · omega

/-! ### What a call returns -/

variable [DecidableEq β]

variable [Inhabited β]

/-- A search that ends and is not for the null pointer has compared all entries and fails, or it
stops at an entry, copies it and succeeds. -/
theorem readDentryByName_eq_some {r : BitVec 32} (h0 : fname ≠ Ptr.null)
    (h : fs.readDentryByName fname mydentry m = some (r, m')) :
    (fs.lookup m fname = some none ∧ r = failure) ∨
      ∃ i, fs.CopiesEntry m fname i mydentry m' ∧ r = success := by
  rw [readDentryByName, if_neg h0] at h
  obtain ⟨o, ho, h⟩ := Option.bind_eq_some_iff.mp h
  cases o with
  | none =>
    cases h
    exact .inl ⟨ho, rfl⟩
  | some i =>
    obtain ⟨hle, htoNat⟩ := lookup_lt ho
    obtain ⟨⟨r', m₁⟩, hindex, h⟩ := Option.bind_eq_some_iff.mp h
    cases h
    rw [readDentryByIndex, if_neg (BitVec.not_lt.mpr hle), htoNat] at hindex
    obtain ⟨m₂, hcopy, he⟩ := Option.map_eq_some_iff.mp hindex
    cases he
    exact .inr ⟨i, ⟨ho, hcopy⟩, rfl⟩

end FileSystem

/-! ### When a search is sound -/

/-- **A search that succeeds copies the entry of the name** exactly when every entry that shadows
the name comes behind one that spells it. -/
theorem lookup_sound_iff [DecidableEq β] [Inhabited β] {fs : FileSystem β} {m m' : Mem β}
    {fname mydentry : Ptr β} {l : ℕ} {r : BitVec 32} (hl : HasLength m fname l)
    (h : fs.readDentryByName fname mydentry m = some (r, m')) :
    (r = success → ∃ i, fs.CopiesEntry m fname i mydentry m' ∧ fs.Names m fname i) ↔
      fname = Ptr.null ∨ ∀ i < (fs.dentryNum m).toInt.toNat, fs.Shadows m fname i →
        ∃ j < i, fs.Spelled m fname j := by
  by_cases h0 : fname = Ptr.null
  · rw [FileSystem.readDentryByName, if_pos h0] at h
    cases h
    exact iff_of_true (fun hr => absurd hr (by decide)) (.inl h0)
  · rcases FileSystem.readDentryByName_eq_some h0 h with ⟨hnone, rfl⟩ | ⟨i, hc, rfl⟩
    · have hall := FileSystem.scanDentry_eq_some_none.mp hnone
      refine iff_of_true (fun hr => absurd hr (by decide)) (.inr fun i hi hs => ?_)
      exact absurd (hall i (Nat.zero_le i) (by omega)) hs.matches.not_differs
    · obtain ⟨-, hlt, hm, hbefore⟩ := FileSystem.scanDentry_eq_some_some.mp hc.1
      have hfirst {j : ℕ} (hj : j < i) : ¬ fs.Matches m fname j := fun hmj =>
        hmj.not_differs (hbefore j (Nat.zero_le j) hj)
      constructor
      · intro hsound
        obtain ⟨i', hc', hnames⟩ := hsound rfl
        obtain rfl : i = i' := by simpa [hc.1] using hc'.1
        have hspelled := (hm.spelled_or_shadows hl).resolve_right fun hs => hs.not_names hnames
        refine .inr fun j hj hs => ⟨i, ?_, hspelled⟩
        rcases Nat.lt_trichotomy i j with hij | rfl | hji
        · exact hij
        · exact absurd hnames hs.not_names
        · exact absurd hs.matches (hfirst hji)
      · rintro (hnull | hcond) -
        · exact absurd hnull h0
        · refine ⟨i, hc, ?_⟩
          rcases hm.spelled_or_shadows hl with hspelled | hs
          · exact hspelled.names
          · obtain ⟨j, hj, hspelled⟩ := hcond i (by omega) hs
            exact absurd hspelled.matches (hfirst hj)

/-! ### A name that begins another one -/

/-- The memory with the image of the file `A`, and with the name `AB` at `sampleName`. -/
def longNameImage : Mem Unit := store sampleImage (sampleName.shift 1) 66

/-- The globals for the image. -/
def sampleFs : FileSystem Unit := filesystemInit sampleStart sampleImage

/-- Where the entry is to be copied to. -/
def sampleDentry : Ptr Unit := ⟨(), 0x400⟩

section Sample

variable {m : Mem Unit} (hm : ∀ p, p ≠ sampleName.shift 1 → m p = sampleImage p)

include hm

theorem hasLength_fileName_sample : HasLength m (Dentry.fileName (sampleFs.dentry 0)) 1 := by
  have h : HasLength sampleImage (Dentry.fileName (sampleFs.dentry 0)) 1 := ⟨by decide, by decide⟩
  have hne : ∀ k ≤ 1, (Dentry.fileName (sampleFs.dentry 0)).shift k ≠ sampleName.shift 1 := by
    decide
  exact h.congr fun k hk => hm _ (hne k hk)

theorem isPrefix_sampleName : IsPrefix m sampleName (Dentry.fileName (sampleFs.dentry 0)) 1 := by
  intro k hk
  obtain rfl : k = 0 := by omega
  rw [hm _ (by decide), hm _ (by decide)]
  decide

/-- Whatever follows the letter `A` at `sampleName`, the search copies the entry `A`. -/
theorem exists_copiesEntry_sample :
    ∃ m', sampleFs.CopiesEntry m sampleName 0 sampleDentry m' ∧
      sampleFs.readDentryByName sampleName sampleDentry m = some (success, m') := by
  have hname := hasLength_fileName_sample hm
  have hnum : sampleFs.dentryNum m = 1 := by
    have hne : ∀ k < 4, sampleFs.bootblockHead.shift k ≠ sampleName.shift 1 := by decide
    rw [FileSystem.dentryNum, readWord_of_bytes fun k hk => hm _ (hne k hk)]
    decide
  have hlookup : sampleFs.lookup m sampleName = some (some 0) := by
    rw [FileSystem.lookup, hnum]
    exact FileSystem.scanDentry_eq_some_some.mpr ⟨le_rfl, by decide,
      ⟨1, hname, isPrefix_sampleName hm⟩, fun k _ hk => absurd hk (Nat.not_lt_zero k)⟩
  have hreserved : HasLength m (Dentry.reserved (sampleFs.dentry 0)) 0 := by
    refine ⟨fun k hk => absurd hk (Nat.not_lt_zero k), ?_⟩
    rw [hm _ (by decide)]
    decide
  have hd : Disjoint ((sampleFs.dentry 0).span 64) (sampleDentry.span 64) := by
    have h := Ptr.disjoint_span_shift (p := sampleDentry) (i := 0) (j := 0xc40) (n := 64) (k := 64)
      (by decide) (by decide)
    rw [Ptr.shift_zero] at h
    exact h.symm
  obtain ⟨m', hcopy, -⟩ := exists_copyDentry (by decide) (by decide) hname hreserved hd
  exact ⟨m', ⟨hlookup, hcopy⟩, FileSystem.readDentryByName_of_copy (by decide) hlookup
    (by rw [hnum]; decide) hcopy⟩

end Sample

/-- The name `A` copies the entry `A`. -/
theorem lookup_sound_sample : ∃ i m',
    sampleFs.CopiesEntry sampleImage sampleName i sampleDentry m' ∧
      sampleFs.Names sampleImage sampleName i := by
  have hl : HasLength sampleImage sampleName 1 := ⟨by decide, by decide⟩
  have hname := hasLength_fileName_sample (m := sampleImage) fun _ _ => rfl
  obtain ⟨m', -, hread⟩ := exists_copiesEntry_sample (m := sampleImage) fun _ _ => rfl
  have hnone : ∀ i < (sampleFs.dentryNum sampleImage).toInt.toNat,
      ¬ sampleFs.Shadows sampleImage sampleName i := by
    intro i hi hs
    have hnum : (sampleFs.dentryNum sampleImage).toInt.toNat = 1 := by decide
    obtain rfl : i = 0 := by omega
    obtain ⟨l, n, hl', hn, -, hor⟩ := hs
    obtain rfl := hl.unique hl'
    obtain rfl := hname.unique hn
    rcases hor with h | h
    · exact absurd h (Nat.lt_irrefl 1)
    · exact absurd h (by decide)
  obtain ⟨i, hi⟩ := (lookup_sound_iff hl hread).mpr
    (.inr fun i hi hs => absurd hs (hnone i hi)) rfl
  exact ⟨i, m', hi⟩

/-- The file `AB` is looked up, and the entry `A` is copied. -/
theorem lookup_shadowed :
    ¬ ∀ (fs : FileSystem Unit) (m : Mem Unit), (fs.dentryNum m).toNat ≤ maxFileNumber →
      ∀ (fname mydentry : Ptr Unit) (l : ℕ), HasLength m fname l →
        ∀ m', fs.readDentryByName fname mydentry m = some (success, m') →
          ∃ i, fs.CopiesEntry m fname i mydentry m' ∧ fs.Names m fname i := by
  intro hall
  have hm : ∀ p, p ≠ sampleName.shift 1 → longNameImage p = sampleImage p :=
    fun _ hp => store_of_ne _ hp
  have hl : HasLength longNameImage sampleName 2 := ⟨by decide, by decide⟩
  have hs : sampleFs.Shadows longNameImage sampleName 0 :=
    ⟨2, 1, hl, hasLength_fileName_sample hm, isPrefix_sampleName hm, .inl (by decide)⟩
  obtain ⟨m', hc, hread⟩ := exists_copiesEntry_sample hm
  obtain ⟨i, hc', hnames⟩ :=
    hall sampleFs longNameImage (by decide) sampleName sampleDentry 2 hl m' hread
  obtain rfl : 0 = i := by simpa [hc.1] using hc'.1
  exact hs.not_names hnames

end Mp3Kernel
