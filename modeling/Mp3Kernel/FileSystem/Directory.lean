import Mp3Kernel.FileSystem.Header
import Mp3Kernel.FileSystem.Names

/-!
# The file system: reaching every entry by its name

In a directory whose names differ, each name should find its own entry. The search compares strings
instead: the string of an entry goes on into `file_type` when its name has 32 bytes, and it is
compared over its own length. So an entry is found under its name when its string ends with the name
and no entry before it shadows the name.

## Main definitions

* `Dentry.name`, `FileSystem.DistinctNames`: the names of the entries.
* `FileSystem.Fillable`: where an entry can be copied to.
* `FileSystem.Yields`: a search succeeds and delivers the type and the inode of an entry.
* `FileSystem.Ends`, `FileSystem.Captures`: the string of an entry ends with its name; an entry is
  taken for another.

## Main results

* `FileSystem.yields_iff_of_lookup`: a search delivers the entry at which it stops.
* `yields_iff`: when a name finds its entry.
* `lookup_prefix_name`: a name that does not.

Source: `filesystem.h`, lines 28–41; `filesystem.c`, lines 32–77; `lib.c`, lines 524–538.
-/

namespace Mp3Kernel

open ByteMemory

variable {β : Type}

/-- The name of the entry at `d`: its bytes up to the first NUL, or all 32. -/
def Dentry.name (m : Mem β) (d : Ptr β) : List UInt8 :=
  (bytesAt m (Dentry.fileName d) Dentry.fileNameLength).takeWhile (· ≠ 0)

namespace FileSystem

/-! ### Directories with distinct names -/

section Definitions

variable (fs : FileSystem β) (m : Mem β)

/-- The entries are some of the boot block's, and their names are not empty and all different. -/
structure DistinctNames : Prop where
  /-- The number of entries. -/
  dentryNum_le : (fs.dentryNum m).toNat ≤ maxFileNumber
  /-- No name is empty. -/
  nonempty : ∀ i < (fs.dentryNum m).toNat, Dentry.name m (fs.dentry i) ≠ []
  /-- No name occurs twice. -/
  injOn : Set.InjOn (fun i => Dentry.name m (fs.dentry i)) (Set.Iio (fs.dentryNum m).toNat)

/-- An entry can be copied to `mydentry`: an object of its own, or a place that meets no entry of
the image, where the reserved bytes of the entries hold a NUL. -/
def Fillable (mydentry : Ptr β) : Prop :=
  mydentry.blk ≠ fs.bootblockHead.blk ∨ ∀ i < (fs.dentryNum m).toNat,
    Dentry.Terminated m (fs.dentry i) ∧
      Disjoint ((fs.dentry i).span Dentry.size) (mydentry.span Dentry.size)

/-- The search for the string at `fname` succeeds, and fills `mydentry` with the type and the inode
of entry `i`. -/
def Yields [DecidableEq β] [Inhabited β] (fname mydentry : Ptr β) (i : ℕ) : Prop :=
  ∃ m', fs.readDentryByName fname mydentry m = some (success, m') ∧
    readWord m' (Dentry.fileType mydentry) = fs.entryType m i ∧
    readWord m' (Dentry.inodeIndex mydentry) = fs.entryInode m i

/-- The string of entry `i` ends with its name: the name is shorter than 32 bytes, or the first byte
of `file_type` is zero. -/
def Ends (i : ℕ) : Prop :=
  ∃ k ≤ Dentry.fileNameLength, m ((Dentry.fileName (fs.dentry i)).shift k) = 0

/-- Entry `j` is taken for entry `i`, which has the name at `fname`: it is the first that shadows
the name, and it stands before entry `i` if the string of that one ends with the name. -/
def Captures (fname : Ptr β) (i j : ℕ) : Prop :=
  fs.Shadows m fname j ∧ (∀ k < j, ¬ fs.Shadows m fname k) ∧ (fs.Ends m i → j < i)

end Definitions

variable {fs : FileSystem β} {m : Mem β} {fname mydentry : Ptr β} {i j : ℕ}

/-- A string that is the name of an entry has the bytes of the name. -/
theorem Names.exists_bytesAt (h : fs.Names m fname i) :
    ∃ k, HasLength m fname k ∧ Dentry.name m (fs.dentry i) = bytesAt m fname k := by
  obtain ⟨k, hk, hlen, hp, hnul⟩ := h
  refine ⟨k, hlen, ?_⟩
  have hbytes : bytesAt m fname k = bytesAt m (Dentry.fileName (fs.dentry i)) k :=
    bytesAt_eq_iff.mpr hp
  rw [hbytes]
  exact takeWhile_bytesAt hk (fun j hj => hp j hj ▸ hlen.1 j hj) hnul

/-- A string is the name of one entry only. -/
theorem DistinctNames.eq_of_names (hd : fs.DistinctNames m) (hi : i < (fs.dentryNum m).toNat)
    (hj : j < (fs.dentryNum m).toNat) (h : fs.Names m fname i) (h' : fs.Names m fname j) :
    i = j := by
  obtain ⟨k, hk, hname⟩ := h.exists_bytesAt
  obtain ⟨k', hk', hname'⟩ := h'.exists_bytesAt
  obtain rfl := hk.unique hk'
  exact hd.injOn hi hj (hname.trans hname'.symm)

/-- The name of an entry spells it exactly when the string of the entry ends with the name. -/
theorem Names.spelled_iff (h : fs.Names m fname i) : fs.Spelled m fname i ↔ fs.Ends m i := by
  obtain ⟨k, hk, hlen, hp, hnul⟩ := h
  constructor
  · rintro ⟨n, hn, -, hlen', -⟩
    exact ⟨n, hn, hlen'.2⟩
  · rintro ⟨n, hn, h0⟩
    have hne (j : ℕ) (hj : j < k) : m ((Dentry.fileName (fs.dentry i)).shift j) ≠ 0 :=
      hp j hj ▸ hlen.1 j hj
    have hkn : k ≤ n := by
      by_contra hlt
      exact hne n (by omega) h0
    refine ⟨k, hk, hlen, ⟨hne, ?_⟩, hp⟩
    rcases Nat.lt_or_eq_of_le hk with hlt | rfl
    · exact hnul hlt
    · rwa [Nat.le_antisymm hkn hn]

/-! ### The entry at which a search stops -/

section DentryNum

variable (hle : (fs.dentryNum m).toNat ≤ maxFileNumber)

include hle

theorem toNat_toInt_dentryNum : (fs.dentryNum m).toInt.toNat = (fs.dentryNum m).toNat := by
  rw [maxFileNumber] at hle
  rw [BitVec.toInt_eq_toNat_cond, if_pos (by omega), Int.toNat_natCast]

/-- A small `dentry_num` has a zero byte, so that every string of the image ends. -/
theorem exists_hasLength_of_dentryNum_le {p : Ptr β} (hp : p.blk = fs.bootblockHead.blk) :
    ∃ n, HasLength m p n := by
  rw [maxFileNumber] at hle
  have h0 : m (fs.bootblockHead.shift 1) = 0 :=
    byte_eq_zero_of_readWord_lt (Nat.lt_of_le_of_lt hle (by omega))
  exact exists_hasLength_of_blk (q := fs.bootblockHead.shift 1) hp.symm h0

/-- The search stops at the first entry that matches. -/
theorem lookup_eq_iff : fs.lookup m fname = some (some j) ↔
    j < (fs.dentryNum m).toNat ∧ fs.Matches m fname j ∧ ∀ k < j, ¬ fs.Matches m fname k := by
  rw [lookup, scanDentry_eq_some_some, toNat_toInt_dentryNum hle, Nat.zero_add]
  constructor
  · rintro ⟨-, hj, hm, hall⟩
    exact ⟨hj, hm, fun k hk hk' => hk'.not_differs (hall k (Nat.zero_le k) hk)⟩
  · rintro ⟨hj, hm, hall⟩
    refine ⟨Nat.zero_le j, hj, hm, fun k _ hk => ?_⟩
    obtain ⟨n, hn⟩ :=
      exists_hasLength_of_dentryNum_le hle (p := Dentry.fileName (fs.dentry k)) rfl
    exact ⟨n, hn, fun hp => hall k hk ⟨n, hn, hp⟩⟩

variable [DecidableEq β]

/-- The copy of an entry ends, and has its type, its inode and its string. -/
theorem Fillable.exists_copyDentry (h : fs.Fillable m mydentry)
    (hj : j < (fs.dentryNum m).toNat) : ∃ m' n, copyDentry mydentry (fs.dentry j) m = some m' ∧
      readWord m' (Dentry.fileType mydentry) = fs.entryType m j ∧
      readWord m' (Dentry.inodeIndex mydentry) = fs.entryInode m j ∧
      HasLength m (Dentry.fileName (fs.dentry j)) n ∧
      ∀ k ≤ n, m' ((Dentry.fileName mydentry).shift k) =
        m ((Dentry.fileName (fs.dentry j)).shift k) := by
  rcases h with hblk | hall
  · obtain ⟨n, hn⟩ := exists_hasLength_of_dentryNum_le hle (p := Dentry.fileName (fs.dentry j)) rfl
    obtain ⟨r, hr⟩ := exists_hasLength_of_dentryNum_le hle (p := Dentry.reserved (fs.dentry j)) rfl
    have hd : mydentry.blk ≠ (fs.dentry j).blk := hblk
    obtain ⟨m', hcopy⟩ := exists_copyDentry_of_blk_ne hd hn hr
    obtain ⟨-, htype, hinode⟩ := copyDentry_of_blk_ne hd hcopy
    exact ⟨m', n, hcopy, htype, hinode, hn, fun k => copyDentry_fileName_of_blk_ne hd hcopy hn⟩
  · obtain ⟨hterm, hd⟩ := hall j hj
    obtain ⟨n, hn, r, hr, hln, hlr⟩ := hterm.exists_length
    obtain ⟨m', hcopy, hc⟩ := Mp3Kernel.exists_copyDentry hn hr hln hlr hd
    refine ⟨m', n, hcopy, hc.readWord fun k hk => .inl (.inl (.inl hk)), ?_, hln, fun k hk => ?_⟩
    · exact hc.readWord fun k hk => .inl (.inl (.inr hk))
    · rw [Dentry.fileName, Dentry.fileName, Ptr.shift_zero, Ptr.shift_zero]
      exact hc.copied k (.inl (.inr ⟨Nat.zero_le k, Nat.lt_succ_of_le hk⟩))

variable [Inhabited β]

/-- **A search delivers the entry at which it stops**, or one with the same type and inode. -/
theorem yields_iff_of_lookup (h0 : fname ≠ Ptr.null) (h : fs.Fillable m mydentry)
    (hl : fs.lookup m fname = some (some j)) : fs.Yields m fname mydentry i ↔
      fs.entryType m j = fs.entryType m i ∧ fs.entryInode m j = fs.entryInode m i := by
  have hj := ((lookup_eq_iff hle).mp hl).1
  obtain ⟨m', -, hcopy, htype, hinode, -⟩ := h.exists_copyDentry hle hj
  obtain ⟨hjle, htoNat⟩ := lookup_lt hl
  have hread : fs.readDentryByName fname mydentry m = some (success, m') :=
    readDentryByName_of_copy h0 hl hjle (by rw [htoNat]; exact hcopy)
  rw [← htype, ← hinode]
  constructor
  · rintro ⟨m'', hread', hyields⟩
    obtain ⟨-, rfl⟩ := Prod.mk.inj (Option.some.inj (hread.symm.trans hread'))
    exact hyields
  · exact fun hyields => ⟨m', hread, hyields⟩

/-- A search succeeds when it stops at an entry. -/
theorem yields_iff_exists (h0 : fname ≠ Ptr.null) (h : fs.Fillable m mydentry) :
    fs.Yields m fname mydentry i ↔ ∃ j, fs.lookup m fname = some (some j) ∧
      fs.entryType m j = fs.entryType m i ∧ fs.entryInode m j = fs.entryInode m i := by
  constructor
  · intro hyields
    have ⟨_, hread, _⟩ := hyields
    rcases readDentryByName_eq_some h0 hread with ⟨-, hr⟩ | ⟨j, hc, -⟩
    · exact absurd hr (by decide)
    · exact ⟨j, hc.1, (yields_iff_of_lookup hle h0 h hc.1).mp hyields⟩
  · rintro ⟨j, hl, heq⟩
    exact (yields_iff_of_lookup hle h0 h hl).mpr heq

end DentryNum

/-- An entry agrees with the name of entry `i` when it is entry `i`, and its string ends with the
name, or when it shadows the name. -/
theorem DistinctNames.matches_iff (hd : fs.DistinctNames m) (hi : i < (fs.dentryNum m).toNat)
    (hj : j < (fs.dentryNum m).toNat) (hname : fs.Names m fname i) :
    fs.Matches m fname j ↔ (j = i ∧ fs.Ends m i) ∨ fs.Shadows m fname j := by
  have ⟨_, _, hl, _⟩ := hname
  constructor
  · intro hm
    rcases hm.spelled_or_shadows hl with hs | hs
    · obtain rfl := hd.eq_of_names hj hi hs.names hname
      exact .inl ⟨rfl, hname.spelled_iff.mp hs⟩
    · exact .inr hs
  · rintro (⟨rfl, hends⟩ | hs)
    · exact (hname.spelled_iff.mpr hends).matches
    · exact hs.matches

end FileSystem

/-! ### When a name finds its entry -/

/-- **A name finds its entry** exactly when the string of the entry ends with the name and no entry
before it shadows the name, or where the entry that is taken for it has the same type and inode. The
names are distinct and not empty. -/
theorem yields_iff [DecidableEq β] [Inhabited β] {fs : FileSystem β} {m : Mem β}
    {fname mydentry : Ptr β} {i : ℕ} (hd : fs.DistinctNames m) (hi : i < (fs.dentryNum m).toNat)
    (h0 : fname ≠ Ptr.null) (hname : fs.Names m fname i) (hfill : fs.Fillable m mydentry) :
    fs.Yields m fname mydentry i ↔
      (fs.Ends m i ∧ ∀ j < i, ¬ fs.Shadows m fname j) ∨
        ∃ j < (fs.dentryNum m).toNat, fs.Captures m fname i j ∧
          fs.entryType m j = fs.entryType m i ∧ fs.entryInode m j = fs.entryInode m i := by
  have hm {j : ℕ} (hj : j < (fs.dentryNum m).toNat) := hd.matches_iff hi hj hname
  rw [FileSystem.yields_iff_exists hd.dentryNum_le h0 hfill]
  simp only [FileSystem.lookup_eq_iff hd.dentryNum_le]
  constructor
  · rintro ⟨j, ⟨hj, hmj, hfirst⟩, heq⟩
    have hnone (k : ℕ) (hk : k < j) (hs : fs.Shadows m fname k) := hfirst k hk hs.matches
    rcases (hm hj).mp hmj with ⟨rfl, hends⟩ | hs
    · exact .inl ⟨hends, hnone⟩
    · refine .inr ⟨j, hj, ⟨hs, hnone, fun hends => ?_⟩, heq⟩
      rcases Nat.lt_trichotomy j i with hlt | rfl | hlt
      · exact hlt
      · exact absurd hname hs.not_names
      · exact absurd ((hm hi).mpr (.inl ⟨rfl, hends⟩)) (hfirst i hlt)
  · rintro (⟨hends, hnone⟩ | ⟨j, hj, ⟨hs, hfirst, hbefore⟩, heq⟩)
    · refine ⟨i, ⟨hi, (hm hi).mpr (.inl ⟨rfl, hends⟩), fun k hk hmk => ?_⟩, rfl, rfl⟩
      rcases (hm (hk.trans hi)).mp hmk with ⟨rfl, -⟩ | hs
      · exact Nat.lt_irrefl k hk
      · exact hnone k hk hs
    · refine ⟨j, ⟨hj, hs.matches, fun k hk hmk => ?_⟩, heq⟩
      rcases (hm (hk.trans hj)).mp hmk with ⟨rfl, hends⟩ | hs'
      · exact Nat.lt_asymm hk (hbefore hends)
      · exact hfirst k hk hs'

/-! ### A name that begins the next one -/

/-- The bytes that are not zero in a memory with an image of two empty regular files, `A` with inode
0 and `AB` with inode 1. In front of the image there is the string `AB`. -/
def prefixBytes : List (BitVec 32 × UInt8) :=
  [(0x800, 65), (0x801, 66), (0x1000, 2), (0x1004, 2), (0x1040, 65), (0x1060, 2),
    (0x1080, 65), (0x1081, 66), (0x10A0, 2), (0x10A4, 1)]

/-- The memory. -/
def prefixImage : Mem Unit := fun p => (prefixBytes.lookup p.off).getD 0

/-- The globals for the image. -/
def prefixFs : FileSystem Unit := filesystemInit sampleStart prefixImage

theorem dentryNum_prefixImage : (prefixFs.dentryNum prefixImage).toNat = 2 := by decide

theorem distinctNames_prefixImage : prefixFs.DistinctNames prefixImage where
  dentryNum_le := by decide
  nonempty := by
    rw [dentryNum_prefixImage]
    decide
  injOn := by
    have hne : Dentry.name prefixImage (prefixFs.dentry 0) ≠
        Dentry.name prefixImage (prefixFs.dentry 1) := by decide
    rw [dentryNum_prefixImage]
    intro i hi j hj hij
    obtain rfl | rfl := Nat.le_one_iff_eq_zero_or_eq_one.mp (Nat.le_of_lt_succ hi)
    · obtain rfl | rfl := Nat.le_one_iff_eq_zero_or_eq_one.mp (Nat.le_of_lt_succ hj)
      · rfl
      · exact absurd hij hne
    · obtain rfl | rfl := Nat.le_one_iff_eq_zero_or_eq_one.mp (Nat.le_of_lt_succ hj)
      · exact absurd hij.symm hne
      · rfl

theorem fillable_prefixImage : prefixFs.Fillable prefixImage sampleDentry := by
  refine .inr fun i hi => ⟨?_, ?_⟩
  · rw [dentryNum_prefixImage] at hi
    exact ⟨0, by decide, by revert i; decide⟩
  · rw [dentryNum_prefixImage] at hi
    have hentry : prefixFs.dentry i = sampleDentry.shift (0xC40 + 64 * i) := by
      revert i
      decide
    have h := Ptr.disjoint_span_shift (p := sampleDentry) (i := 0) (j := 0xC40 + 64 * i) (n := 64)
      (k := 64) (by omega) (by omega)
    rw [Ptr.shift_zero] at h
    rw [hentry]
    exact h.symm

/-- The entry `A` is found under its name. -/
theorem yields_prefixImage : prefixFs.Yields prefixImage (Dentry.fileName (prefixFs.dentry 0))
    sampleDentry 0 := by
  have hname : prefixFs.Names prefixImage (Dentry.fileName (prefixFs.dentry 0)) 0 :=
    ⟨1, by decide, ⟨by decide, by decide⟩, fun _ _ => rfl, fun _ => by decide⟩
  exact (yields_iff distinctNames_prefixImage (by decide) (by decide) hname
    fillable_prefixImage).mpr (.inl ⟨⟨1, by decide, by decide⟩, fun j hj => absurd hj (by omega)⟩)

/-- The name `AB` finds the entry `A`. -/
theorem lookup_prefix_name : ¬ ∀ (fs : FileSystem Unit) (m : Mem Unit), fs.DistinctNames m →
    ∀ i < (fs.dentryNum m).toNat, ∀ fname mydentry : Ptr Unit, fname ≠ Ptr.null →
      fs.Names m fname i → fs.Fillable m mydentry → fs.Yields m fname mydentry i := by
  intro hall
  have hd := distinctNames_prefixImage
  have hname : prefixFs.Names prefixImage sampleName 1 :=
    ⟨2, by decide, ⟨by decide, by decide⟩, by unfold IsPrefix; decide, fun _ => by decide⟩
  have hlookup : prefixFs.lookup prefixImage sampleName = some (some 0) :=
    (FileSystem.lookup_eq_iff hd.dentryNum_le).mpr ⟨by decide,
      ⟨1, ⟨by decide, by decide⟩, by unfold IsPrefix; decide⟩, fun k hk => absurd hk (by omega)⟩
  have hyields := hall prefixFs prefixImage hd 1 (by decide) sampleName sampleDentry (by decide)
    hname fillable_prefixImage
  have hinode := ((FileSystem.yields_iff_of_lookup hd.dentryNum_le (by decide)
    fillable_prefixImage hlookup).mp hyields).2
  revert hinode
  decide

end Mp3Kernel
