import Mp3Kernel.FileSystem.Directory

/-!
# The file system: reading a directory entry

`directory_read` delivers the name of an entry. It cuts the count to the length of the string that
`curdentry` holds, and only then looks up the entry, which replaces that string: what it delivers
depends on the file that was looked up before.

## Main definitions

* `FsCall.IsDriverCall`, `HistoryStep`: the earlier calls, which leave the boot block as it is.
* `FileSystem.listedLength`, `FileSystem.Lists`: what a call should deliver.
* `FileSystem.HeldSuffices`: the string in `curdentry` cuts the count as the name would.
* `HistoryFree`: the call delivers the same after two histories.

## Main results

* `FileSystem.lists_iff`: what one call needs.
* `historyFree_iff`: what the histories need.
* `first_listing_cut`: a call that delivers the first byte of a name only.

Source: `filesystem.c`, lines 121–200.
-/

namespace Mp3Kernel

open ByteMemory Transition

variable {β : Type}

/-! ### Histories -/

/-- The calls of the two drivers. -/
def FsCall.IsDriverCall : FsCall β → Prop
  | .fileOpen _ | .fileRead .. | .directoryOpen _ | .directoryRead .. => True
  | _ => False

/-- The calls of the drivers that leave the boot block as it is in the memory `m₀`. -/
def HistoryStep [DecidableEq β] [Inhabited β] (fs : FileSystem β) (m₀ : Mem β) :
    Mem β → FsCall β → Mem β → Prop :=
  Ensured (Guarded (fun _ c => c.IsDriverCall) (FsCall.Step fs))
    fun _ _ m => Set.EqOn m m₀ (fs.bootblockHead.span dataBlockSize)

namespace FileSystem

variable (fs : FileSystem β)

/-- The number of bytes that a call should deliver for entry `i`. -/
def listedLength (m : Mem β) (i : ℕ) (length : BitVec 32) : ℕ :=
  min (min length.toNat Dentry.fileNameLength) (Dentry.name m (fs.dentry i)).length

/-- The call delivers the name of entry `i`, as the memory `m₀` has it, in the memory `m`. -/
def Lists [DecidableEq β] [Inhabited β] (m₀ : Mem β) (i : ℕ) (fname : Ptr β) (offset : BitVec 32)
    (buf : Ptr β) (length : BitVec 32) (m : Mem β) (r : BitVec 32) : Prop :=
  ∃ m', fs.directoryRead fname offset buf length m = some (r, m') ∧
    r.toNat = fs.listedLength m₀ i length ∧
    bytesAt m' buf r.toNat = (Dentry.name m₀ (fs.dentry i)).take r.toNat

/-- The string that `curdentry` holds before the call cuts the count to the length of the name of
entry `i`; the string of the entry at which the search stops has as many bytes; and where it stops
at none, `curdentry` holds these bytes of the name. -/
def HeldSuffices (m : Mem β) (fname : Ptr β) (i : ℕ) (length : BitVec 32) : Prop :=
  ∃ h, HasLength m (Dentry.fileName fs.curdentry) h ∧
    min (min length.toNat Dentry.fileNameLength) h = fs.listedLength m i length ∧
    (∀ j, fs.lookup m fname = some (some j) →
      ∃ n, HasLength m (Dentry.fileName (fs.dentry j)) n ∧ fs.listedLength m i length ≤ n) ∧
    (fs.lookup m fname = some none →
      IsPrefix m (Dentry.fileName fs.curdentry) fname (fs.listedLength m i length))

/-- The count that such a call returns. -/
theorem Lists.toNat_eq [DecidableEq β] [Inhabited β] {fs : FileSystem β} {m₀ m : Mem β} {i : ℕ}
    {fname buf : Ptr β} {offset length r : BitVec 32}
    (h : fs.Lists m₀ i fname offset buf length m r) : r.toNat = fs.listedLength m₀ i length := by
  obtain ⟨m', -, hr, -⟩ := h
  exact hr

variable {fs} {m m' m₀ : Mem β} {i j n : ℕ} {fname buf : Ptr β} {offset length r : BitVec 32}

/-! ### The boot block -/

theorem span_dentry_subset_bootblock (hi : i < maxFileNumber) :
    (fs.dentry i).span Dentry.size ⊆ fs.bootblockHead.span dataBlockSize := by
  rw [maxFileNumber] at hi
  exact Ptr.span_shift_subset (by rw [Dentry.size, dataBlockSize]; omega)

section BootBlock

variable (hm : Set.EqOn m m₀ (fs.bootblockHead.span dataBlockSize))

include hm

theorem dentryNum_eq_of_bootblock : fs.dentryNum m = fs.dentryNum m₀ :=
  readWord_congr hm (Ptr.span_mono (by decide))

theorem name_eq_of_bootblock (hi : i < maxFileNumber) :
    Dentry.name m (fs.dentry i) = Dentry.name m₀ (fs.dentry i) := by
  have hbytes : bytesAt m (Dentry.fileName (fs.dentry i)) Dentry.fileNameLength =
      bytesAt m₀ (Dentry.fileName (fs.dentry i)) Dentry.fileNameLength := by
    refine bytesAt_eq_iff.mpr fun k hk => hm (span_dentry_subset_bootblock hi ?_)
    rw [Dentry.fileName, Ptr.shift_zero]
    exact Ptr.shift_mem_span (hk.trans (by decide))
  rw [Dentry.name, Dentry.name, hbytes]

theorem Fillable.congr_bootblock (hle : (fs.dentryNum m₀).toNat ≤ maxFileNumber) {mydentry : Ptr β}
    (h : fs.Fillable m₀ mydentry) : fs.Fillable m mydentry := by
  rcases h with hblk | hall
  · exact .inl hblk
  · refine .inr fun i hi => ?_
    rw [dentryNum_eq_of_bootblock hm] at hi
    obtain ⟨⟨k, hk, h0⟩, hd⟩ := hall i hi
    refine ⟨⟨k, hk, ?_⟩, hd⟩
    rw [hm (span_dentry_subset_bootblock (hi.trans_le hle) ?_)]
    · exact h0
    · rw [Dentry.reserved, Ptr.shift_shift]
      exact Ptr.shift_mem_span (by rw [Dentry.size]; omega)

theorem lists_congr_bootblock [DecidableEq β] [Inhabited β] {m' : Mem β} (hi : i < maxFileNumber) :
    fs.Lists m i fname offset buf length m' r ↔ fs.Lists m₀ i fname offset buf length m' r := by
  unfold Lists listedLength
  rw [name_eq_of_bootblock hm hi]

end BootBlock

/-! ### One call -/

/-- The count, cut twice. -/
theorem toNat_directoryLength (hlen : 0 ≤ length.toInt) (hn : n < 2 ^ 32) :
    (directoryLength length n).toNat = min (min length.toNat Dentry.fileNameLength) n := by
  have hcond := BitVec.toInt_eq_toNat_cond length
  have hlt := length.isLt
  have h32 : (BitVec.ofNat 32 Dentry.fileNameLength).toNat = 32 := rfl
  have h32' : (BitVec.ofNat 32 Dentry.fileNameLength).toInt = 32 := rfl
  have hn' : (BitVec.ofNat 32 n).toNat = n := by
    rw [BitVec.toNat_ofNat]
    omega
  rw [directoryLength, Dentry.fileNameLength]
  simp only [BitVec.slt_iff_toInt_lt, BitVec.lt_def]
  rw [Dentry.fileNameLength] at h32 h32'
  split_ifs at hcond ⊢ <;> simp only [h32, h32', hn'] at * <;> omega

/-- The search stops at no entry and leaves `curdentry` alone, or it stops at an entry and leaves
its string there. -/
theorem Fillable.exists_search [DecidableEq β] [Inhabited β] {mydentry : Ptr β}
    (h : fs.Fillable m mydentry) (hle : (fs.dentryNum m).toNat ≤ maxFileNumber)
    (h0 : fname ≠ Ptr.null) :
    ∃ r m₁, fs.readDentryByName fname mydentry m = some (r, m₁) ∧
      ((fs.lookup m fname = some none ∧ m₁ = m) ∨
        ∃ j n, fs.lookup m fname = some (some j) ∧ fs.Matches m fname j ∧
          HasLength m (Dentry.fileName (fs.dentry j)) n ∧
          ∀ k ≤ n, m₁ ((Dentry.fileName mydentry).shift k) =
            m ((Dentry.fileName (fs.dentry j)).shift k)) := by
  obtain ⟨o, hl⟩ : ∃ o, fs.lookup m fname = some o := exists_lookup_of_hasLength fname fun i =>
    exists_hasLength_of_dentryNum_le hle (p := Dentry.fileName (fs.dentry i)) rfl
  cases o with
  | none => exact ⟨failure, m, readDentryByName_of_missed (.inr hl), .inl ⟨hl, rfl⟩⟩
  | some j =>
    obtain ⟨hj, hmatches, -⟩ := (lookup_eq_iff hle).mp hl
    obtain ⟨hjle, htoNat⟩ := lookup_lt hl
    obtain ⟨m₁, n, hcopy, -, -, hn, hbytes⟩ := h.exists_copyDentry hle hj
    exact ⟨success, m₁, readDentryByName_of_copy h0 hl hjle (by rw [htoNat]; exact hcopy),
      .inr ⟨j, n, hl, hmatches, hn, hbytes⟩⟩

/-- The string left in `curdentry` begins with `c` bytes of the name looked up, when the entry found
has as many, or when `curdentry` held them before. -/
theorem search_spells_iff {m₁ : Mem β} {k c : ℕ} (hk : HasLength m fname k) (hc : c ≤ k)
    (hsearch : (fs.lookup m fname = some none ∧ m₁ = m) ∨
      ∃ j n, fs.lookup m fname = some (some j) ∧ fs.Matches m fname j ∧
        HasLength m (Dentry.fileName (fs.dentry j)) n ∧
        ∀ x ≤ n, m₁ ((Dentry.fileName fs.curdentry).shift x) =
          m ((Dentry.fileName (fs.dentry j)).shift x)) :
    (∀ x < c, m₁ ((Dentry.fileName fs.curdentry).shift x) = m (fname.shift x)) ↔
      (∀ j, fs.lookup m fname = some (some j) →
        ∃ n, HasLength m (Dentry.fileName (fs.dentry j)) n ∧ c ≤ n) ∧
      (fs.lookup m fname = some none →
        IsPrefix m (Dentry.fileName fs.curdentry) fname c) := by
  rcases hsearch with ⟨hl, rfl⟩ | ⟨j, n, hl, ⟨n', hn', hp⟩, hn, hbytes⟩
  · rw [hl]
    exact ⟨fun h => ⟨fun _ hj => (nomatch hj), fun _ => h⟩, fun h => h.2 rfl⟩
  · obtain rfl := hn'.unique hn
    rw [hl]
    constructor
    · intro h
      refine ⟨fun j' hj' => ?_, fun hnone => nomatch hnone⟩
      cases hj'
      refine ⟨n', hn, ?_⟩
      by_contra hlt
      -- The NUL of the string would be inside the name.
      have hzero := h n' (Nat.lt_of_not_le hlt)
      rw [hbytes n' le_rfl, hn.2] at hzero
      exact hk.1 n' (by omega) hzero.symm
    · rintro ⟨hfound, -⟩ x hx
      obtain ⟨n'', hn'', hcn⟩ := hfound j rfl
      obtain rfl := hn.unique hn''
      rw [hbytes x (by omega), hp x (by omega)]

/-- **One call** delivers the name of the entry if and only if the string that `curdentry` holds
suffices. -/
theorem lists_iff [DecidableEq β] [Inhabited β] (hle : (fs.dentryNum m).toNat ≤ maxFileNumber)
    (hfill : fs.Fillable m fs.curdentry) (h0 : fname ≠ Ptr.null) (hbuf : buf ≠ Ptr.null)
    (hd : Disjoint ((Dentry.fileName fs.curdentry).span Dentry.fileNameLength)
      (buf.span Dentry.fileNameLength))
    (hlen : 0 ≤ length.toInt) (hname : fs.Names m fname i) :
    (∃ r, fs.Lists m i fname offset buf length m r) ↔ fs.HeldSuffices m fname i length := by
  obtain ⟨k, hk, hnamed⟩ := hname.exists_bytesAt
  obtain ⟨r₀, m₁, hsearch, hfound⟩ := hfill.exists_search hle h0
  have hc : fs.listedLength m i length ≤ k := by
    rw [listedLength, hnamed, length_bytesAt]
    exact Nat.min_le_right ..
  -- The call, where `curdentry` holds a string.
  have hcall (h : ℕ) (hh : HasLength m (Dentry.fileName fs.curdentry) h) :
      fs.directoryRead fname offset buf length m = some (directoryLength length h,
        memcpy m₁ buf (Dentry.fileName fs.curdentry) (directoryLength length h).toNat) := by
    rw [directoryRead, if_neg hbuf, strlen_of_hasLength hh]
    exact Option.bind_eq_some_iff.mpr ⟨h, rfl, by rw [hsearch]; rfl⟩
  have hbytes (h : ℕ) (hh : HasLength m (Dentry.fileName fs.curdentry) h)
      (hr : (directoryLength length h).toNat = fs.listedLength m i length) :
      bytesAt (memcpy m₁ buf (Dentry.fileName fs.curdentry) (directoryLength length h).toNat) buf
          (directoryLength length h).toNat =
        (Dentry.name m (fs.dentry i)).take (directoryLength length h).toNat ↔
      ∀ x < fs.listedLength m i length,
        m₁ ((Dentry.fileName fs.curdentry).shift x) = m (fname.shift x) := by
    have h32 : (directoryLength length h).toNat ≤ Dentry.fileNameLength := by
      rw [toNat_directoryLength hlen hh.lt]
      omega
    have hcopied : Copied m₁ _ buf (Dentry.fileName fs.curdentry)
        (directoryLength length h).toNat :=
      copied_memcpy (by omega) (hd.mono (Ptr.span_mono h32) (Ptr.span_mono h32))
    rw [hr] at hcopied ⊢
    rw [hnamed, take_bytesAt _ _ hc, bytesAt_eq_iff]
    exact forall₂_congr fun x hx => by rw [hcopied.copied x hx]
  constructor
  · rintro ⟨r, m', hread, hr, hstored⟩
    have hread' := hread
    rw [directoryRead, if_neg hbuf] at hread'
    obtain ⟨h, hstrlen, -⟩ := Option.bind_eq_some_iff.mp hread'
    have hh := strlen_eq_some_iff.mp hstrlen
    obtain ⟨rfl, rfl⟩ := Prod.mk.inj (Option.some.inj ((hcall h hh).symm.trans hread))
    refine ⟨h, hh, ?_, (search_spells_iff hk hc hfound).mp ((hbytes h hh hr).mp hstored)⟩
    rw [← toNat_directoryLength hlen hh.lt, hr]
  · rintro ⟨h, hh, hmin, hspells⟩
    have hr : (directoryLength length h).toNat = fs.listedLength m i length := by
      rw [toNat_directoryLength hlen hh.lt, hmin]
    exact ⟨_, _, hcall h hh, hr,
      (hbytes h hh hr).mpr ((search_spells_iff hk hc hfound).mpr hspells)⟩

end FileSystem

/-! ### Two histories -/

section Histories

variable [DecidableEq β] [Inhabited β] (fs : FileSystem β)

/-- The call delivers the name of entry `i`, as the memory `m₀` has it, after both histories. -/
def HistoryFree (m₀ : Mem β) (i : ℕ) (fname : Ptr β) (offset : BitVec 32) (buf : Ptr β)
    (length : BitVec 32) (m₁ m₂ : Mem β) : Prop :=
  ∃ r, fs.Lists m₀ i fname offset buf length m₁ r ∧ fs.Lists m₀ i fname offset buf length m₂ r

variable {fs} {m₀ m m₁ m₂ : Mem β} {calls calls₁ calls₂ : List (FsCall β)} {i : ℕ}
  {fname buf : Ptr β} {length : BitVec 32}

/-- A history leaves the boot block as it was. -/
theorem HistoryStep.eqOn_bootblock (h : Run (HistoryStep fs m₀) m₀ calls m) :
    Set.EqOn m m₀ (fs.bootblockHead.span dataBlockSize) :=
  h.invariant (P := fun m => Set.EqOn m m₀ (fs.bootblockHead.span dataBlockSize))
    (fun _ _ _ _ hs => hs.2) (Set.eqOn_refl ..)

/-- The call after one history. -/
theorem HistoryStep.lists_iff (offset : BitVec 32) (h : Run (HistoryStep fs m₀) m₀ calls m)
    (hle : (fs.dentryNum m₀).toNat ≤ maxFileNumber) (hfill : fs.Fillable m₀ fs.curdentry)
    (hi : i < (fs.dentryNum m₀).toNat) (h0 : fname ≠ Ptr.null) (hbuf : buf ≠ Ptr.null)
    (hd : Disjoint ((Dentry.fileName fs.curdentry).span Dentry.fileNameLength)
      (buf.span Dentry.fileNameLength))
    (hlen : 0 ≤ length.toInt) (hname : fs.Names m fname i) :
    (∃ r, fs.Lists m₀ i fname offset buf length m r) ↔ fs.HeldSuffices m fname i length := by
  have hm := HistoryStep.eqOn_bootblock h
  rw [← FileSystem.lists_iff (by rwa [FileSystem.dentryNum_eq_of_bootblock hm])
    (FileSystem.Fillable.congr_bootblock hm hle hfill) h0 hbuf hd hlen hname]
  exact exists_congr fun r => (FileSystem.lists_congr_bootblock hm (hi.trans_le hle)).symm

end Histories

/-- **The histories do not matter** if and only if, after each of them, the string that `curdentry`
holds suffices. -/
theorem historyFree_iff [DecidableEq β] [Inhabited β] {fs : FileSystem β} {m₀ m₁ m₂ : Mem β}
    {calls₁ calls₂ : List (FsCall β)} {i : ℕ} {fname buf : Ptr β} (offset : BitVec 32)
    {length : BitVec 32} (hle : (fs.dentryNum m₀).toNat ≤ maxFileNumber)
    (hfill : fs.Fillable m₀ fs.curdentry) (hi : i < (fs.dentryNum m₀).toNat)
    (h0 : fname ≠ Ptr.null) (hbuf : buf ≠ Ptr.null)
    (hd : Disjoint ((Dentry.fileName fs.curdentry).span Dentry.fileNameLength)
      (buf.span Dentry.fileNameLength))
    (hlen : 0 ≤ length.toInt) (h₁ : Run (HistoryStep fs m₀) m₀ calls₁ m₁)
    (h₂ : Run (HistoryStep fs m₀) m₀ calls₂ m₂) (hname₁ : fs.Names m₁ fname i)
    (hname₂ : fs.Names m₂ fname i) :
    HistoryFree fs m₀ i fname offset buf length m₁ m₂ ↔
      fs.HeldSuffices m₁ fname i length ∧ fs.HeldSuffices m₂ fname i length := by
  rw [← HistoryStep.lists_iff offset h₁ hle hfill hi h0 hbuf hd hlen hname₁,
    ← HistoryStep.lists_iff offset h₂ hle hfill hi h0 hbuf hd hlen hname₂]
  constructor
  · rintro ⟨r, hl₁, hl₂⟩
    exact ⟨⟨r, hl₁⟩, ⟨r, hl₂⟩⟩
  · rintro ⟨⟨r, hl₁⟩, ⟨r', hl₂⟩⟩
    obtain rfl : r = r' := BitVec.eq_of_toNat_eq (hl₁.toNat_eq.trans hl₂.toNat_eq.symm)
    exact ⟨r, hl₁, hl₂⟩

/-! ### The first listing -/

/-- The entries of an image can be copied to its header, where `filesystem_init` lets `curdentry`
point. -/
theorem FileSystem.fillable_curdentry (modstart : Ptr β) {m : Mem β}
    (hle : ((filesystemInit modstart m).dentryNum m).toNat ≤ maxFileNumber)
    (hterm : ∀ i < ((filesystemInit modstart m).dentryNum m).toNat,
      Dentry.Terminated m ((filesystemInit modstart m).dentry i)) :
    (filesystemInit modstart m).Fillable m (filesystemInit modstart m).curdentry := by
  refine .inr fun i hi => ⟨hterm i hi, ?_⟩
  have hlt := hi.trans_le hle
  rw [maxFileNumber] at hlt
  have hd := Ptr.disjoint_span_shift (p := modstart) (i := 0) (j := 64 + Dentry.size * i)
    (n := Dentry.size) (k := Dentry.size) (by rw [Dentry.size]; omega) (by rw [Dentry.size]; omega)
  rw [Ptr.shift_zero] at hd
  exact hd.symm

/-- The one entry of a sample image, when its first reserved byte is zero. -/
theorem fillable_of_one {m : Mem Unit}
    (hnum : ((filesystemInit sampleStart m).dentryNum m).toNat = 1)
    (h0 : m ((Dentry.reserved (sampleStart.shift 64)).shift 0) = 0) :
    (filesystemInit sampleStart m).Fillable m (filesystemInit sampleStart m).curdentry := by
  refine FileSystem.fillable_curdentry sampleStart (hnum.trans_le (by decide)) fun i hi => ?_
  obtain rfl : i = 0 := by omega
  exact ⟨0, by decide, h0⟩

/-- The header of a sample image does not meet the buffer. -/
theorem disjoint_header_buffer :
    Disjoint ((Dentry.fileName sampleStart).span Dentry.fileNameLength)
      (sampleDentry.span Dentry.fileNameLength) := by
  have h := Ptr.disjoint_span_shift (p := sampleDentry) (i := 0) (j := 0xc00) (n := 32) (k := 32)
    (by decide) (by decide)
  rw [Ptr.shift_zero] at h
  exact h.symm

/-- A place for `curdentry` outside the image. -/
def heldDentry : Ptr Unit := ⟨(), 0x500⟩

/-- The globals for the image of the file `A`, with `curdentry` there. -/
def heldFs : FileSystem Unit := { sampleFs with curdentry := heldDentry }

/-- The image of the file `A`, where `curdentry` holds the string `Z`. -/
def heldImage : Mem Unit := fun p => if p = heldDentry then 90 else sampleImage p

section Held

variable {m : Mem Unit} (hm : Set.EqOn m heldImage (heldDentry.span 64)ᶜ)

include hm

theorem heldImage_byte {p : Ptr Unit} (hp : ¬ (p.off - heldDentry.off).toNat < 64) :
    m p = heldImage p :=
  hm fun hin => hp hin.2

theorem heldImage_bootblock :
    Set.EqOn m heldImage (heldFs.bootblockHead.span dataBlockSize) := by
  have h := Ptr.disjoint_span_shift (p := heldDentry) (i := 0) (j := 0xb00) (n := 64) (k := 4096)
    (by decide) (by decide)
  rw [Ptr.shift_zero] at h
  exact hm.mono (Set.subset_compl_iff_disjoint_left.mpr h)

theorem hasLength_heldImage : HasLength m (Dentry.fileName (heldFs.dentry 0)) 1 := by
  have hlen : HasLength heldImage (Dentry.fileName (heldFs.dentry 0)) 1 := ⟨by decide, by decide⟩
  refine hlen.congr fun k hk => heldImage_byte hm ?_
  obtain rfl | rfl := Nat.le_one_iff_eq_zero_or_eq_one.mp hk
  · decide
  · decide

theorem isPrefix_heldImage : IsPrefix m sampleName (Dentry.fileName (heldFs.dentry 0)) 1 := by
  intro k hk
  obtain rfl : k = 0 := by omega
  rw [heldImage_byte hm (by decide), heldImage_byte hm (by decide)]
  decide

theorem names_heldImage : heldFs.Names m sampleName 0 := by
  have hname : HasLength m sampleName 1 := by
    have hlen : HasLength heldImage sampleName 1 := ⟨by decide, by decide⟩
    refine hlen.congr fun k hk => heldImage_byte hm ?_
    obtain rfl | rfl := Nat.le_one_iff_eq_zero_or_eq_one.mp hk
    · decide
    · decide
  exact ⟨1, by decide, hname, isPrefix_heldImage hm, fun _ => (hasLength_heldImage hm).2⟩

theorem lookup_heldImage : heldFs.lookup m sampleName = some (some 0) := by
  have hnum : heldFs.dentryNum m = heldFs.dentryNum heldImage :=
    FileSystem.dentryNum_eq_of_bootblock (heldImage_bootblock hm)
  refine FileSystem.scanDentry_eq_some_some.mpr ⟨le_rfl, ?_,
    ⟨1, hasLength_heldImage hm, isPrefix_heldImage hm⟩, fun k _ hk => absurd hk (Nat.not_lt_zero k)⟩
  rw [hnum]
  decide

/-- A string of one byte at `curdentry` suffices. -/
theorem heldSuffices_heldImage (hheld : HasLength m (Dentry.fileName heldDentry) 1) :
    heldFs.HeldSuffices m sampleName 0 4 := by
  have hlist : heldFs.listedLength m 0 4 = 1 := by
    rw [FileSystem.listedLength, FileSystem.name_eq_of_bootblock (heldImage_bootblock hm)
      (by decide)]
    decide
  refine ⟨1, hheld, by rw [hlist]; decide, fun j hj => ?_, fun hnone => ?_⟩
  · obtain rfl : 0 = j := Option.some.inj (Option.some.inj ((lookup_heldImage hm).symm.trans hj))
    exact ⟨1, hasLength_heldImage hm, hlist.le⟩
  · exact nomatch (lookup_heldImage hm).symm.trans hnone

end Held

/-- A history that fills `curdentry`, and one that does nothing. -/
theorem historyFree_sample : ∃ m, Run (HistoryStep heldFs heldImage) heldImage
      [.fileOpen sampleName] m ∧ m heldDentry = 65 ∧ heldImage heldDentry = 90 ∧
    HistoryFree heldFs heldImage 0 sampleName 0 sampleDentry 4 m heldImage := by
  have hrefl : Set.EqOn heldImage heldImage (heldDentry.span 64)ᶜ := Set.eqOn_refl ..
  have hreserved : HasLength heldImage (Dentry.reserved (heldFs.dentry 0)) 0 :=
    ⟨by decide, by decide⟩
  have hd {j n k : ℕ} (hj : n ≤ j) (hk : j + k ≤ 2 ^ 32) :
      Disjoint (heldDentry.span n) ((heldDentry.shift j).span k) := by
    have h := Ptr.disjoint_span_shift (p := heldDentry) (i := 0) (n := n) (by omega) hk
    rwa [Ptr.shift_zero] at h
  have hentry : Disjoint ((heldFs.dentry 0).span 64) (heldDentry.span 64) :=
    (hd (j := 0xb40) (by decide) (by decide)).symm
  obtain ⟨m, hcopy, hc⟩ := FileSystem.exists_readDentryByName (by decide)
    (lookup_heldImage hrefl) (by decide) (by decide) (hasLength_heldImage hrefl) hreserved hentry
  have hm : Set.EqOn m heldImage (heldDentry.span 64)ᶜ :=
    hc.eqOn_span (copiedPositions_subset (by decide) (by decide))
  have hbyte (k : ℕ) (hk : k < 2) : m (heldDentry.shift k) =
      heldImage ((heldFs.dentry 0).shift k) :=
    hc.copied k (.inl (.inr ⟨Nat.zero_le k, hk⟩))
  have hopen : HistoryStep heldFs heldImage heldImage (.fileOpen sampleName) m := by
    refine ⟨⟨trivial, success, ?_⟩, heldImage_bootblock hm⟩
    rw [FsCall.run, FileSystem.fileOpen, if_neg (by decide)]
    exact hcopy
  have hfirst : m heldDentry = 65 := by
    have h := hbyte 0 (by decide)
    rw [Ptr.shift_zero] at h
    exact h.trans (by decide)
  have hheld : HasLength m (Dentry.fileName heldDentry) 1 := by
    refine ⟨fun k hk => ?_, (hbyte 1 (by decide)).trans (by decide)⟩
    obtain rfl : k = 0 := by omega
    refine (hbyte 0 (by decide)).trans_ne ?_
    decide
  have hfill : heldFs.Fillable heldImage heldFs.curdentry := by
    refine .inr fun i hi => ?_
    obtain rfl : i = 0 := Nat.lt_one_iff.mp hi
    exact ⟨⟨0, by decide, by decide⟩, hentry⟩
  have hbuf : Disjoint ((Dentry.fileName heldDentry).span Dentry.fileNameLength)
      (sampleDentry.span Dentry.fileNameLength) := by
    have h := Ptr.disjoint_span_shift (p := sampleDentry) (i := 0) (j := 0x100) (n := 32) (k := 32)
      (by decide) (by decide)
    rw [Ptr.shift_zero] at h
    exact h.symm
  refine ⟨m, .single hopen, hfirst, by decide, ?_⟩
  exact (historyFree_iff 0 (by decide) hfill (by decide) (by decide) (by decide) hbuf (by decide)
    (.single hopen) (.nil _) (names_heldImage hm) (names_heldImage hrefl)).mpr
      ⟨heldSuffices_heldImage hm hheld,
        heldSuffices_heldImage hrefl ⟨by decide, by decide⟩⟩

/-- The bytes that are not zero in a memory with an image of one empty regular file `AB`. In front
of the image there is the string `AB`. -/
def pairBytes : List (BitVec 32 × UInt8) :=
  [(0x800, 65), (0x801, 66), (0x1000, 1), (0x1004, 1), (0x1040, 65), (0x1041, 66), (0x1060, 2)]

/-- The memory. -/
def pairImage : Mem Unit := fun p => (pairBytes.lookup p.off).getD 0

/-- The globals for the image. -/
def pairFs : FileSystem Unit := filesystemInit sampleStart pairImage

/-- The first call after `filesystem_init` delivers one byte of the name `AB`: the header, to which
`curdentry` points, holds the number 1. -/
theorem first_listing_cut : ¬ ∀ (fs : FileSystem Unit) (m₀ : Mem Unit),
    (fs.dentryNum m₀).toNat ≤ maxFileNumber → fs.Fillable m₀ fs.curdentry →
      ∀ i < (fs.dentryNum m₀).toNat, ∀ (fname buf : Ptr Unit) (offset length : BitVec 32),
        fname ≠ Ptr.null → buf ≠ Ptr.null →
        Disjoint ((Dentry.fileName fs.curdentry).span Dentry.fileNameLength)
          (buf.span Dentry.fileNameLength) → 0 ≤ length.toInt →
        ∀ (calls₁ calls₂ : List (FsCall Unit)) (m₁ m₂ : Mem Unit),
          Run (HistoryStep fs m₀) m₀ calls₁ m₁ → Run (HistoryStep fs m₀) m₀ calls₂ m₂ →
            fs.Names m₁ fname i → fs.Names m₂ fname i →
              HistoryFree fs m₀ i fname offset buf length m₁ m₂ := by
  intro hall
  have hfill := fillable_of_one (m := pairImage) (by decide) (by decide)
  have hname : pairFs.Names pairImage sampleName 0 :=
    ⟨2, by decide, ⟨by decide, by decide⟩, by unfold IsPrefix; decide, fun _ => by decide⟩
  obtain ⟨r, hlists, -⟩ := hall pairFs pairImage (by decide) hfill 0 (by decide) sampleName
    sampleDentry 0 32 (by decide) (by decide) disjoint_header_buffer (by decide) [] [] pairImage
    pairImage (.nil _) (.nil _) hname hname
  obtain ⟨h, hh, hmin, -⟩ := (FileSystem.lists_iff (by decide) hfill (by decide) (by decide)
    disjoint_header_buffer (by decide) hname).mp ⟨r, hlists⟩
  obtain rfl : 1 = h := HasLength.unique ⟨by decide, by decide⟩ hh
  exact absurd hmin (by decide)

end Mp3Kernel
