import Mp3Kernel.FileSystem.Drivers
import Mp3Kernel.Transition.Run

/-!
# The file system: runs of calls and the image

The image is meant to be read-only: the write calls of both drivers only fail. The searches of
the drivers, however, fill `curdentry`, and `filesystem_init` points it at the start of the
image, so that every driver call that finds its name copies the entry over the header of the
boot block. This file has the runs of the calls of the file system, and when they keep the
image.

## Main definitions

* `FsCall`, `FsCall.run`, `FsCall.output`: the calls, their effect, the caller's buffer.
* `FsCall.KeepsImage`: the call does not take a path that stores into the image.

## Main results

* `image_unchanged`: a run whose calls satisfy `FsCall.KeepsImage` leaves the image as
  `filesystem_init` found it.
* `fileOpen_overwrites_header`: one call of `file_open` that finds its name does not.

Source: `filesystem.c`, lines 22–211.
-/

namespace Mp3Kernel

open ByteMemory Transition

variable {β : Type}

/-! ### Calls -/

/-- The calls of the file system that reach the image. -/
inductive FsCall (β : Type)
  /-- `read_dentry_by_name`. -/
  | readDentryByName (fname mydentry : Ptr β)
  /-- `read_dentry_by_index`. -/
  | readDentryByIndex (index : BitVec 32) (mydentry : Ptr β)
  /-- `read_data`. -/
  | readData (inode offset : BitVec 32) (buf : Ptr β) (length : BitVec 32)
  /-- `file_open`. -/
  | fileOpen (fname : Ptr β)
  /-- `file_read`. -/
  | fileRead (fname : Ptr β) (offset : BitVec 32) (buf : Ptr β) (length : BitVec 32)
  /-- `directory_open`. -/
  | directoryOpen (fname : Ptr β)
  /-- `directory_read`. -/
  | directoryRead (fname : Ptr β) (offset : BitVec 32) (buf : Ptr β) (length : BitVec 32)

namespace FsCall

variable (fs : FileSystem β)

/-- The buffer that the caller gives for the result. -/
def output : FsCall β → Set (Ptr β)
  | readDentryByName _ mydentry => mydentry.span Dentry.size
  | readDentryByIndex _ mydentry => mydentry.span Dentry.size
  | readData _ _ buf length => buf.span length.toNat
  | fileOpen _ => ∅
  | fileRead _ _ buf length => buf.span length.toNat
  | directoryOpen _ => ∅
  | directoryRead _ _ buf length => buf.span length.toNat

variable [DecidableEq β] [Inhabited β]

/-- The result of a call and the memory after it; `none` when the call never ends. -/
def run : FsCall β → Mem β → Option (BitVec 32 × Mem β)
  | readDentryByName fname mydentry, m => fs.readDentryByName fname mydentry m
  | readDentryByIndex index mydentry, m => fs.readDentryByIndex index mydentry m
  | readData inode offset buf length, m => some (fs.readData inode offset buf length m)
  | fileOpen fname, m => fs.fileOpen fname m
  | fileRead fname offset buf length, m => fs.fileRead fname offset buf length m
  | directoryOpen fname, m => fs.directoryOpen fname m
  | directoryRead fname offset buf length, m => fs.directoryRead fname offset buf length m

/-- A call that ends, as a step of the memory. -/
def Step (m : Mem β) (c : FsCall β) (m' : Mem β) : Prop := ∃ r, c.run fs m = some (r, m')

omit [DecidableEq β] in
/-- The call does not take a path that stores into the region `I`, the image: a search into the
caller's entry finds an entry that fits, and a search into `curdentry` finds nothing. -/
def KeepsImage (I : Set (Ptr β)) (m : Mem β) : FsCall β → Prop
  | readDentryByName fname mydentry => fname ≠ Ptr.null → ∀ i, fs.lookup m fname = some (some i) →
      BitVec.ofNat 32 i ≤ fs.dentryNum m →
        FileSystem.CopyFits m I mydentry (fs.dentry (BitVec.ofNat 32 i).toNat)
  | readDentryByIndex index mydentry =>
      index ≤ fs.dentryNum m → FileSystem.CopyFits m I mydentry (fs.dentry index.toNat)
  | readData .. => True
  | fileOpen fname => fs.Misses m fname
  | fileRead fname .. => fs.bootblockHead = Ptr.null ∨ fs.Misses m fname
  | directoryOpen fname => fs.Misses m fname
  | directoryRead fname _ buf _ => buf = Ptr.null ∨ fs.Misses m fname

variable {fs} {m m' : Mem β} {I : Set (Ptr β)}

/-- One call keeps the image. -/
theorem Step.eqOn {c : FsCall β} (hout : Disjoint c.output I) (hok : c.KeepsImage fs I m)
    (h : Step fs m c m') : Set.EqOn m' m I := by
  obtain ⟨r, h⟩ := h
  cases c with
  | readDentryByName fname mydentry => exact FileSystem.readDentryByName_eqOn hok h
  | readDentryByIndex index mydentry => exact FileSystem.readDentryByIndex_eqOn hok h
  | readData inode offset buf length =>
    obtain rfl : (fs.readData inode offset buf length m).2 = m' := by
      rw [run, Option.some.injEq] at h
      rw [h]
    exact (FileSystem.readData_eqOn ..).mono (Set.subset_compl_iff_disjoint_left.mpr hout)
  | fileOpen fname =>
    rw [FileSystem.fileOpen_of_misses hok h]
    exact Set.eqOn_refl ..
  | fileRead fname offset buf length =>
    rw [FileSystem.fileRead_of_misses hok h]
    exact Set.eqOn_refl ..
  | directoryOpen fname =>
    rw [FileSystem.directoryOpen_of_misses hok h]
    exact Set.eqOn_refl ..
  | directoryRead fname offset buf length =>
    exact (FileSystem.directoryRead_eqOn offset hok h).mono
      (Set.subset_compl_iff_disjoint_left.mpr hout)

end FsCall

/-! ### Runs -/

variable [DecidableEq β] [Inhabited β]

/-- The steps of the calls whose output buffer lies outside the image at `modstart`, as
`filesystem_init` found it in the memory `m₀`. -/
def FsStep (modstart : Ptr β) (m₀ : Mem β) : Mem β → FsCall β → Mem β → Prop :=
  let fs := filesystemInit modstart m₀
  Guarded (fun _ c => Disjoint c.output (fs.image m₀)) (FsCall.Step fs)

/-- Those of the steps whose call keeps the image. -/
def KeepingStep (modstart : Ptr β) (m₀ : Mem β) : Mem β → FsCall β → Mem β → Prop :=
  let fs := filesystemInit modstart m₀
  Guarded (fun m c => c.KeepsImage fs (fs.image m₀) m) (FsStep modstart m₀)

/-- **The image is kept** by every run of calls none of which takes a path that stores into it:
no driver call finds its name, and every entry that `read_dentry_by_name` and
`read_dentry_by_index` copy fits. -/
theorem image_unchanged (modstart : Ptr β) (m₀ : Mem β) {calls : List (FsCall β)} {m : Mem β}
    (h : Run (KeepingStep modstart m₀) m₀ calls m) :
    Set.EqOn m m₀ ((filesystemInit modstart m₀).image m₀) :=
  h.invariant (P := fun m => Set.EqOn m m₀ ((filesystemInit modstart m₀).image m₀))
    (fun _ _ _ hm hs => (hs.2.2.eqOn hs.2.1 hs.1).trans hm) (Set.eqOn_refl ..)

/-! ### An image with one file -/

/-- Where the sample image starts. -/
def sampleStart : Ptr Unit := ⟨(), 0x1000⟩

/-- A place outside the sample image that holds the name `A`. -/
def sampleName : Ptr Unit := ⟨(), 0x800⟩

/-- A memory with an image of one directory entry, the empty regular file `A`, one index node and
no data block. -/
def sampleImage : Mem Unit := fun p =>
  if p = sampleStart ∨ p = sampleStart.shift 4 then 1
  else if p = sampleStart.shift 64 ∨ p = sampleName then 65
  else if p = sampleStart.shift 96 then 2
  else 0

/-- The image with one data block, and with the byte `B` in the file. -/
def byteImage : Mem Unit := fun p =>
  if p = sampleStart.shift 8 ∨ p = sampleStart.shift 4096 then 1
  else if p = sampleStart.shift 8192 then 66
  else sampleImage p

/-- The file is read, and its entry is copied to the caller. -/
theorem image_unchanged_sample :
    ∃ m, Run (KeepingStep sampleStart byteImage) byteImage
        [.readData 0 0 ⟨(), 0x400⟩ 4, .readDentryByName sampleName ⟨(), 0x500⟩] m ∧
      m ⟨(), 0x400⟩ = 66 ∧ readWord m (Dentry.fileType ⟨(), 0x500⟩) = 2#32 ∧
      Set.EqOn m byteImage ((filesystemInit sampleStart byteImage).image byteImage) := by
  set fs := filesystemInit sampleStart byteImage with hfs
  -- The image lies behind the two buffers.
  have hout {p : Ptr Unit} {i n : ℕ} (hp : sampleStart = p.shift i) (hn : n ≤ i)
      (hi : i ≤ 0xc00) : Disjoint (p.span n) (fs.image byteImage) := by
    have h := Ptr.disjoint_span_shift (p := p) (i := 0) (j := i) (n := n) (k := 12288)
      (by omega) (by omega)
    rw [Ptr.shift_zero, ← hp] at h
    exact h
  have hbuf := hout (p := ⟨(), 0x400⟩) (i := 0xc00) (n := 4) (by decide) (by decide) le_rfl
  have hentry := hout (p := ⟨(), 0x500⟩) (i := 0xb00) (n := 64) (by decide) (by decide) (by decide)
  set m₁ := (fs.readData 0 0 ⟨(), 0x400⟩ 4 byteImage).2 with hm₁
  have hread : KeepingStep sampleStart byteImage byteImage (.readData 0 0 ⟨(), 0x400⟩ 4) m₁ :=
    ⟨trivial, hbuf, (fs.readData 0 0 ⟨(), 0x400⟩ 4 byteImage).1, by rw [FsCall.run]⟩
  have hname : HasLength m₁ (Dentry.fileName (fs.dentry 0)) 1 := ⟨by decide, by decide⟩
  have hreserved : HasLength m₁ (Dentry.reserved (fs.dentry 0)) 0 := ⟨by decide, by decide⟩
  have hl : fs.lookup m₁ sampleName = some (some 0) :=
    FileSystem.scanDentry_eq_some_some.mpr ⟨le_rfl, by decide,
      ⟨1, hname, by unfold IsPrefix; decide⟩, fun k _ hk => absurd hk (Nat.not_lt_zero k)⟩
  have hinside : (fs.dentry 0).span 64 ⊆ fs.image byteImage :=
    Ptr.span_shift_subset (p := sampleStart) (i := 64) (by decide)
  obtain ⟨m, hcopy, hc⟩ := FileSystem.exists_readDentryByName (by decide) hl (by decide)
    (by decide) hname hreserved (hentry.symm.mono_left hinside)
  have hsearch : KeepingStep sampleStart byteImage m₁ (.readDentryByName sampleName ⟨(), 0x500⟩)
      m := by
    refine ⟨fun _ i hi _ => ?_, hentry, success, hcopy⟩
    obtain rfl : 0 = i := Option.some.inj (Option.some.inj (hl.symm.trans hi))
    have hstored : FileSystem.storedBytes (⟨(), 0x500⟩ : Ptr Unit) 1 0 ⊆
        (⟨(), 0x500⟩ : Ptr Unit).span 64 :=
      Set.union_subset (Set.union_subset subset_rfl (Ptr.span_shift_subset (by decide)))
        (Ptr.span_shift_subset (by decide))
    have hstrings : FileSystem.stringBytes (fs.dentry 0) 1 0 ⊆ fs.image byteImage :=
      Set.union_subset ((Ptr.span_shift_subset (by decide)).trans hinside)
        ((Ptr.span_shift_subset (by decide)).trans hinside)
    exact ⟨1, 0, hname, hreserved,
      hentry.symm.mono (Set.union_subset subset_rfl hstrings) hstored⟩
  have hrun := Run.cons hread (Run.single hsearch)
  refine ⟨m, hrun, ?_, ?_, image_unchanged sampleStart byteImage hrun⟩
  · refine (hc.eqOn_span (copiedPositions_subset (by decide) (by decide)) ?_).trans ?_
    · exact fun hin => absurd hin.2 (by decide)
    · decide
  · exact (hc.readWord (a := 32) fun x hx => .inl (.inl (.inl hx))).trans (by decide)

theorem lookup_sampleName :
    (filesystemInit sampleStart sampleImage).lookup sampleImage sampleName = some (some 0) := by
  refine FileSystem.scanDentry_eq_some_some.mpr
    ⟨le_rfl, by decide, ⟨1, ⟨?_, by decide⟩, ?_⟩, fun k _ hk => absurd hk (Nat.not_lt_zero k)⟩
  · intro k hk
    obtain rfl : k = 0 := by omega
    decide
  · intro k hk
    obtain rfl : k = 0 := by omega
    decide

/-- `file_open` of a file that exists stores the file's name over `dentry_num`. -/
theorem fileOpen_overwrites_header :
    ¬ ∀ m, Run (FsStep sampleStart sampleImage) sampleImage [.fileOpen sampleName] m →
      Set.EqOn m sampleImage ((filesystemInit sampleStart sampleImage).image sampleImage) := by
  intro hall
  have hname : HasLength sampleImage (Dentry.fileName (sampleStart.shift 64)) 1 := by
    refine ⟨fun k hk => ?_, by decide⟩
    obtain rfl : k = 0 := by omega
    decide
  have hreserved : HasLength sampleImage (Dentry.reserved (sampleStart.shift 64)) 0 :=
    ⟨fun k hk => absurd hk (Nat.not_lt_zero k), by decide⟩
  have hd : Disjoint ((sampleStart.shift 64).span 64) (sampleStart.span 64) := by
    have h := Ptr.disjoint_span_shift (p := sampleStart) (i := 0) (j := 64) (n := 64) (k := 64)
      (by decide) (by decide)
    rw [Ptr.shift_zero] at h
    exact h.symm
  obtain ⟨m, hm, hc⟩ := exists_copyDentry (by decide) (by decide) hname hreserved hd
  have hopen : (filesystemInit sampleStart sampleImage).fileOpen sampleName sampleImage =
      some (success, m) := by
    rw [FileSystem.fileOpen, if_neg (by decide)]
    exact FileSystem.readDentryByName_of_copy (by decide) lookup_sampleName (by decide) hm
  have hrun : Run (FsStep sampleStart sampleImage) sampleImage [.fileOpen sampleName] m :=
    .single ⟨disjoint_bot_left, success, hopen⟩
  have hstart : m sampleStart = 65 := by
    have h := hc.copied 0 (by simp [copiedPositions])
    rwa [Ptr.shift_zero] at h
  have hkept : m sampleStart = sampleImage sampleStart :=
    hall m hrun (Ptr.self_mem_span (by decide))
  rw [hstart] at hkept
  exact absurd hkept (by decide)

end Mp3Kernel
