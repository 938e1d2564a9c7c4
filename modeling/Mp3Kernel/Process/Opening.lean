import Mp3Kernel.FileSystem.Directory
import Mp3Kernel.Process.Lifecycle

/-!
# Opening is all or nothing

`open` marks the descriptor as in use before it calls the driver, and never takes the mark back. The
driver searches for the name again and copies the entry to `curdentry`, which is the header of the
image. It finds the same entry, because the first search has stored into `current` only, and the
copy ends although it overlaps the entries: it runs towards lower addresses, and behind the end of
the address space there is the NUL of the name that has just been copied.

## Main definitions

* `Opens`: the lowest free descriptor is filled for an entry.

## Main results

* `FileSystem.exists_copyDentry_head`: the copy to the header ends.
* `exists_driverOpen`: the drivers open what the search finds.
* `sysOpen_all_or_nothing`: a call of `open` fills a descriptor and returns it, or does nothing.

Source: `process.c`, lines 365–403; `filesystem.c`, lines 22–77, 121–127 and 166–173.
-/

namespace Mp3Kernel

open ByteMemory

/-! ### An entry copied to the header -/

namespace FileSystem

variable {β : Type} [DecidableEq β] {fs : FileSystem β} {m : Mem β} {i : ℕ}

/-- **The copy of an entry to the header ends**, whatever its strings are, when its type is small:
the name ends in the upper bytes of the type, and the reserved string at the copy of the name at the
latest. -/
theorem exists_copyDentry_head (hi : i < maxFileNumber) (htype : (fs.entryType m i).toNat < 256) :
    ∃ m', copyDentry fs.bootblockHead (fs.dentry i) m = some m' := by
  obtain ⟨d, hd, hd64, hlow⟩ :
      ∃ d, fs.dentry i = fs.bootblockHead.shift d ∧ 64 ≤ d ∧ d < 2 ^ 12 := by
    rw [maxFileNumber] at hi
    exact ⟨_, rfl, by omega, by rw [Dentry.size]; omega⟩
  have hcomm (a : ℕ) : (fs.dentry i).shift a = (fs.bootblockHead.shift a).shift d := by
    rw [hd, Ptr.shift_shift, Ptr.shift_shift, Nat.add_comm]
  -- The name.
  set m₁ := copyNumbers fs.bootblockHead (fs.dentry i) m
  have hnul : m₁ ((Dentry.fileName (fs.dentry i)).shift 33) = 0 := by
    have hout : fs.bootblockHead.shift (d + 33) ∉ fs.bootblockHead.span Dentry.size :=
      Ptr.shift_notMem_span (by rw [Dentry.size]; omega) (by omega)
    have hbyte : m ((fs.dentry i).shift 33) = 0 := by
      have h := byte_eq_zero_of_readWord_lt htype
      rwa [Dentry.fileType, Ptr.shift_shift] at h
    rw [Dentry.fileName, Ptr.shift_zero, ← hbyte, hd, Ptr.shift_shift]
    exact copyNumbers_eqOn _ _ _ hout
  obtain ⟨n, hn, hname⟩ := exists_hasLength_le hnul
  rw [Dentry.fileName, hcomm] at hname
  obtain ⟨m₂, h₂, hc⟩ := strcpy_forward (by omega) (by omega) hname
  -- The reserved string.
  have hend : m₂ ((Dentry.reserved (fs.dentry i)).shift (2 ^ 32 + n - 40 - d)) = 0 := by
    have hsum : d + (40 + (2 ^ 32 + n - 40 - d)) = 2 ^ 32 + n := by omega
    have hzero := (hc.copied n (Nat.lt_succ_self n)).trans hname.2
    rw [Ptr.shift_zero] at hzero
    rw [Dentry.reserved, hd, Ptr.shift_shift, Ptr.shift_shift, hsum, Ptr.shift_add_two_pow]
    exact hzero
  obtain ⟨r, hr, hreserved⟩ := exists_hasLength_le hend
  rw [Dentry.reserved, hcomm] at hreserved
  obtain ⟨m₃, h₃, -⟩ := strcpy_forward (by omega) (by omega) hreserved
  refine ⟨m₃, Option.bind_eq_some_iff.mpr ⟨m₂, ?_, ?_⟩⟩
  · rw [Dentry.fileName, Dentry.fileName, hcomm]
    exact h₂
  · rw [Dentry.reserved, Dentry.reserved, hcomm]
    exact h₃

end FileSystem

/-! ### The drivers -/

variable {wild : Wild} {s s' : KState} {filename : BitVec 32} {current : Ptr Block} {i fd : ℕ}

/-- The drivers of the three kinds of files open what the search finds, and leave the processes
alone. -/
theorem exists_driverOpen (wild : Wild) {fname : Ptr Block} {ty : BitVec 32} {m : Mem Block}
    (h0 : fname ≠ Ptr.null) (hl : s.fs.lookup s.mem fname = some (some i))
    (hcopy : copyDentry s.fs.curdentry (s.fs.dentry i) s.mem = some m) (hty : ty ≤ 2#32) :
    ∃ result s', result ≠ failure ∧ driverOpen wild (.entry ty) fname s = some (result, s') ∧
      s'.procs = s.procs := by
  obtain ⟨hle, htoNat⟩ := FileSystem.lookup_lt hl
  have hname : s.fs.readDentryByName fname s.fs.curdentry s.mem = some (success, m) :=
    FileSystem.readDentryByName_of_copy h0 hl hle (by rw [htoNat]; exact hcopy)
  obtain rfl | rfl | rfl : ty = 0#32 ∨ ty = 1#32 ∨ ty = 2#32 := by bv_omega
  · exact ⟨0#32, { s with rtcFreq := 2 }, by decide, rfl, rfl⟩
  · refine ⟨success, { s with mem := m }, success_ne_failure, ?_, rfl⟩
    have hopen : s.fs.directoryOpen fname s.mem = some (success, m) := by
      rw [FileSystem.directoryOpen, if_neg h0]
      exact Option.bind_eq_some_iff.mpr ⟨_, hname, if_neg (not_not.mpr rfl)⟩
    show (s.fs.directoryOpen fname s.mem).map _ = _
    rw [hopen]
    rfl
  · refine ⟨success, { s with mem := m }, success_ne_failure, ?_, rfl⟩
    have hopen : s.fs.fileOpen fname s.mem = some (success, m) := by
      rw [FileSystem.fileOpen, if_neg h0, hname]
    show (s.fs.fileOpen fname s.mem).map _ = _
    rw [hopen]
    rfl

/-! ### The call -/

/-- The descriptor for entry `i`: at position 0, with the driver of the entry's type and the entry's
inode, or `-1` for the RTC. -/
def FileSystem.descriptor (fs : FileSystem Block) (m : Mem Block) (i : ℕ) : FdEntry where
  fileotPointer := .entry (fs.entryType m i)
  inode := if fs.entryType m i = 0#32 then -1 else fs.entryInode m i
  position := 0#32
  flags := 1#32

/-- `open` has filled descriptor `fd`, the lowest that was free, for the entry that the search
finds. Nothing else of the processes has changed. -/
structure Opens (s s' : KState) (filename : BitVec 32) (fd : ℕ) : Prop where
  /-- The descriptor. -/
  lt : fd < fdarrayMax
  /-- It was free. -/
  free : (s.procs.fds fd).flags = 0#32
  /-- It was the lowest. -/
  lowest : ∀ j < fd, (s.procs.fds j).flags ≠ 0#32
  /-- What it holds. -/
  filled : ∃ i, s.fs.lookup s.mem (s.userPtr filename) = some (some i) ∧
    s'.procs = s.procs.setFd fd (s.fs.descriptor s.mem i)

/-- There is no name or no process, the name is not found, or all descriptors are in use. -/
def CannotOpen (s : KState) (filename : BitVec 32) : Prop :=
  filename = 0#32 ∨ s.procs.filedArray = 0#32 ∨
    s.fs.lookup s.mem (s.userPtr filename) = some none ∨ s.procs.firstFree = none

/-- An entry that is found is opened, as long as a descriptor is free. -/
theorem exists_opens (wild : Wild) (hcur : current ∈ stackVars) (hfs : s.fs.OnBlock .flat)
    (hdentry : s.fs.curdentry = s.fs.bootblockHead)
    (hnum : (s.fs.dentryNum s.mem).toNat ≤ maxFileNumber)
    (h0 : ¬ (filename = 0#32 ∨ s.procs.filedArray = 0#32))
    (hl : s.fs.lookup s.mem (s.userPtr filename) = some (some i))
    (htype : s.fs.entryType s.mem i ≤ 2#32) (hfree : s.procs.firstFree = some fd) :
    ∃ s', sysOpen wild filename current s = some (BitVec.ofNat 32 fd, s') ∧
      Opens s s' filename fd := by
  have hi := ((FileSystem.lookup_eq_iff hnum).mp hl).1
  obtain ⟨n, hn⟩ := FileSystem.exists_hasLength_of_dentryNum_le hnum
    (p := Dentry.fileName (s.fs.dentry i)) rfl
  obtain ⟨k, hk⟩ := FileSystem.exists_hasLength_of_dentryNum_le hnum
    (p := Dentry.reserved (s.fs.dentry i)) rfl
  obtain ⟨m, hm, hl', hty, hinode, hopen⟩ := exists_opening wild hcur hfs h0 hl hn hk hfree
  have hentry : openedEntry m current = s.fs.descriptor s.mem i := by
    rw [openedEntry, hty, hinode]
    rfl
  rw [hentry] at hopen
  -- The driver finds the entry again, and its copy to the header ends.
  have hsame : s.fs.entryType m i = s.fs.entryType s.mem i :=
    FileSystem.readWord_congr_inBlock (p := Dentry.fileType (s.fs.dentry i)) (hfs.blk_dentry i) hm
  have hsmall : (s.fs.entryType m i).toNat < 256 := by
    rw [hsame]
    exact Nat.lt_of_le_of_lt (BitVec.le_def.mp htype) (by decide)
  obtain ⟨m', hcopy⟩ :=
    FileSystem.exists_copyDentry_head (Nat.lt_of_lt_of_le hi hnum) hsmall
  rw [← hdentry] at hcopy
  obtain ⟨result, s', hresult, hdriver, hprocs⟩ :=
    exists_driverOpen (s := { s with mem := m, procs := s.procs.setFd fd _ }) wild
      (KState.userPtr_ne_null fun he => h0 (.inl he)) hl' hcopy htype
  obtain ⟨hlt, hzero, hlowest⟩ := ProcTable.firstFree_eq_some_iff.mp hfree
  exact ⟨s', hopen result s' hresult hdriver, hlt, hzero, hlowest, i, hl, hprocs⟩

/-- **`open` is all or nothing**: for every name and every table it returns, and it returns the
lowest free descriptor, filled for the entry found, or `-1` with the processes as they were. -/
theorem sysOpen_all_or_nothing (wild : Wild) (filename : BitVec 32)
    (hcur : current ∈ stackVars) (hfs : s.fs.OnBlock .flat)
    (hdentry : s.fs.curdentry = s.fs.bootblockHead)
    (hnum : (s.fs.dentryNum s.mem).toNat ≤ maxFileNumber)
    (htype : ∀ i < (s.fs.dentryNum s.mem).toNat, s.fs.entryType s.mem i ≤ 2#32) :
    ∃ r s', sysOpen wild filename current s = some (r, s') ∧
      ((∃ fd, r = BitVec.ofNat 32 fd ∧ Opens s s' filename fd) ∨
        r = failure ∧ s'.procs = s.procs ∧ CannotOpen s filename) := by
  by_cases h0 : filename = 0#32 ∨ s.procs.filedArray = 0#32
  · exact ⟨failure, s, if_pos h0, .inr ⟨rfl, rfl, h0.imp_right .inl⟩⟩
  have hname (i : ℕ) : ∃ n, HasLength s.mem (Dentry.fileName (s.fs.dentry i)) n :=
    FileSystem.exists_hasLength_of_dentryNum_le hnum rfl
  have hreserved (i : ℕ) : ∃ n, HasLength s.mem (Dentry.reserved (s.fs.dentry i)) n :=
    FileSystem.exists_hasLength_of_dentryNum_le hnum rfl
  obtain ⟨o, hl⟩ := FileSystem.exists_lookup_of_hasLength (s.userPtr filename) hname
  cases o with
  | none =>
    refine ⟨failure, s, ?_, .inr ⟨rfl, rfl, .inr (.inr (.inl hl))⟩⟩
    rw [sysOpen, if_neg h0]
    exact Option.bind_eq_some_iff.mpr
      ⟨_, FileSystem.readDentryByName_of_missed (.inr hl), if_pos rfl⟩
  | some i =>
    cases hfree : s.procs.firstFree with
    | none =>
      obtain ⟨n, hn⟩ := hname i
      obtain ⟨k, hk⟩ := hreserved i
      obtain ⟨m, hfound, -⟩ := exists_current hcur hfs (fun he => h0 (.inl he)) hl hn hk
      refine ⟨failure, { s with mem := m }, ?_, .inr ⟨rfl, rfl, .inr (.inr (.inr hfree))⟩⟩
      rw [sysOpen_of_readDentryByName wild hcur h0 hfound, hfree]
    | some fd =>
      have hi := ((FileSystem.lookup_eq_iff hnum).mp hl).1
      obtain ⟨s', hopen, hopens⟩ := exists_opens wild hcur hfs hdentry hnum h0 hl (htype i hi) hfree
      exact ⟨_, s', hopen, .inl ⟨fd, rfl, hopens⟩⟩

/-- The sample image, with a process. -/
def sampleProcess : KState :=
  { sampleBoot with procs := { sampleBoot.procs with filedArray := pcbAddr 0#32 } }

/-- The name in the first entry of the sample image is opened. -/
theorem sysOpen_sample : ∃ s',
    sysOpen sampleWild 0x500040#32 Local.current.ptr sampleProcess =
        some (BitVec.ofNat 32 0, s') ∧
      Opens sampleProcess s' 0x500040#32 0 := by
  have htype : ∀ i < (sampleProcess.fs.dentryNum sampleProcess.mem).toNat,
      sampleProcess.fs.entryType sampleProcess.mem i ≤ 2#32 := by decide
  have hflags (fd : ℕ) : (sampleProcess.procs.fds fd).flags = 0#32 := rfl
  have hl : sampleProcess.fs.lookup sampleProcess.mem (sampleProcess.userPtr 0x500040#32) =
      some (some 0) :=
    FileSystem.scanDentry_eq_some_some.mpr ⟨le_rfl, by decide,
      ⟨5, ⟨by decide, by decide⟩, by unfold IsPrefix; decide⟩,
      fun k _ hk => absurd hk (Nat.not_lt_zero k)⟩
  obtain ⟨r, s', hopen, ⟨fd, rfl, hopens⟩ | ⟨-, -, hcannot⟩⟩ :=
    sysOpen_all_or_nothing (s := sampleProcess) sampleWild 0x500040#32
      (Local.ptr_mem_stackVars .current) executable_sampleMem.onBlock rfl (by decide) htype
  · obtain rfl : fd = 0 := by
      by_contra hne
      exact hopens.lowest 0 (Nat.pos_of_ne_zero hne) (hflags 0)
    exact ⟨s', hopen, hopens⟩
  · rcases hcannot with h | h | h | h
    · exact absurd h (by decide)
    · exact absurd h (by decide)
    · rw [hl] at h
      cases h
    · exact absurd (hflags 0) (ProcTable.firstFree_eq_none h (by decide))

end Mp3Kernel
