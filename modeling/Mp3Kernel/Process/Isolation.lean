import Mp3Kernel.Process.Descriptors

/-!
# The memory of parents and children

While a child and its descendants run, no step stores into the page of the parent. A system call
stores through pointers into local variables, into the flat address space, into the page of the
process that makes the call, and `execute` into that of the process that it starts.

## Main definitions

* `KeepsPages`: the assumption on calls outside the file operation table.
* `frameNumber`: the frame of a process; `KState.Suspended`: a process waits for a child.

## Main results

* `strcpy_eqOn_inBlock` and its companions: a copy stores only into the block of its destination.
* `sysRead_eqOn_page` and its companions: a system call leaves the pages of other processes alone.
* `Reachable.memory_kept`: the memory of a process after its child has ended.

Source: `process.c`, lines 33–560; `filesystem.c`, lines 36–211.
-/

namespace Mp3Kernel

open ByteMemory Transition

/-! ### Copies -/

section Copies

variable {β : Type} [DecidableEq β] {b : β} {m m' : Mem β} {dest src : Ptr β}

/-- `strcpy` stores only into the block of its destination, however long the string is. -/
theorem strcpy_eqOn_inBlock (hd : dest.blk ≠ b) (h : strcpy m dest src = some m') :
    Set.EqOn m' m (Ptr.inBlock b) := by
  rw [strcpy] at h
  generalize addressSpace = fuel at h
  generalize 0 = i at h
  have hstore (m : Mem β) (i : ℕ) (v : UInt8) :
      Set.EqOn (store m (dest.shift i) v) m (Ptr.inBlock b) := store_eqOn hd
  induction fuel generalizing i m with
  | zero => cases h
  | succ fuel ih =>
    rw [strcpyFrom] at h
    split_ifs at h
    · cases h
      exact hstore m i 0
    · exact (ih _ h).trans (hstore m i _)

theorem writeWord_eqOn_inBlock (hd : dest.blk ≠ b) (w : BitVec 32) :
    Set.EqOn (writeWord m dest w) m (Ptr.inBlock b) :=
  (writeWord_eqOn ..).mono (Ptr.inBlock_subset_compl_span hd 4)

theorem copyDentry_eqOn_inBlock (hd : dest.blk ≠ b) (h : copyDentry dest src m = some m') :
    Set.EqOn m' m (Ptr.inBlock b) := by
  obtain ⟨m₁, h₁, h₂⟩ := Option.bind_eq_some_iff.mp h
  have htype : (Dentry.fileType dest).blk ≠ b := hd
  have hinode : (Dentry.inodeIndex dest).blk ≠ b := hd
  have hname : (Dentry.fileName dest).blk ≠ b := hd
  have hreserved : (Dentry.reserved dest).blk ≠ b := hd
  exact (strcpy_eqOn_inBlock hreserved h₂).trans ((strcpy_eqOn_inBlock hname h₁).trans
    ((writeWord_eqOn_inBlock hinode _).trans (writeWord_eqOn_inBlock htype _)))

namespace FileSystem

variable {fs : FileSystem β} {r : BitVec 32}

theorem readDentryByIndex_eqOn_inBlock {index : BitVec 32} (hd : dest.blk ≠ b)
    (h : fs.readDentryByIndex index dest m = some (r, m')) : Set.EqOn m' m (Ptr.inBlock b) := by
  rw [readDentryByIndex] at h
  split_ifs at h
  · cases h
    exact Set.eqOn_refl ..
  · obtain ⟨m₁, h₁, h₂⟩ := Option.map_eq_some_iff.mp h
    cases h₂
    exact copyDentry_eqOn_inBlock hd h₁

variable [Inhabited β] {fname buf : Ptr β} {offset length : BitVec 32}

theorem readDentryByName_eqOn_inBlock (hd : dest.blk ≠ b)
    (h : fs.readDentryByName fname dest m = some (r, m')) : Set.EqOn m' m (Ptr.inBlock b) := by
  rcases readDentryByName_cases h with ⟨-, -, rfl⟩ | ⟨i, r', -, -, -, h₁⟩
  · exact Set.eqOn_refl ..
  · exact readDentryByIndex_eqOn_inBlock hd h₁

theorem fileOpen_eqOn_inBlock (hcur : fs.curdentry.blk ≠ b)
    (h : fs.fileOpen fname m = some (r, m')) : Set.EqOn m' m (Ptr.inBlock b) := by
  rw [fileOpen] at h
  split_ifs at h
  · cases h
    exact Set.eqOn_refl ..
  · exact readDentryByName_eqOn_inBlock hcur h

theorem directoryOpen_eqOn_inBlock (hcur : fs.curdentry.blk ≠ b)
    (h : fs.directoryOpen fname m = some (r, m')) : Set.EqOn m' m (Ptr.inBlock b) := by
  rw [directoryOpen] at h
  split_ifs at h
  · cases h
    exact Set.eqOn_refl ..
  · obtain ⟨⟨found, m₁⟩, h₁, h₂⟩ := Option.bind_eq_some_iff.mp h
    have hsearch := readDentryByName_eqOn_inBlock hcur h₁
    dsimp only at h₂
    split_ifs at h₂
    · cases h₂
      exact hsearch
    · cases h₂
      exact hsearch

theorem fileRead_eqOn_inBlock (hcur : fs.curdentry.blk ≠ b) (hbuf : buf.blk ≠ b)
    (h : fs.fileRead fname offset buf length m = some (r, m')) :
    Set.EqOn m' m (Ptr.inBlock b) := by
  rw [fileRead] at h
  split_ifs at h
  · cases h
    exact Set.eqOn_refl ..
  · obtain ⟨⟨found, m₁⟩, h₁, h₂⟩ := Option.bind_eq_some_iff.mp h
    have hsearch := readDentryByName_eqOn_inBlock hcur h₁
    dsimp only at h₂
    split_ifs at h₂
    · cases h₂
      exact hsearch
    · have hread := (fs.readData_eqOn (readWord m₁ (Dentry.inodeIndex fs.curdentry)) offset buf
        length m₁).mono (Ptr.inBlock_subset_compl_span hbuf _)
      rw [Option.some.inj h₂] at hread
      exact hread.trans hsearch

theorem directoryRead_eqOn_inBlock (hcur : fs.curdentry.blk ≠ b) (hbuf : buf.blk ≠ b)
    (h : fs.directoryRead fname offset buf length m = some (r, m')) :
    Set.EqOn m' m (Ptr.inBlock b) := by
  rw [directoryRead] at h
  split_ifs at h
  · cases h
    exact Set.eqOn_refl ..
  · obtain ⟨nameLength, -, h₁⟩ := Option.bind_eq_some_iff.mp h
    obtain ⟨⟨found, m₁⟩, h₂, h₃⟩ := Option.bind_eq_some_iff.mp h₁
    cases h₃
    exact ((memcpy_eqOn ..).mono (Ptr.inBlock_subset_compl_span hbuf _)).trans
      (readDentryByName_eqOn_inBlock hcur h₂)

end FileSystem

end Copies

/-! ### Calls -/

/-- Calls outside the table that return leave the user pages alone. -/
def KeepsPages (wild : Wild) : Prop :=
  ∀ p s r s', wild.call p s = some (r, s') → ∀ f, Set.EqOn s'.mem s.mem (Ptr.inBlock (.page f))

variable {wild : Wild} {ptAddr : BitVec 32} {s s' : KState} {e : Event} {r : BitVec 32}
  {f : BitVec 10} {current : Ptr Block}

theorem inBlock_page_subset : Ptr.inBlock (.page f) ⊆ stackVarsᶜ := by
  rintro p hp ⟨name, hname⟩
  exact Block.noConfusion (hp.symm.trans hname)

/-- A pointer given by the current process does not point into the page of another one. -/
theorem KState.blk_userPtr_ne_page (hf : f ≠ s.userFrameNumber) (addr : BitVec 32) :
    (s.userPtr addr).blk ≠ .page f := by
  rw [userPtr]
  split_ifs
  · exact fun he => hf (Block.page.inj he).symm
  · exact Block.noConfusion

theorem Local.blk_ptr_ne_page (name : Local) : name.ptr.blk ≠ .page f := Block.noConfusion

theorem blk_ne_page_of_mem (hcur : current ∈ stackVars) : current.blk ≠ .page f :=
  fun hp => inBlock_page_subset hp hcur

theorem FileSystem.OnBlock.blk_curdentry_ne_page {fs : FileSystem Block} (h : fs.OnBlock .flat) :
    fs.curdentry.blk ≠ .page f := by
  rw [h.curdentry]
  exact Block.noConfusion

section Drivers

variable {p : FotPtr} (hpages : KeepsPages wild)

include hpages

theorem driverOpen_eqOn_page (hcur : s.fs.curdentry.blk ≠ .page f) {fname : Ptr Block}
    (h : driverOpen wild p fname s = some (r, s')) :
    Set.EqOn s'.mem s.mem (Ptr.inBlock (.page f)) := by
  rw [driverOpen] at h
  split at h
  · cases h
    exact Set.eqOn_refl ..
  · obtain ⟨⟨r₁, m⟩, hopen, hq⟩ := Option.map_eq_some_iff.mp h
    cases hq
    exact FileSystem.directoryOpen_eqOn_inBlock hcur hopen
  · obtain ⟨⟨r₁, m⟩, hopen, hq⟩ := Option.map_eq_some_iff.mp h
    cases hq
    exact FileSystem.fileOpen_eqOn_inBlock hcur hopen
  · cases h
    exact Set.eqOn_refl ..
  · exact hpages _ _ _ _ h f

theorem driverClose_eqOn_page (h : driverClose wild p s = some (r, s')) :
    Set.EqOn s'.mem s.mem (Ptr.inBlock (.page f)) := by
  rw [driverClose] at h
  split at h
  · cases h
    exact Set.eqOn_refl ..
  · cases h
    exact Set.eqOn_refl ..
  · cases h
    exact Set.eqOn_refl ..
  · cases h
    exact Set.eqOn_refl ..
  · exact hpages _ _ _ _ h f

theorem driverRead_eqOn_page (hcur : s.fs.curdentry.blk ≠ .page f) {fname buf : Ptr Block}
    (hbuf : buf.blk ≠ .page f) {offset n : BitVec 32}
    (h : driverRead wild p fname offset buf n s = some (r, s')) :
    Set.EqOn s'.mem s.mem (Ptr.inBlock (.page f)) := by
  rw [driverRead] at h
  split at h
  · rw [rtcread] at h
    split_ifs at h
    cases h
    exact Set.eqOn_refl ..
  · obtain ⟨⟨r₁, m⟩, hread, hq⟩ := Option.map_eq_some_iff.mp h
    cases hq
    exact FileSystem.directoryRead_eqOn_inBlock hcur hbuf hread
  · obtain ⟨⟨r₁, m⟩, hread, hq⟩ := Option.map_eq_some_iff.mp h
    cases hq
    exact FileSystem.fileRead_eqOn_inBlock hcur hbuf hread
  · cases h
    rw [Keyboard.terminalRead]
    split_ifs
    · exact Set.eqOn_refl ..
    · exact Set.eqOn_refl ..
    · exact Set.eqOn_refl ..
    · exact (Keyboard.readChars_eqOn ..).mono (Ptr.inBlock_subset_compl_span hbuf _)
  · exact hpages _ _ _ _ h f

theorem driverWrite_eqOn_page {fd n : BitVec 32} {buf : Ptr Block}
    (h : driverWrite wild p fd buf n s = some (r, s')) :
    Set.EqOn s'.mem s.mem (Ptr.inBlock (.page f)) := by
  rw [driverWrite] at h
  split at h
  · cases h
    exact Set.eqOn_refl ..
  · cases h
    exact Set.eqOn_refl ..
  · cases h
    exact Set.eqOn_refl ..
  · cases h
    exact Set.eqOn_refl ..
  · exact hpages _ _ _ _ h f

end Drivers

theorem closeScan_eqOn_page {fs : FileSystem Block} {m m' : Mem Block}
    (hcur : current ∈ stackVars) (h : closeScan fs current m = some m') :
    Set.EqOn m' m (Ptr.inBlock (.page f)) := by
  refine foldlM_invariant (I := fun m₁ => Set.EqOn m₁ m (Ptr.inBlock (.page f)))
    (fun m₁ _ m₂ h₁ hround => ?_) h (Set.eqOn_refl ..)
  refine foldlM_invariant (I := fun m₂ => Set.EqOn m₂ m (Ptr.inBlock (.page f)))
    (fun m₂ i m₃ h₂ hcopy => ?_) hround h₁
  obtain ⟨⟨r, m₄⟩, hread, rfl⟩ := Option.map_eq_some_iff.mp hcopy
  exact (FileSystem.readDentryByIndex_eqOn_inBlock (blk_ne_page_of_mem hcur) hread).trans h₂

theorem findInode_eqOn_page {fs : FileSystem Block} {temInode : BitVec 32} {k length : ℕ}
    {m m' : Mem Block} {found : Bool} (h : findInode fs temInode k length m = some (found, m')) :
    Set.EqOn m' m (Ptr.inBlock (.page f)) := by
  induction k generalizing length m with
  | zero =>
    cases h
    exact Set.eqOn_refl ..
  | succ k ih =>
    rw [findInode] at h
    obtain ⟨⟨r, m₁⟩, hread, h₁⟩ := Option.bind_eq_some_iff.mp h
    have hcopy := FileSystem.readDentryByIndex_eqOn_inBlock (b := .page f)
      (Local.blk_ptr_ne_page _) hread
    dsimp only at h₁
    split_ifs at h₁
    · cases h₁
      exact hcopy
    · exact (ih h₁).trans hcopy

section SystemCalls

variable (hpages : KeepsPages wild)

include hpages

theorem sysClose_eqOn_page {i : BitVec 32} (hcur : current ∈ stackVars)
    (h : sysClose wild i current s = some (r, s')) :
    Set.EqOn s'.mem s.mem (Ptr.inBlock (.page f)) := by
  rw [sysClose_eq wild hcur] at h
  split_ifs at h
  · cases h
    exact Set.eqOn_refl ..
  · obtain ⟨m, hscan, h₁⟩ := Option.bind_eq_some_iff.mp h
    exact (driverClose_eqOn_page hpages h₁).trans (closeScan_eqOn_page hcur hscan)

theorem closeAll_eqOn_page {currents : ℕ → Ptr Block} (hcur : ∀ fd, currents fd ∈ stackVars)
    (h : closeAll wild currents s = some s') :
    Set.EqOn s'.mem s.mem (Ptr.inBlock (.page f)) := by
  have hclear {s s' : KState} {fd : ℕ} (h : clearAndClose wild currents fd s = some s') :
      Set.EqOn s'.mem s.mem (Ptr.inBlock (.page f)) := by
    obtain ⟨⟨r, s₁⟩, hclose, rfl⟩ := Option.map_eq_some_iff.mp h
    exact sysClose_eqOn_page (s := { s with procs := s.procs.clearFlags fd }) hpages (hcur _)
      hclose
  obtain ⟨s₁, h₁, h₂⟩ := Option.bind_eq_some_iff.mp h
  obtain ⟨s₂, h₃, h₄⟩ := Option.bind_eq_some_iff.mp h₂
  refine (hclear h₄).trans ((hclear h₃).trans ?_)
  refine foldlM_invariant (I := fun s₁ => Set.EqOn s₁.mem s.mem (Ptr.inBlock (.page f)))
    (fun t fd t' ht hround => ?_) h₁ (Set.eqOn_refl ..)
  obtain ⟨⟨r, t₁⟩, hclose, rfl⟩ := Option.map_eq_some_iff.mp hround
  exact (sysClose_eqOn_page hpages (hcur _) hclose).trans ht

/-- A process with a parent ends: only what its descriptors' drivers do is done to memory. -/
theorem halt_eqOn_page {o : Outcome} {status : UInt8} {currents : ℕ → Ptr Block}
    (hcur : ∀ fd, currents fd ∈ stackVars) (hchild : s.procs.parentPid ≠ -1#32)
    (h : halt wild status currents s = some (o, s')) :
    Set.EqOn s'.mem s.mem (Ptr.inBlock (.page f)) := by
  rcases halt_inversion h with ⟨hroot, -⟩ | ⟨-, s₁, hclose, hresume⟩
  · exact absurd hroot hchild
  · have hclosed := closeAll_eqOn_page (f := f) hpages hcur hclose
    rw [resume] at hresume
    split at hresume
    · cases hresume
    · rw [executeTail] at hresume
      split_ifs at hresume
      · cases hresume
        exact hclosed
      · cases hresume
        exact hclosed

variable (hflat : s.fs.OnBlock .flat)

include hflat

theorem sysOpen_eqOn_page {filename : BitVec 32} (hcur : current ∈ stackVars)
    (h : sysOpen wild filename current s = some (r, s')) :
    Set.EqOn s'.mem s.mem (Ptr.inBlock (.page f)) := by
  have hblk := blk_ne_page_of_mem (f := f) hcur
  rcases sysOpen_inversion hcur h with
    ⟨rfl, -⟩ | ⟨found, m, -, hfound, ⟨rfl, -⟩ | ⟨fd, result, -, -, hopen, -⟩⟩
  · exact Set.eqOn_refl ..
  · exact FileSystem.readDentryByName_eqOn_inBlock hblk hfound
  · exact (driverOpen_eqOn_page
      (s := { s with mem := m, procs := s.procs.setFd fd (openedEntry m current) }) hpages
      hflat.blk_curdentry_ne_page hopen).trans
        (FileSystem.readDentryByName_eqOn_inBlock hblk hfound)

variable (hf : f ≠ s.userFrameNumber)

include hf

theorem readFd_eqOn_page (hw : Benign wild) {fd buf n : BitVec 32} {probe : Ptr Block}
    (h : readFd wild fd buf n probe s = some (r, s')) :
    Set.EqOn s'.mem s.mem (Ptr.inBlock (.page f)) := by
  obtain ⟨⟨ifread, s₁⟩, h₁, h₂⟩ := Option.bind_eq_some_iff.mp h
  have hprobe := driverRead_eqOn_page hpages hflat.blk_curdentry_ne_page
    (KState.blk_userPtr_ne_page hf buf) h₁
  have hkeeps := (driverRead_effects h₁).keeps hw
  dsimp only at h₂
  split_ifs at h₂
  · cases h₂
    exact hprobe
  · obtain ⟨⟨found, m⟩, hfind, h₃⟩ := Option.bind_eq_some_iff.mp h₂
    dsimp only at h₃
    split_ifs at h₃
    obtain ⟨len, -, h₄⟩ := Option.bind_eq_some_iff.mp h₃
    -- The first call of the driver leaves the directory entry and the user page where they are.
    have hcur : s₁.fs.curdentry.blk ≠ .page f := hkeeps.fs ▸ hflat.blk_curdentry_ne_page
    have hbuf : (s₁.userPtr buf).blk ≠ .page f := by
      rw [KState.userPtr_congr (congrArg ProcTable.paging hkeeps.procs)]
      exact KState.blk_userPtr_ne_page hf buf
    exact ((driverRead_eqOn_page (s := { s₁ with mem := m }) hpages hcur hbuf h₄).trans
      (findInode_eqOn_page hfind)).trans hprobe

theorem sysRead_eqOn_page (hw : Benign wild) {fd buf n : BitVec 32} {probe : Ptr Block}
    (h : sysRead wild fd buf n probe s = some (r, s')) :
    Set.EqOn s'.mem s.mem (Ptr.inBlock (.page f)) := by
  by_cases haccepts : readAccepts s.procs fd buf n
  · rw [sysRead_of_accepts probe haccepts] at h
    exact readFd_eqOn_page hpages hflat hf hw h
  · rw [sysRead_of_not_accepts probe haccepts] at h
    cases h
    exact Set.eqOn_refl ..

omit hflat hf in
theorem sysWrite_eqOn_page {fd buf n : BitVec 32} (h : sysWrite wild fd buf n s = some (r, s')) :
    Set.EqOn s'.mem s.mem (Ptr.inBlock (.page f)) := by
  by_cases haccepts : writeAccepts s.procs fd buf n
  · rw [sysWrite_of_accepts haccepts] at h
    exact driverWrite_eqOn_page hpages h
  · rw [sysWrite_of_not_accepts haccepts] at h
    cases h
    exact Set.eqOn_refl ..

end SystemCalls

/-! ### `execute` -/

theorem loadProgram_eqOn_page {inode : BitVec 32} {m : Mem Block} (hf : f ≠ s.userFrameNumber)
    (h : loadProgram s inode = some m) : Set.EqOn m s.mem (Ptr.inBlock (.page f)) := by
  rw [loadProgram] at h
  dsimp only at h
  split_ifs at h
  rw [← Option.some.inj h]
  exact (FileSystem.readData_eqOn ..).mono
    (Ptr.inBlock_subset_compl_span (KState.blk_userPtr_ne_page hf userPaddr) _)

/-- `execute` stores into local variables, and into the page of the process that it starts. -/
theorem execute_eqOn_page {command : List UInt8} {o : Outcome} (hflat : s.fs.OnBlock .flat)
    (hf : f ≠ s'.userFrameNumber) (h : execute command s = some (o, s')) :
    Set.EqOn s'.mem s.mem (Ptr.inBlock (.page f)) := by
  obtain ⟨⟨fileCommand, argCommand⟩, -, h₁⟩ := Option.bind_eq_some_iff.mp h
  obtain ⟨⟨checked, m⟩, hcheck, h₂⟩ := Option.bind_eq_some_iff.mp h₁
  have hchecked : Set.EqOn m s.mem (Ptr.inBlock (.page f)) :=
    (checkExecutable_eqOn hflat hcheck).mono inBlock_page_subset
  cases checked with
  | none =>
    cases h₂
    exact hchecked
  | some inode =>
    rcases createProcess_cases h₂ with ⟨-, -, rfl⟩ | ⟨t, m', -, hload, -, rfl⟩
    · exact hchecked
    · refine (loadProgram_eqOn_page (f := f) ?_ hload).trans hchecked
      exact hf

/-! ### The parent's page -/

/-- The frame of process `j`. -/
def frameNumber (j : ℕ) : BitVec 10 := BitVec.ofNat 10 (2 + j)

theorem frameNumber_inj {j k : ℕ} (hj : j < maxProcessNumber) (hk : k < maxProcessNumber) :
    frameNumber j = frameNumber k ↔ j = k := by
  simp only [maxProcessNumber] at hj hk
  rw [frameNumber, frameNumber, ← BitVec.toNat_inj, BitVec.toNat_ofNat, BitVec.toNat_ofNat]
  omega

/-- The user page is in the frame of the current process. -/
theorem ProcTable.Chain.userFrameNumber {c : ℕ} (h : s.procs.Chain ptAddr c) :
    s.userFrameNumber = frameNumber c := by
  have hlt := h.lt
  rw [KState.userFrameNumber, h.maps.user]
  clear h
  revert c
  decide

/-- While process `p` waits for a child, its page holds what it held in the memory `m`. -/
structure KState.Suspended (ptAddr : BitVec 32) (p : ℕ) (fds : ℕ → FdEntry) (m : Mem Block)
    (s : KState) : Prop where
  /-- The image lies in the flat address space. -/
  onBlock : s.fs.OnBlock .flat
  /-- The process is live, and its descriptors are `fds`. -/
  parent : s.procs.Parent ptAddr p fds
  /-- The page of the process. -/
  page : Set.EqOn s.mem m (Ptr.inBlock (.page (frameNumber p)))

/-- A step of a descendant stores nothing into the page of the process that waits. -/
theorem ChildStep.eqOn_page (hw : Benign wild) (hpages : KeepsPages wild) {p : ℕ}
    {fds : ℕ → FdEntry} (hs : ChildStep wild (BitVec.ofNat 32 p) s e s') (he : e.Scratch)
    (hflat : s.fs.OnBlock .flat) (h : s.procs.Parent ptAddr p fds) :
    Set.EqOn s'.mem s.mem (Ptr.inBlock (.page (frameNumber p))) := by
  obtain ⟨c, hle, hc, -⟩ := h
  obtain ⟨hne, hs⟩ := hs
  have hlt : p < c := Nat.lt_of_le_of_ne hle fun he => hne (he ▸ hc.curPid)
  have hframe {t : KState} {j : ℕ} (ht : t.procs.Chain ptAddr j) (hj : p < j) :
      frameNumber p ≠ t.userFrameNumber := by
    rw [ht.userFrameNumber]
    exact mt (frameNumber_inj (hj.trans ht.lt) ht.lt).mp hj.ne
  cases hs with
  | execute hex =>
    rcases execute_cases hex with ⟨m, -, hs'⟩ | ⟨t, m, halloc, -, hs'⟩
    · have hc' : s'.procs.Chain ptAddr c := by
        rw [hs']
        exact hc
      exact execute_eqOn_page hflat (hframe hc' hlt) hex
    · have hc' : s'.procs.Chain ptAddr (c + 1) := by
        rw [hs']
        exact hc.start halloc s.calls
      exact execute_eqOn_page hflat (hframe hc' (Nat.lt_succ_of_lt hlt)) hex
  | halt hhalt =>
    refine halt_eqOn_page hpages he (fun hroot => ?_) hhalt
    exact Nat.not_lt_zero p (hc.parentPid_eq_iff.mp hroot ▸ hlt)
  | sysOpen hopen => exact sysOpen_eqOn_page hpages hflat he hopen
  | sysClose hclose => exact sysClose_eqOn_page hpages he hclose
  | sysRead hread => exact sysRead_eqOn_page hpages hflat (hframe hc hlt) hw hread
  | sysWrite hwrite => exact sysWrite_eqOn_page hpages hwrite
  | user hm => exact hm.mono (Ptr.inBlock_subset_compl_inBlock fun he =>
      hframe hc hlt (Block.page.inj he))
  | stack hm => exact hm.mono inBlock_page_subset
  | key => exact Set.eqOn_refl ..

/-- **The step lemma**: a step of a descendant leaves the process that waits as it is. -/
theorem ChildStep.suspended (hw : Benign wild) (hpages : KeepsPages wild) {p : ℕ}
    {fds : ℕ → FdEntry} {m : Mem Block} (hs : ChildStep wild (BitVec.ofNat 32 p) s e s')
    (he : e.Scratch) (h : s.Suspended ptAddr p fds m) : s'.Suspended ptAddr p fds m where
  onBlock := hs.2.fs_eq hw he ▸ h.onBlock
  parent := hs.parent hw he h.parent
  page := (hs.eqOn_page hw hpages he h.onBlock h.parent).trans h.page

/-- The process that starts a child waits. -/
theorem suspended_of_execute {p : ℕ} (hflat : s.fs.OnBlock .flat) (hp : s.procs.Chain ptAddr p)
    {command : List UInt8} {eip esp : BitVec 32}
    (hex : execute command s = some (.user eip esp, s')) :
    s'.Suspended ptAddr p s.procs.fds s.mem := by
  rcases execute_cases hex with ⟨m, ho, -⟩ | ⟨t, m, halloc, -, hs'⟩
  · cases ho
  have hc : s'.procs.Chain ptAddr (p + 1) := by
    rw [hs']
    exact hp.start halloc s.calls
  constructor
  · rw [hs']
    exact hflat
  · rw [hs']
    exact hp.parent_start halloc s.calls
  · refine execute_eqOn_page hflat ?_ hex
    rw [hc.userFrameNumber]
    exact mt (frameNumber_inj hp.lt hc.lt).mp (Nat.ne_of_lt (Nat.lt_succ_self p))

/-- **A child cannot disturb its parent's memory.** In every reachable state a process starts a
child; whatever the child and its descendants do, as long as the pointer that `open` and `close` do
not set designates scratch memory, the page of the process holds the bytes it held,
and when the process is current again, every address of the user page has the byte it had. -/
theorem Reachable.memory_kept (hw : Benign wild) (hpages : KeepsPages wild)
    (h : Reachable wild ptAddr s) {command : List UInt8} {eip esp : BitVec 32} {s₁ s₂ : KState}
    (hex : execute command s = some (.user eip esp, s₁)) {events : List Event}
    (hrun : Run (Guarded (fun _ e => e.Scratch) (ChildStep wild s.procs.curPid)) s₁ events s₂) :
    Set.EqOn s₂.mem s.mem (Ptr.inBlock (.page s.userFrameNumber)) ∧
      (s₂.procs.curPid = s.procs.curPid → ∀ addr, userMem ≤ addr → addr < userEnd →
        s₂.userPtr addr = s.userPtr addr ∧
          s₂.mem (s₂.userPtr addr) = s.mem (s.userPtr addr)) := by
  obtain ⟨p, hp⟩ := h.exists_chain hw
  rw [hp.curPid] at hrun ⊢
  have hsuspended := hrun.invariant (P := fun s' => s'.Suspended ptAddr p s.procs.fds s.mem)
    (fun _ _ _ h hs => hs.2.suspended hw hpages hs.1 h) (suspended_of_execute (h.onBlock hw) hp hex)
  have hpage : Set.EqOn s₂.mem s.mem (Ptr.inBlock (.page s.userFrameNumber)) := by
    rw [hp.userFrameNumber]
    exact hsuspended.page
  refine ⟨hpage, fun hback addr hlo hhi => ?_⟩
  obtain ⟨c, -, hc, -⟩ := hsuspended.parent
  obtain rfl : p = c := (ofNat_inj hp.lt hc.lt).mp (hback.symm.trans hc.curPid)
  have hptr : s₂.userPtr addr = s.userPtr addr := by
    rw [KState.userPtr, KState.userPtr, hc.userFrameNumber, hp.userFrameNumber]
  refine ⟨hptr, ?_⟩
  rw [hptr]
  refine hpage ?_
  rw [KState.userPtr, if_pos ⟨hlo, hhi⟩]
  rfl

theorem keepsPages_sampleWild : KeepsPages sampleWild := fun _ _ _ _ h _ => by
  cases h
  exact Set.eqOn_refl ..

theorem memory_kept_sample :
    ∃ s s₁ s₂ eip esp, Reachable sampleWild 0x401000#32 s ∧
      execute shell s = some (.user eip esp, s₁) ∧
      Run (Guarded (fun _ e => e.Scratch) (ChildStep sampleWild s.procs.curPid)) s₁
        [.halt 0 sampleCurrents] s₂ ∧
      s₂.mem (s₂.userPtr userMem) = s.mem (s.userPtr userMem) := by
  obtain ⟨s, s₁, s₂, eip, esp, o, h, hex, hhalt, hc, hc₁, hc₂⟩ := exists_child_sample
  have hrun : Run (Guarded (fun _ e => e.Scratch) (ChildStep sampleWild s.procs.curPid)) s₁
      [.halt 0 sampleCurrents] s₂ := by
    refine .single ⟨sampleCurrents_mem, ?_, .halt hhalt⟩
    show s₁.procs.curPid ≠ s.procs.curPid
    rw [hc.curPid, hc₁.curPid]
    decide
  have hback : s₂.procs.curPid = s.procs.curPid := by rw [hc.curPid, hc₂.curPid]
  exact ⟨s, s₁, s₂, eip, esp, h, hex, hrun,
    ((h.memory_kept benign_sampleWild keepsPages_sampleWild hex hrun).2 hback userMem
      (by decide) (by decide)).2⟩

end Mp3Kernel
