import Mp3Kernel.FileSystem.Names
import Mp3Kernel.Process.Descriptors

/-!
# The life of a descriptor

Runs of `open` and `close` of one process. `open` takes the first descriptor that is not in use, but
`close` frees none, and a driver that does not open leaves its descriptor marked. Moreover the
search of `open` depends on `dentry_num`, over which the drivers copy the entries they find.

## Main definitions

* `FdCall`, `LifeStep`: the calls with their results, and what may happen between them.
* `expectedInUse`: the descriptors that should be in use after a call.
* `LifeOk`: a call does not take a path that goes wrong; `Lawful`: it does what it should.

## Main results

* `descriptors_lifecycle`: in a run of calls that satisfy `LifeOk` every call is lawful, and the
  descriptors in use are those returned and not closed.
* `close_frees_nothing`: a run that is not lawful.

Source: `process.c`, lines 242–255 and 365–432.
-/

namespace Mp3Kernel

open ByteMemory Transition

/-! ### Calls -/

/-- The calls of a process that concern its descriptors, with their results. -/
inductive FdCall
  /-- `open(filename)`, with the uninitialised pointer. -/
  | openFile (filename : BitVec 32) (current : Ptr Block) (r : BitVec 32)
  /-- `close(i)`, with the uninitialised pointer. -/
  | closeFd (i : BitVec 32) (current : Ptr Block) (r : BitVec 32)
  /-- The program runs, or an interrupt is served. -/
  | between

/-- What happens between system calls. -/
def Event.IsBetween : Event → Prop
  | .user | .stack | .key _ => True
  | _ => False

/-- The steps of one process that opens and closes. -/
inductive LifeStep (wild : Wild) : KState → FdCall → KState → Prop
  | openFile {s s' : KState} {filename r : BitVec 32} {current : Ptr Block} :
      sysOpen wild filename current s = some (r, s') →
        LifeStep wild s (.openFile filename current r) s'
  | closeFd {s s' : KState} {i r : BitVec 32} {current : Ptr Block} :
      sysClose wild i current s = some (r, s') → LifeStep wild s (.closeFd i current r) s'
  | between {s s' : KState} {e : Event} :
      e.IsBetween → s.Step wild e s' → LifeStep wild s .between s'

/-- The string at `filename` is the name of one of the `n` entries of the image. -/
def KState.NameExists (n : ℕ) (s : KState) (filename : BitVec 32) : Prop :=
  filename ≠ 0#32 ∧ ∃ i < n, s.fs.Names s.mem (s.userPtr filename) i

/-- All descriptors. -/
def allFds : Set ℕ := {fd | fd < fdarrayMax}

/-- The descriptors that should be in use after a call, from those in use before. -/
def expectedInUse (used : Set ℕ) : FdCall → Set ℕ
  | .openFile _ _ r => {fd | fd ∈ used ∨ r ≠ failure ∧ fd = r.toNat}
  | .closeFd i _ _ => {fd | fd ∈ used ∧ ¬ (2 ≤ fd ∧ fd = i.toNat)}
  | .between => used

/-- A call does what it should: the descriptors in use change as expected, a descriptor that `open`
returns was not in use, and the opening of an existing name fails only when all are in use. -/
def Lawful (n : ℕ) (s : KState) (c : FdCall) (s' : KState) : Prop :=
  s'.procs.inUse = expectedInUse s.procs.inUse c ∧
    ∀ filename current r, c = .openFile filename current r →
      (r ≠ failure → r.toNat ∈ allFds \ s.procs.inUse) ∧
      (s.NameExists n filename → r = failure → s.procs.inUse = allFds)

/-- A call takes no path that goes wrong: the uninitialised pointer designates scratch memory; where
a descriptor is free, the entry that `open` finds has the type of a driver, and a name that exists
is found; `close` is not called for a descriptor from 2 on that is in use. -/
def LifeOk (n : ℕ) (s : KState) : FdCall → Prop
  | .openFile filename current _ => current ∈ stackVars ∧
      (filename ≠ 0#32 → s.procs.inUse ≠ allFds →
        (∀ i, s.fs.lookup s.mem (s.userPtr filename) = some (some i) →
          readWord s.mem (Dentry.fileType (s.fs.dentry i)) ≤ 3#32) ∧
        (s.NameExists n filename → ∃ i, s.fs.lookup s.mem (s.userPtr filename) = some (some i)))
  | .closeFd i current _ => current ∈ stackVars ∧ ¬ (2 ≤ i.toNat ∧ i.toNat ∈ s.procs.inUse)
  | .between => True

/-! ### Opening a name that is found -/

variable {wild : Wild} {ptAddr : BitVec 32} {s s' : KState} {r filename : BitVec 32}
  {current : Ptr Block}

theorem success_ne_failure : success ≠ failure := by decide

/-- A driver of the table opens a name that the search finds. -/
theorem driverOpen_ne_failure {ty : BitVec 32} {fname : Ptr Block} {i : ℕ} (hty : ty ≤ 3#32)
    (h0 : fname ≠ Ptr.null) (hl : s.fs.lookup s.mem fname = some (some i))
    (h : driverOpen wild (.entry ty) fname s = some (r, s')) : r ≠ failure := by
  rw [driverOpen] at h
  split at h
  · cases h
    decide
  · obtain ⟨q, hq, he⟩ := Option.map_eq_some_iff.mp h
    cases he
    rw [FileSystem.directoryOpen, if_neg h0] at hq
    obtain ⟨⟨found, m⟩, hfound, hq⟩ := Option.bind_eq_some_iff.mp hq
    obtain rfl := FileSystem.readDentryByName_of_found h0 hl hfound
    cases hq
    exact success_ne_failure
  · obtain ⟨q, hq, he⟩ := Option.map_eq_some_iff.mp h
    cases he
    rw [FileSystem.fileOpen, if_neg h0] at hq
    rw [FileSystem.readDentryByName_of_found h0 hl hq]
    exact success_ne_failure
  · cases h
    decide
  · rename_i hnone
    rw [FotPtr.driver?] at hnone
    split_ifs at hnone with h₀ h₁ h₂ h₃
    bv_omega

/-- Where the search finds an entry with the type of a driver and a descriptor is free, `open`
returns the first that is. -/
theorem sysOpen_of_found {i fd : ℕ} (hcur : current ∈ stackVars) (hfs : s.fs.OnBlock .flat)
    (h0 : ¬ (filename = 0#32 ∨ s.procs.filedArray = 0#32))
    (hl : s.fs.lookup s.mem (s.userPtr filename) = some (some i))
    (hty : readWord s.mem (Dentry.fileType (s.fs.dentry i)) ≤ 3#32)
    (hfree : s.procs.firstFree = some fd) (h : sysOpen wild filename current s = some (r, s')) :
    r = BitVec.ofNat 32 fd := by
  have hnull : s.userPtr filename ≠ Ptr.null := KState.userPtr_ne_null fun he => h0 (.inl he)
  obtain ⟨⟨found, m⟩, hfound⟩ :
      ∃ q, s.fs.readDentryByName (s.userPtr filename) current s.mem = some q := by
    rw [sysOpen, if_neg h0] at h
    obtain ⟨q, hq, -⟩ := Option.bind_eq_some_iff.mp h
    exact ⟨q, hq⟩
  obtain rfl := FileSystem.readDentryByName_of_found hnull hl hfound
  rw [sysOpen_of_readDentryByName wild hcur h0 hfound, hfree] at h
  obtain ⟨hle, hi⟩ := FileSystem.lookup_lt hl
  obtain ⟨hout, hcopied⟩ :=
    FileSystem.readDentryByName_of_blk_ne hfs (blk_ne_flat_of_mem hcur) hfound
  obtain ⟨htype, -⟩ := hcopied i hl hle rfl
  rw [hi] at htype
  -- The driver searches again, in a memory with the same image and the same name.
  have hl' : s.fs.lookup m (s.userPtr filename) = some (some i) := by
    rw [← hl]
    refine FileSystem.lookup_congr hfs
      (hout.mono (Ptr.inBlock_subset_compl_inBlock (blk_ne_flat_of_mem hcur).symm))
      fun k => hout (s.blk_userPtr_ne_of_mem hcur)
  obtain ⟨⟨result, s₁⟩, hopen, h₂⟩ := Option.bind_eq_some_iff.mp h
  rw [openedEntry, htype] at hopen
  have hresult : result ≠ failure := driverOpen_ne_failure hty hnull hl' hopen
  dsimp only at h₂
  rw [if_neg hresult] at h₂
  cases h₂
  rfl

/-- Where the search finds entry `i`, `open` copies it to `current`, and a second search finds it
again. -/
theorem exists_current {i n k : ℕ} (hcur : current ∈ stackVars) (hfs : s.fs.OnBlock .flat)
    (h0 : filename ≠ 0#32)
    (hl : s.fs.lookup s.mem (s.userPtr filename) = some (some i))
    (hn : HasLength s.mem (Dentry.fileName (s.fs.dentry i)) n)
    (hk : HasLength s.mem (Dentry.reserved (s.fs.dentry i)) k) :
    ∃ m, s.fs.readDentryByName (s.userPtr filename) current s.mem = some (success, m) ∧
      Set.EqOn m s.mem (Ptr.inBlock .flat) ∧
      s.fs.lookup m (s.userPtr filename) = some (some i) ∧
      readWord m (Dentry.fileType current) =
        readWord s.mem (Dentry.fileType (s.fs.dentry i)) ∧
      readWord m (Dentry.inodeIndex current) =
        readWord s.mem (Dentry.inodeIndex (s.fs.dentry i)) := by
  obtain ⟨hle, hi⟩ := FileSystem.lookup_lt hl
  have hd : current.blk ≠ (s.fs.dentry (BitVec.ofNat 32 i).toNat).blk := by
    rw [hfs.blk_dentry]
    exact blk_ne_flat_of_mem hcur
  rw [← hi] at hn hk
  obtain ⟨m, hcopy⟩ := exists_copyDentry_of_blk_ne hd hn hk
  obtain ⟨hout, htype, hinode⟩ := copyDentry_of_blk_ne hd hcopy
  have hm : Set.EqOn m s.mem (Ptr.inBlock .flat) :=
    hout.mono (Ptr.inBlock_subset_compl_inBlock (blk_ne_flat_of_mem hcur).symm)
  rw [hi] at htype hinode
  refine ⟨m, FileSystem.readDentryByName_of_copy (KState.userPtr_ne_null h0) hl hle hcopy, hm, ?_,
    htype, hinode⟩
  rw [← hl]
  exact FileSystem.lookup_congr hfs hm fun k => hout (s.blk_userPtr_ne_of_mem hcur)

/-- Where the search finds entry `i` and a descriptor is free, `open` copies the entry to `current`
and returns the descriptor, when the driver of the entry opens. -/
theorem exists_opening (wild : Wild) {i fd n k : ℕ} (hcur : current ∈ stackVars)
    (hfs : s.fs.OnBlock .flat) (h0 : ¬ (filename = 0#32 ∨ s.procs.filedArray = 0#32))
    (hl : s.fs.lookup s.mem (s.userPtr filename) = some (some i))
    (hn : HasLength s.mem (Dentry.fileName (s.fs.dentry i)) n)
    (hk : HasLength s.mem (Dentry.reserved (s.fs.dentry i)) k)
    (hfree : s.procs.firstFree = some fd) :
    ∃ m, Set.EqOn m s.mem (Ptr.inBlock .flat) ∧
      s.fs.lookup m (s.userPtr filename) = some (some i) ∧
      readWord m (Dentry.fileType current) =
        readWord s.mem (Dentry.fileType (s.fs.dentry i)) ∧
      readWord m (Dentry.inodeIndex current) =
        readWord s.mem (Dentry.inodeIndex (s.fs.dentry i)) ∧
      ∀ result s', result ≠ failure →
        driverOpen wild (openedEntry m current).fileotPointer (s.userPtr filename)
          { s with mem := m, procs := s.procs.setFd fd (openedEntry m current) } =
            some (result, s') →
        sysOpen wild filename current s = some (BitVec.ofNat 32 fd, s') := by
  obtain ⟨m, hname, hm, hl', htype, hinode⟩ :=
    exists_current hcur hfs (fun he => h0 (.inl he)) hl hn hk
  refine ⟨m, hm, hl', htype, hinode, fun result s' hresult hopen => ?_⟩
  rw [sysOpen_of_readDentryByName wild hcur h0 hname, hfree]
  exact Option.bind_eq_some_iff.mpr ⟨(result, s'), hopen, if_neg hresult⟩

/-! ### The descriptors in use -/

namespace ProcTable

variable {t : ProcTable}

theorem not_mem_inUse_of_firstFree {fd : ℕ} (h : t.firstFree = some fd) :
    fd < fdarrayMax ∧ fd ∉ t.inUse := by
  obtain ⟨hlt, hflags, -⟩ := firstFree_eq_some_iff.mp h
  exact ⟨hlt, fun hin => hin.2 hflags⟩

theorem firstFree_eq_none_iff : t.firstFree = none ↔ t.inUse = allFds := by
  constructor
  · intro h
    ext fd
    exact ⟨fun hfd => hfd.1, fun hfd => ⟨hfd, firstFree_eq_none h hfd⟩⟩
  · intro h
    cases hfree : t.firstFree with
    | none => rfl
    | some fd =>
      obtain ⟨hlt, hnot⟩ := not_mem_inUse_of_firstFree hfree
      exact absurd (h ▸ hlt : fd ∈ t.inUse) hnot

theorem inUse_setFd {fd : ℕ} {e : FdEntry} (h : fd < fdarrayMax) (he : e.flags ≠ 0#32) :
    (t.setFd fd e).inUse = {fd' | fd' ∈ t.inUse ∨ fd' = fd} := by
  ext fd'
  show fd' < fdarrayMax ∧ ((t.setFd fd e).fds fd').flags ≠ 0#32 ↔ fd' ∈ t.inUse ∨ fd' = fd
  rw [fds_setFd]
  by_cases hfd : fd' = fd
  · subst hfd
    rw [Function.update_self]
    exact iff_of_true ⟨h, he⟩ (.inr rfl)
  · rw [Function.update_of_ne hfd]
    exact (or_iff_left hfd).symm

end ProcTable

/-! ### Runs -/

/-- What a process that opens and closes relies on. -/
structure KState.Ready (s : KState) : Prop where
  /-- The image lies in the flat address space. -/
  onBlock : s.fs.OnBlock .flat
  /-- There is a current process. -/
  filedArray : s.procs.filedArray ≠ 0#32

theorem KState.Keeps.ready (h : s.Keeps s') (hs : s.Ready) : s'.Ready :=
  ⟨h.fs ▸ hs.onBlock, h.procs ▸ hs.filedArray⟩

theorem keeps_of_isBetween {e : Event} (he : e.IsBetween) (h : s.Step wild e s') : s.Keeps s' := by
  cases h with
  | user => exact ⟨rfl, rfl, rfl, rfl⟩
  | stack => exact ⟨rfl, rfl, rfl, rfl⟩
  | key => exact ⟨rfl, rfl, rfl, rfl⟩
  | _ => exact he.elim

/-- A descriptor as a result of `open`. -/
theorem ofNat_fd {fd : ℕ} (h : fd < fdarrayMax) :
    BitVec.ofNat 32 fd ≠ failure ∧ (BitVec.ofNat 32 fd).toNat = fd := by
  revert fd
  decide

theorem expectedInUse_openFile_failure (used : Set ℕ) :
    expectedInUse used (.openFile filename current failure) = used := by
  ext fd
  exact or_iff_left fun h => h.1 rfl

theorem expectedInUse_openFile_ofNat (used : Set ℕ) {fd : ℕ} (h : fd < fdarrayMax) :
    expectedInUse used (.openFile filename current (BitVec.ofNat 32 fd)) =
      {fd' | fd' ∈ used ∨ fd' = fd} := by
  obtain ⟨hne, hfd⟩ := ofNat_fd h
  ext fd'
  show fd' ∈ used ∨ _ ∧ _ ↔ fd' ∈ used ∨ fd' = fd
  rw [hfd, and_iff_right hne]

/-- A call of `close` that satisfies `LifeOk` has no descriptor to free. -/
theorem expectedInUse_closeFd {i : BitVec 32} {used : Set ℕ}
    (h : ¬ (2 ≤ i.toNat ∧ i.toNat ∈ used)) :
    expectedInUse used (.closeFd i current r) = used := by
  ext fd
  refine and_iff_left_of_imp fun hfd hclosed => h ?_
  rw [← hclosed.2]
  exact ⟨hclosed.1, hfd⟩

/-- The step lemma for `open`. -/
theorem sysOpen_lawful (hw : Benign wild) {n : ℕ}
    (h : sysOpen wild filename current s = some (r, s'))
    (hok : LifeOk n s (.openFile filename current r)) (hs : s.Ready) :
    Lawful n s (.openFile filename current r) s' ∧ s'.Ready := by
  obtain ⟨hcur, hok⟩ := hok
  rcases sysOpen_cases hw hcur h with ⟨hkeeps, rfl⟩ | ⟨m, fd, h0, hfound, hfree, ht, hfs, -⟩
  · refine ⟨⟨?_, ?_⟩, hkeeps.ready hs⟩
    · rw [hkeeps.procs, expectedInUse_openFile_failure]
    · rintro _ _ _ ⟨⟩
      refine ⟨fun hne => absurd rfl hne, fun hexists _ => ?_⟩
      -- With a descriptor free, the name would have been found and the driver would have opened it.
      by_contra hfull
      obtain ⟨htype, hlookup⟩ := hok hexists.1 hfull
      obtain ⟨i, hi⟩ := hlookup hexists
      obtain ⟨fd, hfree⟩ :=
        Option.ne_none_iff_exists'.mp (mt ProcTable.firstFree_eq_none_iff.mp hfull)
      have hr := sysOpen_of_found hcur hs.onBlock (not_or.mpr ⟨hexists.1, hs.filedArray⟩) hi
        (htype i hi) hfree h
      exact (ofNat_fd (ProcTable.firstFree_eq_some_iff.mp hfree).1).1 hr.symm
  · obtain ⟨hlt, hnot⟩ := ProcTable.not_mem_inUse_of_firstFree hfree
    have hfull : s.procs.inUse ≠ allFds := fun he => hnot (he ▸ hlt)
    obtain ⟨i, hi⟩ : ∃ i, s.fs.lookup s.mem (s.userPtr filename) = some (some i) := by
      rcases FileSystem.readDentryByName_cases hfound with ⟨-, hr, -⟩ | ⟨i, r', -, hi, -⟩
      · exact absurd hr success_ne_failure
      · exact ⟨i, hi⟩
    obtain rfl := sysOpen_of_found hcur hs.onBlock (not_or.mpr ⟨h0, hs.filedArray⟩) hi
      ((hok h0 hfull).1 i hi) hfree h
    refine ⟨⟨?_, ?_⟩, ⟨hfs ▸ hs.onBlock, ht ▸ hs.filedArray⟩⟩
    · rw [ht, expectedInUse_openFile_ofNat _ hlt, ProcTable.inUse_setFd hlt]
      show 1#32 ≠ 0#32
      decide
    · rintro _ _ _ ⟨⟩
      refine ⟨fun _ => ?_, fun _ hr => absurd hr (ofNat_fd hlt).1⟩
      rw [(ofNat_fd hlt).2]
      exact ⟨hlt, hnot⟩

/-- **The step lemma**: a call that satisfies `LifeOk` is lawful. -/
theorem LifeStep.lawful (hw : Benign wild) {n : ℕ} {c : FdCall} (h : LifeStep wild s c s')
    (hok : LifeOk n s c) (hs : s.Ready) : Lawful n s c s' ∧ s'.Ready := by
  cases h with
  | openFile hopen => exact sysOpen_lawful hw hopen hok hs
  | closeFd hclose =>
    have hkeeps := (sysClose_effects hok.1 hclose).keeps hw
    refine ⟨⟨?_, fun _ _ _ hc => by cases hc⟩, hkeeps.ready hs⟩
    rw [hkeeps.procs, expectedInUse_closeFd hok.2]
  | between he hstep =>
    have hkeeps := keeps_of_isBetween he hstep
    refine ⟨⟨?_, fun _ _ _ hc => by cases hc⟩, hkeeps.ready hs⟩
    rw [hkeeps.procs]
    rfl

/-- Where a process runs, it is ready. -/
theorem Reachable.ready (hw : Benign wild) (h : Reachable wild ptAddr s) : s.Ready := by
  obtain ⟨c, hc⟩ := h.exists_chain hw
  refine ⟨h.onBlock hw, fun h0 => ?_⟩
  have haddr := toNat_pcbAddr hc.lt
  have hlt := hc.lt
  rw [← hc.filedArray, h0] at haddr
  rw [maxProcessNumber] at hlt
  have hzero : (0#32).toNat = 0 := rfl
  omega

/-- **The life of a descriptor.** A process has just been started by `execute`. In every run of its
calls of `open` and `close` that satisfy `LifeOk`, every call is lawful, and the descriptors in use
are 0, 1 and those that `open` returned and `close` did not release. -/
theorem descriptors_lifecycle (hw : Benign wild) {s₀ : KState} (h : Reachable wild ptAddr s₀)
    {command : List UInt8} {eip esp : BitVec 32}
    (hex : execute command s = some (.user eip esp, s₀)) {n : ℕ} {calls : List FdCall}
    (hrun : Run (Guarded (LifeOk n) (LifeStep wild)) s₀ calls s') :
    Run (Ensured (LifeStep wild) (Lawful n)) s₀ calls s' ∧
      s'.procs.inUse = calls.foldl expectedInUse {0, 1} := by
  have hlawful : Run (Ensured (Guarded (LifeOk n) (LifeStep wild)) (Lawful n)) s₀ calls s' :=
    hrun.strengthen (P := KState.Ready) (fun _ _ _ hs hstep => hstep.2.lawful hw hstep.1 hs)
      (h.ready hw)
  refine ⟨hlawful.mono fun _ _ _ hstep => ⟨hstep.1.2, hstep.2⟩, ?_⟩
  exact hlawful.fold_invariant (P := fun s used => s.procs.inUse = used)
    (fun _ _ _ _ hused hstep => by rw [hstep.2.1, hused]) (inUse_of_execute hex)

/-! ### A program that opens the real-time clock -/

/-- Where the search finds the real-time clock and a descriptor is free, `open` returns it. -/
theorem exists_sysOpen_rtc (wild : Wild) {i fd n k : ℕ} (hcur : current ∈ stackVars)
    (hs : s.Ready) (h0 : filename ≠ 0#32)
    (hl : s.fs.lookup s.mem (s.userPtr filename) = some (some i))
    (hn : HasLength s.mem (Dentry.fileName (s.fs.dentry i)) n)
    (hk : HasLength s.mem (Dentry.reserved (s.fs.dentry i)) k)
    (hty : readWord s.mem (Dentry.fileType (s.fs.dentry i)) = 0#32)
    (hfree : s.procs.firstFree = some fd) :
    ∃ s', sysOpen wild filename current s = some (BitVec.ofNat 32 fd, s') ∧ s'.fs = s.fs ∧
      Set.EqOn s'.mem s.mem (Ptr.inBlock .flat) ∧
      s'.fs.lookup s'.mem (s'.userPtr filename) = some (some i) ∧ s'.rtcFreq = 2 ∧
      ∃ e : FdEntry, e.fileotPointer = .entry 0#32 ∧ e.flags ≠ 0#32 ∧
        s'.procs = s.procs.setFd fd e := by
  obtain ⟨m, hm, hl', htype, -, hopen⟩ := exists_opening wild hcur hs.onBlock
    (not_or.mpr ⟨h0, hs.filedArray⟩) hl hn hk hfree
  rw [hty] at htype
  set s₁ : KState := { s with mem := m, procs := s.procs.setFd fd (openedEntry m current) } with hs₁
  have hrtc : driverOpen wild (openedEntry m current).fileotPointer (s.userPtr filename) s₁ =
      some (rtcopen s₁) := by
    rw [openedEntry, htype]
    rfl
  refine ⟨(rtcopen s₁).2, hopen 0#32 _ (by decide) hrtc, rfl, hm, hl', rfl,
    openedEntry m current, ?_, ?_, rfl⟩
  · rw [openedEntry, htype]
  · exact (by decide : (1#32 : BitVec 32) ≠ 0#32)

/-- With the sample image, the first process stores a name at the start of its page. -/
theorem exists_named_sample (name : List UInt8) (hlen : name.length ≤ 2 ^ 32) :
    ∃ s₀ s₁ eip esp, Reachable sampleWild 0x401000#32 s₀ ∧ Reachable sampleWild 0x401000#32 s₁ ∧
      execute shell sampleBoot = some (.user eip esp, s₀) ∧ LifeStep sampleWild s₀ .between s₁ ∧
      s₁.fs = sampleBoot.fs ∧ Set.EqOn s₁.mem sampleMem (Ptr.inBlock .flat) ∧
      s₁.procs.inUse = {fd | fd < 2} ∧
      ∀ k (hk : k < name.length), s₁.mem ((s₁.userPtr userMem).shift k) = name[k] := by
  obtain ⟨s, hex, hfs, hmem, -⟩ := execute_shell_sampleBoot
  have hreach : Reachable sampleWild 0x401000#32 s :=
    ⟨sampleBoot, s, _, _, [], isBoot_sampleBoot, hex, .nil s⟩
  set page : Ptr Block := s.userPtr userMem with hpage
  have hblk : page.blk = .page s.userFrameNumber := by
    rw [hpage, KState.userPtr, if_pos (by decide)]
  set m := writeBytes s.mem page name with hm
  have hstep : s.Step sampleWild .user { s with mem := m } :=
    .user ((writeBytes_eqOn ..).mono (Set.compl_subset_compl.mpr fun q hq => hq.1.trans hblk))
  have hflat : Set.EqOn m sampleMem (Ptr.inBlock .flat) := by
    refine Set.EqOn.trans ((writeBytes_eqOn ..).mono (Ptr.inBlock_subset_compl_span ?_ _)) hmem
    rw [hblk]
    exact Block.noConfusion
  have hused : s.procs.inUse = {fd | fd < 2} := by
    rw [inUse_of_execute hex]
    ext fd
    exact Nat.le_one_iff_eq_zero_or_eq_one.symm.trans Nat.lt_succ_iff.symm
  refine ⟨s, { s with mem := m }, _, _, hreach, hreach.step hstep trivial, hex,
    .between (e := .user) trivial hstep, hfs, hflat, hused, fun k hk => ?_⟩
  exact writeBytes_shift s.mem page name hlen hk

/-- The clock of the sample image can be opened under the name at the start of the page, and of the
first `k` descriptors, which are in use, all but the first two are for it. -/
structure KState.Clock (k : ℕ) (s : KState) : Prop where
  /-- The globals of the file system. -/
  fs : s.fs = sampleBoot.fs
  /-- The image. -/
  flat : Set.EqOn s.mem sampleMem (Ptr.inBlock .flat)
  /-- The name is found in entry 1. -/
  lookup : s.fs.lookup s.mem (s.userPtr userMem) = some (some 1)
  /-- The descriptors. -/
  inUse : s.procs.inUse = {fd | fd < k}
  /-- Their drivers. -/
  pointer : ∀ fd, 2 ≤ fd → fd < k → (s.procs.fds fd).fileotPointer = .entry 0#32

namespace KState.Clock

variable {k : ℕ} (hc : s.Clock k)

include hc

/-- The strings of the entries end. -/
theorem ends : s.fs.EntriesEnd s.mem := by
  rw [hc.fs]
  exact entriesEnd_sampleMem.congr hc.flat

/-- Entry 1 is the clock. -/
theorem type : readWord s.mem (Dentry.fileType (s.fs.dentry 1)) = 0#32 := by
  rw [hc.fs, FileSystem.readWord_congr_inBlock (p := Dentry.fileType (sampleBoot.fs.dentry 1)) rfl
    hc.flat]
  decide

/-- The clock is opened once more. -/
theorem exists_sysOpen (wild : Wild) (hs : s.Ready) (hk : k < fdarrayMax) (h2 : 2 ≤ k) :
    ∃ s', sysOpen wild userMem Local.current.ptr s = some (BitVec.ofNat 32 k, s') ∧
      s'.Clock (k + 1) ∧ s'.rtcFreq = 2 := by
  obtain ⟨n, r, hn, hr⟩ := hc.ends.ends 1 (by decide) (FileSystem.lookup_lt hc.lookup).1
  have hfree := ProcTable.firstFree_of_inUse hc.inUse hk
  obtain ⟨s', hopen, hfs, hmem, hlookup, hfreq, e, he, hflags, hprocs⟩ :=
    exists_sysOpen_rtc wild (Local.ptr_mem_stackVars .current) hs (by decide) hc.lookup hn hr
      hc.type hfree
  refine ⟨s', hopen, ⟨hfs.trans hc.fs, hmem.trans hc.flat, hlookup, ?_, fun fd h2 hlt => ?_⟩, hfreq⟩
  · rw [hprocs, ProcTable.inUse_setFd hk hflags, hc.inUse]
    ext fd
    exact Nat.lt_succ_iff_lt_or_eq.symm
  · rw [hprocs, ProcTable.fds_setFd]
    rcases Nat.lt_succ_iff_lt_or_eq.mp hlt with hlt | rfl
    · rw [Function.update_of_ne hlt.ne]
      exact hc.pointer fd h2 hlt
    · rw [Function.update_self, he]

/-- Descriptor 2, once it is in use, passes the checks of `read` and is for the clock. -/
theorem readAccepts (hk : 2 < k) : readAccepts s.procs 2#32 userMem 1#32 ∧
    (s.procs.fds 2).fileotPointer.driver? = some .rtc := by
  have hin : 2 ∈ s.procs.inUse := by
    rw [hc.inUse]
    exact hk
  refine ⟨⟨⟨by decide, by decide⟩, by decide, hin.2⟩, ?_⟩
  rw [hc.pointer 2 le_rfl hk]
  rfl

end KState.Clock

/-- With the sample image, the first process stores the name of the clock in its page. -/
theorem exists_clock_sample :
    ∃ s₀ s₁ eip esp, Reachable sampleWild 0x401000#32 s₀ ∧ Reachable sampleWild 0x401000#32 s₁ ∧
      execute shell sampleBoot = some (.user eip esp, s₀) ∧ LifeStep sampleWild s₀ .between s₁ ∧
      s₁.Clock 2 := by
  obtain ⟨s₀, s₁, eip, esp, hreach, hreach₁, hex, hbetween, hfs, hflat, hused, hname⟩ :=
    exists_named_sample [0x72, 0x74, 0x63, 0] (by decide)
  have hon : s₁.fs.OnBlock .flat := (hreach₁.ready benign_sampleWild).onBlock
  have hbyte (i k : ℕ) : s₁.mem ((Dentry.fileName (s₁.fs.dentry i)).shift k) =
      sampleMem ((Dentry.fileName (s₁.fs.dentry i)).shift k) :=
    FileSystem.fileName_congr hon hflat i k
  have hlookup : s₁.fs.lookup s₁.mem (s₁.userPtr userMem) = some (some 1) := by
    refine FileSystem.scanDentry_eq_some_some.mpr ⟨Nat.zero_le 1, ?_, ?_, fun k _ hk => ?_⟩
    · rw [FileSystem.dentryNum_congr hon hflat, hfs]
      decide
    · refine ⟨3, ?_, fun k hk => ?_⟩
      · have hlen : HasLength sampleMem (Dentry.fileName (s₁.fs.dentry 1)) 3 := by
          rw [hfs]
          exact ⟨by decide, by decide⟩
        exact hlen.congr fun k _ => hbyte 1 k
      · rw [hname k (by simp; omega), hbyte, hfs]
        revert k
        decide
    · obtain rfl : k = 0 := by omega
      refine ⟨5, ?_, fun hp => ?_⟩
      · have hlen : HasLength sampleMem (Dentry.fileName (s₁.fs.dentry 0)) 5 := by
          rw [hfs]
          exact ⟨by decide, by decide⟩
        exact hlen.congr fun k _ => hbyte 0 k
      · have hfirst := hp 0 (by decide)
        rw [hname 0 (by decide), hbyte, hfs] at hfirst
        exact absurd hfirst (by decide)
  exact ⟨s₀, s₁, _, _, hreach, hreach₁, hex, hbetween, hfs, hflat, hlookup, hused,
    fun fd h2 hlt => absurd hlt (Nat.not_lt_of_le h2)⟩

/-- With the sample image, the first process opens the clock until the first `k` descriptors are in
use. -/
theorem exists_opened_sample {k : ℕ} (h3 : 3 ≤ k) (h8 : k ≤ fdarrayMax) :
    ∃ s, Reachable sampleWild 0x401000#32 s ∧ s.Clock k ∧ s.rtcFreq = 2 := by
  induction k, h3 using Nat.le_induction with
  | base =>
    obtain ⟨-, s, -, -, -, h, -, -, hclock⟩ := exists_clock_sample
    obtain ⟨s', hopen, hclock'⟩ :=
      hclock.exists_sysOpen sampleWild (h.ready benign_sampleWild) (by decide) le_rfl
    exact ⟨s', h.step (.sysOpen hopen) (Local.ptr_mem_stackVars .current), hclock'⟩
  | succ k h3 ih =>
    obtain ⟨s, h, hclock, -⟩ := ih (Nat.le_of_succ_le h8)
    obtain ⟨s', hopen, hclock'⟩ :=
      hclock.exists_sysOpen sampleWild (h.ready benign_sampleWild) h8 (Nat.le_of_succ_le h3)
    exact ⟨s', h.step (.sysOpen hopen) (Local.ptr_mem_stackVars .current), hclock'⟩

/-- With the sample image, the first process stores a name in its page and opens it. -/
theorem exists_open_sample :
    ∃ s₀ s₁ s₂ eip esp, Reachable sampleWild 0x401000#32 s₀ ∧
      execute shell sampleBoot = some (.user eip esp, s₀) ∧ LifeStep sampleWild s₀ .between s₁ ∧
      sysOpen sampleWild userMem Local.current.ptr s₁ = some (2#32, s₂) ∧
      s₁.fs.lookup s₁.mem (s₁.userPtr userMem) = some (some 1) ∧
      readWord s₁.mem (Dentry.fileType (s₁.fs.dentry 1)) = 0#32 ∧ s₂.fs.EntriesEnd s₂.mem := by
  obtain ⟨s₀, s₁, eip, esp, hreach, hreach₁, hex, hbetween, hclock⟩ := exists_clock_sample
  obtain ⟨s₂, hopen, hclock₂, -⟩ :=
    hclock.exists_sysOpen sampleWild (hreach₁.ready benign_sampleWild) (by decide) le_rfl
  exact ⟨s₀, s₁, s₂, _, _, hreach, hex, hbetween, hopen, hclock.lookup, hclock.type, hclock₂.ends⟩

theorem descriptors_lifecycle_sample :
    ∃ s₀ s₁ s₂, Reachable sampleWild 0x401000#32 s₀ ∧
      LifeStep sampleWild s₀ .between s₁ ∧
      sysOpen sampleWild userMem Local.current.ptr s₁ = some (2#32, s₂) ∧
      s₂.procs.inUse = {0, 1, 2} := by
  obtain ⟨s₀, s₁, s₂, eip, esp, h, hex, hstep, hopen, hlookup, htype, -⟩ := exists_open_sample
  have hok : LifeOk 2 s₁ (.openFile userMem Local.current.ptr 2#32) := by
    refine ⟨Local.ptr_mem_stackVars .current, fun _ _ => ?_⟩
    refine ⟨fun i hi => ?_, fun _ => ⟨1, hlookup⟩⟩
    obtain rfl : 1 = i := Option.some.inj (Option.some.inj (hlookup.symm.trans hi))
    rw [htype]
    decide
  have hrun : Run (Guarded (LifeOk 2) (LifeStep sampleWild)) s₀
      [.between, .openFile userMem Local.current.ptr 2#32] s₂ :=
    .cons ⟨trivial, hstep⟩ (.single ⟨hok, .openFile hopen⟩)
  refine ⟨s₀, s₁, s₂, h, hstep, hopen, ?_⟩
  rw [(descriptors_lifecycle benign_sampleWild h hex hrun).2]
  ext fd
  show (fd = 0 ∨ fd = 1) ∨ _ ∧ fd = 2 ↔ fd = 0 ∨ fd = 1 ∨ fd = 2
  rw [or_assoc, and_iff_right (by decide)]

/-- The program opens the real-time clock, is given descriptor 2 and closes it: descriptor 2 is
still in use. -/
theorem close_frees_nothing :
    ¬ ∀ (s s₀ s' : KState) (command : List UInt8) (eip esp : BitVec 32) (calls : List FdCall),
      Reachable sampleWild 0x401000#32 s₀ → execute command s = some (.user eip esp, s₀) →
        Run (LifeStep sampleWild) s₀ calls s' →
          s'.procs.inUse = calls.foldl expectedInUse {0, 1} := by
  intro hall
  obtain ⟨s₀, s₁, s₂, eip, esp, h, hex, hstep, hopen, hlookup, htype, hends⟩ := exists_open_sample
  obtain ⟨r, s₃, hclose, -, -⟩ :=
    exists_sysClose returning_sampleWild hends 2#32 (Local.ptr_mem_stackVars .current)
  have hused := hall _ s₀ s₃ shell eip esp
    [.between, .openFile userMem Local.current.ptr 2#32, .closeFd 2#32 Local.current.ptr r] h hex
    (.cons hstep (.cons (.openFile hopen) (.single (.closeFd hclose))))
  have hused' := hall _ s₀ s₂ shell eip esp [.between, .openFile userMem Local.current.ptr 2#32]
    h hex
    (.cons hstep (.single (.openFile hopen)))
  have hin : 2 ∈ s₂.procs.inUse := by
    rw [hused']
    exact .inr ⟨by decide, rfl⟩
  have hclosed := sysClose_effects (Local.ptr_mem_stackVars .current) hclose
  rw [← (hclosed.keeps benign_sampleWild).procs, hused] at hin
  exact hin.2 ⟨le_rfl, rfl⟩

end Mp3Kernel
