import Mp3Kernel.FileSystem.Header
import Mp3Kernel.Process.Lifecycle

/-!
# Reading a file in pieces

Runs of `read` on a descriptor of a regular file. `read` hands the driver the field `position` of
the descriptor, but nothing ever advances it: every call delivers the file from its start. Before,
it calls the driver once with a name pointer that is not set, and takes the result 0 for a driver
without a read function; then it looks for the name of the inode, and the driver looks for the name
again. Each of the two calls of the driver may copy an entry over the header of the image.

## Main definitions

* `FileSystem.ProbeAnswers`: the first call of the driver does not return 0.
* `FileSystem.ResolvesTo`: the name that `read` looks up leads back to the inode.
* `KState.Reads`: the descriptor is one of a regular file, and the image is as it was.
* `ReadCall`, `ReadStep`: the calls with their results, and what may happen between them.
* `ReadOk`: a call does not take a path that goes wrong; `Delivers`: it does what it should.

## Main results

* `exists_sysRead`: the step lemma.
* `sequential_reads`: in a run of calls that satisfy `ReadOk` every call delivers its slice, and the
  next call does.
* `second_read_starts_over`: a run in which the second call delivers the wrong bytes.

Source: `process.c`, lines 372–403 and 453–507; `filesystem.c`, lines 88–152.
-/

namespace Mp3Kernel

open ByteMemory Transition

/-! ### The paths of one call -/

namespace FileSystem

variable (fs : FileSystem Block) (m : Mem Block)

/-- The image after the driver has been called with the name `probe`. -/
def afterProbe (probe : Ptr Block) : Mem Block :=
  if probe = Ptr.null then m
  else
    match fs.lookup m probe with
    | some (some i) => fs.stamp m i
    | _ => m

/-- The driver, called with the name `probe` and the offset `fd`, finds nothing, or finds an entry
of the boot block and does not return 0: the inode is above `inodes_num`, or the offset is behind
the end of the file, or it is before the end and some bytes are asked for. -/
def ProbeAnswers (probe : Ptr Block) (fd n : BitVec 32) : Prop :=
  probe ≠ Ptr.null → ∀ i, fs.lookup m probe = some (some i) → i < maxFileNumber ∧
    (fs.inodesNum (fs.stamp m i) < fs.entryInode m i ∨
      fs.fileLength (fs.stamp m i) (fs.entryInode m i) < fd ∨
      fd < fs.fileLength (fs.stamp m i) (fs.entryInode m i) ∧ n ≠ 0#32)

/-- The first entry with the inode is not behind `dentry_num`, and the search for its name finds
entry `i` of the boot block with this inode, which is not above `inodes_num` once the entry has been
copied over the header. -/
def ResolvesTo (inode : BitVec 32) (i : ℕ) : Prop :=
  i < maxFileNumber ∧ fs.entryInode m i = inode ∧ inode ≤ fs.inodesNum (fs.stamp m i) ∧
    ∃ j < maxFileNumber, BitVec.ofNat 32 j ≤ fs.dentryNum m ∧ fs.entryInode m j = inode ∧
      (∀ k < j, fs.entryInode m k ≠ inode) ∧
      fs.lookup m (Dentry.fileName (fs.dentry j)) = some (some i)

end FileSystem

/-- The buffer and the bytes asked for lie in the user page. -/
def PageBuffer (buf n : BitVec 32) : Prop :=
  userMem ≤ buf ∧ buf.toNat + n.toNat ≤ userEnd.toNat

/-- Descriptor `fd` of the current process is one that `open` has filled for a regular file with the
given inode, in an image that was well formed with the memory `m₀` and has not changed since but for
its header. -/
structure KState.Reads (m₀ : Mem Block) (inode fd : BitVec 32) (s : KState) : Prop where
  /-- The image. -/
  wellFormed : s.fs.WellFormed m₀
  /-- It lies in the flat address space. -/
  flat : s.fs.bootblockHead.blk = .flat
  /-- Only the header has changed. -/
  body : Set.EqOn s.mem m₀ s.fs.body
  /-- The driver. -/
  pointer : (s.procs.fds fd.toNat).fileotPointer = .entry 2#32
  /-- The inode. -/
  inode : (s.procs.fds fd.toNat).inode = inode
  /-- The position. -/
  position : (s.procs.fds fd.toNat).position = 0#32
  /-- The descriptor is in use. -/
  flags : (s.procs.fds fd.toNat).flags ≠ 0#32

variable {wild : Wild} {s s' : KState} {m₀ m : Mem Block} {inode fd buf n : BitVec 32}
  {probe : Ptr Block}

theorem KState.Reads.onBlock (hs : s.Reads m₀ inode fd) : s.fs.OnBlock .flat :=
  hs.flat ▸ hs.wellFormed.onBlock

/-- What a call leaves alone is enough for the next. -/
theorem KState.Reads.congr (hs : s.Reads m₀ inode fd) (hfs : s'.fs = s.fs)
    (hfds : s'.procs.fds = s.procs.fds) (hm : Set.EqOn s'.mem s.mem s.fs.body) :
    s'.Reads m₀ inode fd := by
  refine ⟨?_, ?_, ?_, ?_, ?_, ?_, ?_⟩
  · rw [hfs]
    exact hs.wellFormed
  · rw [hfs]
    exact hs.flat
  · rw [hfs]
    exact hm.trans hs.body
  · rw [hfds]
    exact hs.pointer
  · rw [hfds]
    exact hs.inode
  · rw [hfds]
    exact hs.position
  · rw [hfds]
    exact hs.flags

/-- The bytes asked for do not meet the image. -/
theorem PageBuffer.disjoint (h : PageBuffer buf n) (s : KState) :
    Disjoint ((s.userPtr buf).span n.toNat) (Ptr.inBlock .flat) := by
  by_cases h0 : n.toNat = 0
  · rw [h0, Ptr.span_zero]
    exact Set.empty_disjoint _
  · have hlt : buf < userEnd := BitVec.lt_def.mpr (by have := h.2; omega)
    rw [KState.userPtr, if_pos ⟨h.1, hlt⟩]
    exact FileSystem.disjoint_span_inBlock Block.noConfusion _

/-- The sum of an offset and the count does not wrap. -/
theorem PageBuffer.add_lt (h : PageBuffer buf n) {offset : BitVec 32} (ho : offset.toNat < 2 ^ 31) :
    offset.toNat + n.toNat < 2 ^ 32 := by
  have hend : userEnd.toNat = 2 ^ 27 + 2 ^ 22 := rfl
  have := h.2
  omega

/-- The two comparisons of `read` accept the buffer. -/
theorem PageBuffer.accepts (h : PageBuffer buf n) : bufferAccepts buf n := by
  obtain ⟨hmem, hsum⟩ := h
  have hmem' : userMem.toInt = 2 ^ 27 := rfl
  have hend : userEnd.toInt = 2 ^ 27 + 2 ^ 22 := rfl
  have hmem₀ : userMem.toNat = 2 ^ 27 := rfl
  have hend₀ : userEnd.toNat = 2 ^ 27 + 2 ^ 22 := rfl
  rw [BitVec.le_def] at hmem
  have hadd : (buf + n).toNat = buf.toNat + n.toNat := by
    rw [BitVec.toNat_add]
    omega
  have hbuf := BitVec.toInt_eq_toNat_cond buf
  have hsum' := BitVec.toInt_eq_toNat_cond (buf + n)
  rw [bufferAccepts_iff]
  split_ifs at hbuf hsum' <;> omega

/-! ### The two calls of the driver -/

theorem failure_ne_zero : failure ≠ 0#32 := by decide

theorem driverRead_file (fname p : Ptr Block) (offset : BitVec 32) :
    driverRead wild (.entry 2#32) fname offset p n s =
      (s.fs.fileRead fname offset p n s.mem).map fun r => (r.1, { s with mem := r.2 }) := rfl

namespace KState.Reads

variable (hs : s.Reads m₀ inode fd)

include hs

/-- **The first call** of the driver does not return 0, and leaves the image as `afterProbe` says.
-/
theorem exists_probe (hbuf : PageBuffer buf n) (hfd : fd < 7#32)
    (hprobe : s.fs.ProbeAnswers s.mem probe fd n) :
    ∃ r m₁, s.fs.fileRead probe fd (s.userPtr buf) n s.mem = some (r, m₁) ∧ r ≠ 0#32 ∧
      Set.EqOn m₁ (s.fs.afterProbe s.mem probe) (Ptr.inBlock .flat) := by
  rcases hs.wellFormed.lookup_or_misses hs.body probe with ⟨h0, i, hl⟩ | hmissed
  · obtain ⟨hi, hanswer⟩ := hprobe h0 i hl
    have hread : s.fs.fileRead probe fd (s.userPtr buf) n s.mem =
        some (s.fs.readData (s.fs.entryInode s.mem i) fd (s.userPtr buf) n (s.fs.stamp s.mem i)) :=
      hs.wellFormed.fileRead_of_found hs.body h0 hl hi
    set m₁ := s.fs.stamp s.mem i with hm₁
    refine ⟨(s.fs.readData (s.fs.entryInode s.mem i) fd (s.userPtr buf) n m₁).1,
      (s.fs.readData (s.fs.entryInode s.mem i) fd (s.userPtr buf) n m₁).2, hread, ?_, ?_⟩
    · by_cases hbad : s.fs.inodesNum m₁ < s.fs.entryInode s.mem i ∨
          s.fs.fileLength m₁ (s.fs.entryInode s.mem i) < fd
      · rw [FileSystem.readData_of_invalid hbad]
        exact failure_ne_zero
      · obtain ⟨hin, hlen⟩ := not_or.mp hbad
        obtain ⟨hlt, hn⟩ := (hanswer.resolve_left hin).resolve_left hlen
        have hfd' : fd.toNat < 7 := BitVec.lt_def.mp hfd
        have hsum : fd.toNat + n.toNat < 2 ^ 32 := hbuf.add_lt (by omega)
        rw [FileSystem.readData_fst hs.wellFormed.head (BitVec.not_lt.mp hin)
          (BitVec.not_lt.mp hlen) hsum]
        intro hzero
        have hclip := FileSystem.toNat_clipLength (BitVec.not_lt.mp hlen) hsum
        have hn' : n.toNat ≠ 0 := fun h => hn (BitVec.eq_of_toNat_eq h)
        rw [BitVec.lt_def] at hlt
        rw [hzero, BitVec.toNat_ofNat] at hclip
        omega
    · rw [FileSystem.afterProbe, if_neg h0, hl]
      exact (FileSystem.readData_eqOn ..).mono
        (Set.subset_compl_iff_disjoint_left.mpr (hbuf.disjoint s))
  · refine ⟨failure, s.mem, hs.wellFormed.fileRead_of_missed hmissed, failure_ne_zero, ?_⟩
    rw [FileSystem.afterProbe]
    by_cases h0 : probe = Ptr.null
    · rw [if_pos h0]
      exact Set.eqOn_refl ..
    · rw [if_neg h0, hmissed.resolve_left h0]
      exact Set.eqOn_refl ..

/-- The first call leaves the image alone but for the header. -/
theorem afterProbe_eqOn (hprobe : s.fs.ProbeAnswers s.mem probe fd n) :
    Set.EqOn (s.fs.afterProbe s.mem probe) m₀ s.fs.body := by
  rw [FileSystem.afterProbe]
  split_ifs with h0
  · exact hs.body
  · split
    · rename_i i hl
      exact (hs.wellFormed.stamp_eqOn_body hs.body (hprobe h0 i hl).1).trans hs.body
    · exact hs.body

/-- **The second call** of the driver, with a copy of the name of entry `j`, delivers the file from
its start. -/
theorem exists_read (hbuf : PageBuffer buf n) (hin : inode < s.fs.inodesNum m₀) {m₁ : Mem Block}
    (hm₁ : Set.EqOn m₁ m₀ s.fs.body) (hm : Set.EqOn m m₁ (Ptr.inBlock .flat)) {i j l : ℕ}
    {name : Ptr Block} (h0 : name ≠ Ptr.null)
    (hl : HasLength m₁ (Dentry.fileName (s.fs.dentry j)) l)
    (hname : ∀ k ≤ l, m (name.shift k) = m₁ ((Dentry.fileName (s.fs.dentry j)).shift k))
    (hi : i < maxFileNumber)
    (hlookup : s.fs.lookup m₁ (Dentry.fileName (s.fs.dentry j)) = some (some i))
    (hinode : s.fs.entryInode m₁ i = inode) (hle : inode ≤ s.fs.inodesNum (s.fs.stamp m₁ i)) :
    ∃ r m₂, s.fs.fileRead name 0#32 (s.userPtr buf) n m = some (r, m₂) ∧
      r.toNat = min n.toNat (s.fs.fileLength m₀ inode).toNat ∧
      Set.EqOn m₂ (s.fs.stamp m₁ i) (Ptr.inBlock .flat) ∧
      ∀ k < r.toNat, m₂ ((s.userPtr buf).shift k) = s.fs.fileByte m₀ inode k := by
  have hwf := hs.wellFormed
  have hmbody : Set.EqOn m m₁ s.fs.body :=
    hm.mono fun _ hq => (FileSystem.body_subset_inBlock hq).trans hs.flat
  have hbody := hmbody.trans hm₁
  have hfound : s.fs.lookup m name = some (some i) := by
    rw [← hlookup]
    exact FileSystem.lookup_congr_of_hasLength hs.onBlock hm hl hname
  have hinode' : s.fs.entryInode m i = inode := (FileSystem.entryInode_eq hmbody hi).trans hinode
  have hread : s.fs.fileRead name 0#32 (s.userPtr buf) n m =
      some (s.fs.readData (s.fs.entryInode m i) 0#32 (s.userPtr buf) n (s.fs.stamp m i)) :=
    hwf.fileRead_of_found hbody h0 hfound hi
  rw [hinode'] at hread
  set m₂ := s.fs.stamp m i with hm₂
  have hstamp : Set.EqOn m₂ m₀ s.fs.body := (hwf.stamp_eqOn_body hbody hi).trans hbody
  have hcongr : Set.EqOn m₂ (s.fs.stamp m₁ i) (Ptr.inBlock .flat) :=
    hs.flat ▸ hwf.stamp_congr hm₁ hi (hs.flat.symm ▸ hm)
  have hle' : inode ≤ s.fs.inodesNum m₂ := by
    rwa [FileSystem.inodesNum_congr hs.onBlock hcongr]
  have hzero : 0#32 ≤ s.fs.fileLength m₂ inode := BitVec.le_def.mpr (Nat.zero_le _)
  have hsum : (0#32).toNat + n.toNat < 2 ^ 32 := hbuf.add_lt (by decide)
  have hlen : s.fs.fileLength m₂ inode = s.fs.fileLength m₀ inode := hwf.fileLength_eq hstamp hin
  have hcount : (s.fs.clipLength m₂ inode 0#32 n).toNat =
      min n.toNat (s.fs.fileLength m₀ inode).toNat := by
    rw [FileSystem.toNat_clipLength hzero hsum, hlen]
    rfl
  have hcut : (s.fs.clipLength m₂ inode 0#32 n).toNat ≤ n.toNat := by
    rw [hcount]
    exact Nat.min_le_left ..
  have hspec := FileSystem.readData_spec (I := Ptr.inBlock .flat) hwf.head hle' hzero hsum
    ((hbuf.disjoint s).mono_left (Ptr.span_mono hcut)) fun p _ => hs.onBlock.byteIn inode _
  have hfst : (s.fs.readData inode 0#32 (s.userPtr buf) n m₂).1 = s.fs.clipLength m₂ inode 0#32 n :=
    FileSystem.readData_fst hwf.head hle' hzero hsum
  refine ⟨(s.fs.readData inode 0#32 (s.userPtr buf) n m₂).1,
    (s.fs.readData inode 0#32 (s.userPtr buf) n m₂).2, hread, by rw [hfst, hcount], ?_,
    fun k hk => ?_⟩
  · refine (hspec.eqOn.mono ?_).trans hcongr
    exact Set.subset_compl_iff_disjoint_left.mpr ((hbuf.disjoint s).mono_left (Ptr.span_mono hcut))
  · rw [hfst] at hk
    have hbyte := hspec.delivered k hk
    have hk' : k < (s.fs.fileLength m₀ inode).toNat := by omega
    rw [hbyte]
    refine (congrArg (s.fs.fileByte m₂ inode) (Nat.zero_add k)).trans ?_
    exact hwf.fileByte_eq hstamp hin hk'

end KState.Reads

/-! ### The search for the name -/

/-- One round of the loop of `read` copies an entry to `tem_dentry`. -/
theorem exists_readDentryByIndex_temDentry {fs : FileSystem Block} {mb : Mem Block}
    (hon : fs.OnBlock .flat) {i : ℕ} (hi : i < maxFileNumber)
    (hterm : Dentry.Terminated mb (fs.dentry i)) (hle : BitVec.ofNat 32 i ≤ fs.dentryNum mb)
    (hm : Set.EqOn m mb (Ptr.inBlock .flat)) :
    ∃ m₁, fs.readDentryByIndex (BitVec.ofNat 32 i) Local.temDentry.ptr m = some (success, m₁) ∧
      Set.EqOn m₁ mb (Ptr.inBlock .flat) ∧
      readWord m₁ (Dentry.inodeIndex Local.temDentry.ptr) = fs.entryInode mb i ∧
      ∃ l, HasLength mb (Dentry.fileName (fs.dentry i)) l ∧
        ∀ x ≤ l, m₁ ((Dentry.fileName Local.temDentry.ptr).shift x) =
          mb ((Dentry.fileName (fs.dentry i)).shift x) := by
  have h63 : maxFileNumber = 63 := rfl
  have hblk : (Local.temDentry.ptr).blk ≠ (fs.dentry i).blk := by
    rw [hon.blk_dentry]
    decide
  obtain ⟨l, hl64, r, hr24, hl, hr⟩ := hterm.exists_length
  have hl' : HasLength m (Dentry.fileName (fs.dentry i)) l :=
    hl.congr fun x _ => FileSystem.fileName_congr hon hm i x
  have hr' : HasLength m (Dentry.reserved (fs.dentry i)) r :=
    hr.congr fun x _ => hm (hon.blk_dentry i)
  obtain ⟨m₁, hcopy, hc⟩ := exists_copyDentry hl64 hr24 hl' hr'
    (Ptr.disjoint_span_of_blk_ne hblk.symm _ _)
  have hlei : BitVec.ofNat 32 i ≤ fs.dentryNum m := by rwa [FileSystem.dentryNum_congr hon hm]
  have htoNat : (BitVec.ofNat 32 i).toNat = i := by
    rw [BitVec.toNat_ofNat]
    omega
  refine ⟨m₁, FileSystem.readDentryByIndex_of_copy hlei (by rw [htoNat]; exact hcopy), ?_, ?_,
    l, hl, fun x hx => ?_⟩
  · exact ((hc.eqOn_span (copiedPositions_subset hl64 hr24)).mono
      (Ptr.inBlock_subset_compl_span (by decide) _)).trans hm
  · have hcopied := hc.readWord (a := 36) fun x hx => .inl (.inl (.inr hx))
    exact hcopied.trans (FileSystem.readWord_congr_inBlock (hon.blk_dentry i) hm)
  · have hcopied := hc.copied x (.inl (.inr ⟨Nat.zero_le x, by omega⟩))
    rw [Dentry.fileName, Dentry.fileName, Ptr.shift_zero, Ptr.shift_zero]
    exact hcopied.trans (hm (hon.blk_dentry i))

/-- The loop of `read` stops at the first entry with the inode, with a copy of its name. -/
theorem exists_findInode {fs : FileSystem Block} {mb : Mem Block} (hon : fs.OnBlock .flat)
    (hterm : ∀ i < maxFileNumber, Dentry.Terminated mb (fs.dentry i)) {j : ℕ}
    (hj : j < maxFileNumber) (hle : BitVec.ofNat 32 j ≤ fs.dentryNum mb)
    (hinode : fs.entryInode mb j = inode) (hfirst : ∀ k < j, fs.entryInode mb k ≠ inode) {k i : ℕ}
    (hi : i ≤ j) (hk : j < i + k) (hm : Set.EqOn m mb (Ptr.inBlock .flat)) :
    ∃ m', findInode fs inode k i m = some (true, m') ∧ Set.EqOn m' mb (Ptr.inBlock .flat) ∧
      ∃ l, HasLength mb (Dentry.fileName (fs.dentry j)) l ∧
        ∀ x ≤ l, m' ((Dentry.fileName Local.temDentry.ptr).shift x) =
          mb ((Dentry.fileName (fs.dentry j)).shift x) := by
  induction k generalizing i m with
  | zero => omega
  | succ k ih =>
    have h63 : maxFileNumber = 63 := rfl
    have hlei : BitVec.ofNat 32 i ≤ fs.dentryNum mb := by
      rw [BitVec.le_def, BitVec.toNat_ofNat] at hle ⊢
      omega
    obtain ⟨m₁, hread, hout, hword, hname⟩ :=
      exists_readDentryByIndex_temDentry hon (by omega) (hterm i (by omega)) hlei hm
    rw [findInode, hread, Option.bind_eq_bind, Option.bind_some]
    dsimp only
    rw [hword]
    by_cases hij : i = j
    · subst hij
      rw [if_pos hinode]
      exact ⟨m₁, rfl, hout, hname⟩
    · rw [if_neg (hfirst i (by omega))]
      exact ih (by omega) (by omega) hout

/-! ### One call -/

/-- The name in `tem_dentry` is not the null pointer. -/
theorem fileName_temDentry_ne_null : Dentry.fileName Local.temDentry.ptr ≠ Ptr.null :=
  fun h => Block.noConfusion (congrArg Ptr.blk h)

/-- **The step lemma**: a call of `read` that takes no path that goes wrong before it reads delivers
the file from its start, whatever the descriptor has delivered before. -/
theorem exists_sysRead (wild : Wild) (hs : s.Reads m₀ inode fd) (hin : inode < s.fs.inodesNum m₀)
    (hbuf : PageBuffer buf n) (hfd : fd < 7#32 ∧ fd ≠ 1#32)
    (hprobe : s.fs.ProbeAnswers s.mem probe fd n) {i : ℕ}
    (hname : s.fs.ResolvesTo (s.fs.afterProbe s.mem probe) inode i) :
    ∃ r s', sysRead wild fd buf n probe s = some (r, s') ∧
      r.toNat = min n.toNat (s.fs.fileLength m₀ inode).toNat ∧ s'.fs = s.fs ∧
      s'.Reads m₀ inode fd ∧
      Set.EqOn s'.mem (s.fs.stamp (s.fs.afterProbe s.mem probe) i) (Ptr.inBlock .flat) ∧
      ∀ k < r.toNat, s'.mem ((s.userPtr buf).shift k) = s.fs.fileByte m₀ inode k := by
  obtain ⟨r₁, m₁, hfirst, hr₁, hm₁⟩ := hs.exists_probe hbuf hfd.1 hprobe
  have hbody := hs.afterProbe_eqOn hprobe
  obtain ⟨hi, hinode', hle', j, hj, hle, hinode, hbefore, hlookup⟩ := hname
  obtain ⟨m₂, hfind, hm₂, l, hl, hcopied⟩ := exists_findInode (k := maxFileNumber) (i := 0)
    hs.onBlock (fun i hi => hs.wellFormed.terminated_of_eqOn hbody hi) hj hle hinode hbefore
    (Nat.zero_le j) (by omega) hm₁
  obtain ⟨r, m₃, hsecond, hr, hm₃, hbytes⟩ := hs.exists_read hbuf hin hbody hm₂
    fileName_temDentry_ne_null hl hcopied hi hlookup hinode' hle'
  have haccepts : readAccepts s.procs fd buf n :=
    ⟨hbuf.accepts, not_or.mpr ⟨BitVec.not_le.mpr hfd.1, hfd.2⟩, hs.flags⟩
  have hstrlen : strlen m₂ (Dentry.fileName Local.temDentry.ptr) = some l :=
    strlen_of_hasLength (hl.congr hcopied)
  have hbody₃ : Set.EqOn m₃ m₀ s.fs.body :=
    (hm₃.mono fun _ hq => (FileSystem.body_subset_inBlock hq).trans hs.flat).trans
      ((hs.wellFormed.stamp_eqOn_body hbody hi).trans hbody)
  refine ⟨r, { s with mem := m₃ }, ?_, hr, rfl, hs.congr rfl rfl (hbody₃.trans hs.body.symm), hm₃,
    hbytes⟩
  rw [sysRead_of_accepts probe haccepts, readFd, hs.pointer, driverRead_file, hfirst]
  refine Option.bind_eq_some_iff.mpr ⟨(r₁, { s with mem := m₁ }), rfl, ?_⟩
  dsimp only
  rw [if_neg hr₁, hs.inode]
  refine Option.bind_eq_some_iff.mpr ⟨(true, m₂), hfind, ?_⟩
  dsimp only
  rw [if_neg (by decide), hs.pointer, hs.position, driverRead_file]
  refine Option.bind_eq_some_iff.mpr ⟨l, hstrlen, ?_⟩
  exact Option.map_eq_some_iff.mpr ⟨(r, m₃), hsecond, rfl⟩

/-! ### Opening the file -/

/-- The search of `open` finds a regular file of the boot block with the given inode, if it finds
anything. -/
def OpenOk (inode filename : BitVec 32) (s : KState) : Prop :=
  ∀ i, s.fs.lookup s.mem (s.userPtr filename) = some (some i) →
    i < maxFileNumber ∧ s.fs.entryType s.mem i = 2#32 ∧ s.fs.entryInode s.mem i = inode

/-- A descriptor that `open` fills for a regular file. -/
def regularEntry (inode : BitVec 32) : FdEntry := ⟨.entry 2#32, inode, 0#32, 1#32⟩

theorem KState.Reads.of_regularEntry (hwf : s.fs.WellFormed m₀)
    (hflat : s.fs.bootblockHead.blk = .flat) (hbody : Set.EqOn s.mem m₀ s.fs.body)
    (hentry : s.procs.fds fd.toNat = regularEntry inode) : s.Reads m₀ inode fd where
  wellFormed := hwf
  flat := hflat
  body := hbody
  pointer := congrArg FdEntry.fileotPointer hentry
  inode := congrArg FdEntry.inode hentry
  position := congrArg FdEntry.position hentry
  flags := by
    rw [hentry]
    show 1#32 ≠ 0#32
    decide

variable {filename : BitVec 32} {current : Ptr Block}

/-- Where the search finds a regular file and a descriptor is free, `open` returns it. -/
theorem exists_sysOpen_regular (wild : Wild) (hcur : current ∈ stackVars)
    (hwf : s.fs.WellFormed m₀) (hflat : s.fs.bootblockHead.blk = .flat)
    (hbody : Set.EqOn s.mem m₀ s.fs.body)
    (h0 : ¬ (filename = 0#32 ∨ s.procs.filedArray = 0#32)) {i c : ℕ}
    (hl : s.fs.lookup s.mem (s.userPtr filename) = some (some i)) (hi : i < maxFileNumber)
    (htype : s.fs.entryType s.mem i = 2#32) (hfree : s.procs.firstFree = some c) :
    ∃ s', sysOpen wild filename current s = some (BitVec.ofNat 32 c, s') ∧ s'.fs = s.fs ∧
      s'.procs = s.procs.setFd c (regularEntry (s.fs.entryInode s.mem i)) ∧
      Set.EqOn s'.mem (s.fs.stamp s.mem i) (Ptr.inBlock .flat) := by
  have hon : s.fs.OnBlock .flat := hflat ▸ hwf.onBlock
  have hnull : s.userPtr filename ≠ Ptr.null := KState.userPtr_ne_null fun he => h0 (.inl he)
  obtain ⟨n, -, r, -, hn, hr, -, -⟩ := hwf.exists_stamp hbody hi
  -- The entry is copied to `current`, and then the driver copies it over the header.
  obtain ⟨m, hm, hl', htype', hinode', hopen⟩ := exists_opening wild hcur hon h0 hl hn hr hfree
  have hmbody : Set.EqOn m m₀ s.fs.body :=
    (hm.mono fun _ hq => (FileSystem.body_subset_inBlock hq).trans hflat).trans hbody
  have hentry : openedEntry m current = regularEntry (s.fs.entryInode s.mem i) := by
    rw [openedEntry, regularEntry, htype', hinode']
    rw [FileSystem.entryType] at htype
    rw [htype, if_neg (by decide)]
    rfl
  have hdriver : s.fs.fileOpen (s.userPtr filename) m = some (success, s.fs.stamp m i) :=
    hwf.fileOpen_of_found hmbody hnull hl' hi
  rw [hentry] at hopen
  refine ⟨{ s with
    mem := s.fs.stamp m i
    procs := s.procs.setFd c (regularEntry (s.fs.entryInode s.mem i)) }, ?_, rfl, rfl, ?_⟩
  · exact hopen success _ success_ne_failure (Option.map_eq_some_iff.mpr ⟨_, hdriver, rfl⟩)
  · exact hflat ▸ hwf.stamp_congr hbody hi (hflat.symm ▸ hm)

/-- **A descriptor that `open` returns** for a regular file. -/
theorem reads_of_sysOpen (hcur : current ∈ stackVars) (hwf : s.fs.WellFormed m₀)
    (hflat : s.fs.bootblockHead.blk = .flat) (hbody : Set.EqOn s.mem m₀ s.fs.body)
    (hok : OpenOk inode filename s) (h : sysOpen wild filename current s = some (fd, s'))
    (hfd : fd ≠ failure) :
    s'.Reads m₀ inode fd ∧ s'.fs = s.fs := by
  by_cases h0 : filename = 0#32 ∨ s.procs.filedArray = 0#32
  · rw [sysOpen, if_pos h0] at h
    cases h
    exact absurd rfl hfd
  have hnull : s.userPtr filename ≠ Ptr.null := KState.userPtr_ne_null fun he => h0 (.inl he)
  rcases hwf.lookup_or_misses hbody (s.userPtr filename) with ⟨-, i, hl⟩ | hmissed
  · obtain ⟨hi, htype, hinode⟩ := hok i hl
    cases hfree : s.procs.firstFree with
    | none =>
      rcases sysOpen_opens hcur h with ⟨-, hr⟩ | ⟨m, c, result, -, -, hfree', -⟩
      · exact absurd hr hfd
      · rw [hfree] at hfree'
        cases hfree'
    | some c =>
      obtain ⟨hlt, -⟩ := ProcTable.firstFree_eq_some_iff.mp hfree
      obtain ⟨s₁, hopen, hfs, hprocs, hmem⟩ :=
        exists_sysOpen_regular wild hcur hwf hflat hbody h0 hl hi htype hfree
      obtain ⟨rfl, rfl⟩ := Prod.mk.inj (Option.some.inj (hopen.symm.trans h))
      have hentry : s₁.procs.fds (BitVec.ofNat 32 c).toNat = regularEntry inode := by
        rw [hprocs, (ofNat_fd hlt).2, ProcTable.fds_setFd, Function.update_self, hinode]
      have hbody₁ : Set.EqOn s₁.mem m₀ s.fs.body :=
        (hmem.mono fun _ hq => (FileSystem.body_subset_inBlock hq).trans hflat).trans
          ((hwf.stamp_eqOn_body hbody hi).trans hbody)
      exact ⟨.of_regularEntry (hfs ▸ hwf) (hfs ▸ hflat) (hfs ▸ hbody₁) hentry, hfs⟩
  · rw [sysOpen, if_neg h0] at h
    obtain ⟨⟨found, m⟩, hfound, h₁⟩ := Option.bind_eq_some_iff.mp h
    have hmiss : s.fs.Misses s.mem (s.userPtr filename) :=
      .inr fun i hi => by
        rw [hmissed.resolve_left hnull] at hi
        cases hi
    obtain ⟨rfl, rfl⟩ := FileSystem.readDentryByName_of_misses hmiss hfound
    cases (if_pos rfl).symm.trans h₁
    exact absurd rfl hfd

/-! ### Runs -/

/-- The calls of `read` on one descriptor, with their results. -/
inductive ReadCall
  /-- `read(fd, buf, n)`, with the name pointer that is not set. -/
  | read (buf n : BitVec 32) (probe : Ptr Block) (r : BitVec 32)
  /-- The program runs, or an interrupt is served. -/
  | between

/-- The steps of a process that reads a file of length `len`. The second component of a state is the
number of bytes that should have been delivered so far. -/
inductive ReadStep (wild : Wild) (fd : BitVec 32) (len : ℕ) :
    KState × ℕ → ReadCall → KState × ℕ → Prop
  | read {s s' : KState} {p : ℕ} {buf n r : BitVec 32} {probe : Ptr Block} :
      sysRead wild fd buf n probe s = some (r, s') →
        ReadStep wild fd len (s, p) (.read buf n probe r) (s', p + min n.toNat (len - p))
  | between {s s' : KState} {p : ℕ} {e : Event} :
      e.IsBetween → s.Step wild e s' → ReadStep wild fd len (s, p) .between (s', p)

/-- A call of `read` with a buffer in the user page takes no path that goes wrong. The descriptor is
one that `read` accepts, nothing has been delivered before or nothing is asked for, and neither the
first call of the driver nor the search for the name fails. -/
structure ReadOk (inode fd : BitVec 32) (s : KState) (p : ℕ) (buf n : BitVec 32)
    (probe : Ptr Block) : Prop where
  /-- The buffer. -/
  buffer : PageBuffer buf n
  /-- The descriptor. -/
  descriptor : fd < 7#32 ∧ fd ≠ 1#32
  /-- The position. -/
  position : p = 0 ∨ n = 0#32
  /-- The first call of the driver. -/
  answers : s.fs.ProbeAnswers s.mem probe fd n
  /-- The search for the name. -/
  resolves : ∃ i, s.fs.ResolvesTo (s.fs.afterProbe s.mem probe) inode i

/-- `ReadOk` for the calls of a run. -/
def ReadCallOk (inode fd : BitVec 32) : KState × ℕ → ReadCall → Prop
  | (s, p), .read buf n probe _ => ReadOk inode fd s p buf n probe
  | _, .between => True

/-- A call does what it should: it returns what is left of the file, or all that is asked for, and
the buffer holds the bytes of the file from the position on. -/
def Delivers (fs : FileSystem Block) (m₀ : Mem Block) (inode : BitVec 32) :
    KState × ℕ → ReadCall → KState × ℕ → Prop
  | (s, p), .read buf n _ r, (s', _) =>
    r.toNat = min n.toNat ((fs.fileLength m₀ inode).toNat - p) ∧
      ∀ k < r.toNat, s'.mem ((s.userPtr buf).shift k) = fs.fileByte m₀ inode (p + k)
  | _, .between, _ => True

/-- A call that satisfies `ReadOk` returns and delivers its slice. -/
theorem ReadOk.exists_sysRead {p : ℕ} (wild : Wild) (hok : ReadOk inode fd s p buf n probe)
    (hs : s.Reads m₀ inode fd) (hin : inode < s.fs.inodesNum m₀) :
    ∃ r s', sysRead wild fd buf n probe s = some (r, s') ∧ s'.fs = s.fs ∧ s'.Reads m₀ inode fd ∧
      ∀ q, Delivers s.fs m₀ inode (s, p) (.read buf n probe r) (s', q) := by
  obtain ⟨i, hname⟩ := hok.resolves
  obtain ⟨r, s', hread, hr, hfs, hs', -, hbytes⟩ :=
    Mp3Kernel.exists_sysRead wild hs hin hok.buffer hok.descriptor hok.answers hname
  refine ⟨r, s', hread, hfs, hs', fun q => ?_⟩
  rcases hok.position with rfl | hn
  · refine ⟨hr, fun k hk => ?_⟩
    rw [hbytes k hk, Nat.zero_add]
  · have hr0 : r.toNat = 0 := by
      rw [hr, hn]
      exact Nat.zero_min _
    refine ⟨?_, fun k hk => absurd hk (by omega)⟩
    rw [hr0, hn]
    exact (Nat.zero_min _).symm

/-- What happens between the calls leaves the image and the descriptors alone. -/
theorem KState.Reads.between {e : Event} (hs : s.Reads m₀ inode fd) (he : e.IsBetween)
    (h : s.Step wild e s') : s'.Reads m₀ inode fd := by
  have hkeeps := keeps_of_isBetween he h
  refine hs.congr hkeeps.fs (by rw [hkeeps.procs]) fun q hq => ?_
  have hq' : q.blk = .flat := (FileSystem.body_subset_inBlock hq).trans hs.flat
  cases h with
  | user hm =>
    refine hm fun hpage => ?_
    exact Block.noConfusion (hq'.symm.trans hpage)
  | stack hm =>
    refine hm fun ⟨name, hvar⟩ => ?_
    exact Block.noConfusion (hq'.symm.trans hvar)
  | key => rfl
  | _ => exact he.elim

/-- The invariant of a run of reads. -/
def Reading (fs : FileSystem Block) (m₀ : Mem Block) (inode fd : BitVec 32) (q : KState × ℕ) :
    Prop :=
  q.1.fs = fs ∧ q.1.Reads m₀ inode fd

/-- **Sequential reading.** The image is well formed, and has not changed but for its header, when
`open`, whose uninitialised pointer designates scratch memory, returns a descriptor for the regular
file of entry `e`. In every run of calls of `read` on the descriptor that satisfy `ReadOk`, every
call delivers its slice of the file; and so does every further call that satisfies `ReadOk`, which
returns. -/
theorem sequential_reads (hcur : current ∈ stackVars) (hwf : s.fs.WellFormed m₀)
    (hflat : s.fs.bootblockHead.blk = .flat) (hbody : Set.EqOn s.mem m₀ s.fs.body) {e : ℕ}
    (he : e < (s.fs.dentryNum m₀).toNat)
    (htype : s.fs.entryType m₀ e = 2#32) (hok : OpenOk (s.fs.entryInode m₀ e) filename s)
    {s₀ : KState} (hopen : sysOpen wild filename current s = some (fd, s₀)) (hfd : fd ≠ failure)
    {calls : List ReadCall} {p : ℕ}
    (hrun : Run (Guarded (ReadCallOk (s.fs.entryInode m₀ e) fd)
      (ReadStep wild fd (s.fs.fileLength m₀ (s.fs.entryInode m₀ e)).toNat)) (s₀, 0) calls (s', p)) :
    Run (Ensured (ReadStep wild fd (s.fs.fileLength m₀ (s.fs.entryInode m₀ e)).toNat)
        (Delivers s.fs m₀ (s.fs.entryInode m₀ e))) (s₀, 0) calls (s', p) ∧
      ∀ buf n probe, ReadOk (s.fs.entryInode m₀ e) fd s' p buf n probe →
        ∃ r s'', sysRead wild fd buf n probe s' = some (r, s'') ∧
          ∀ q, Delivers s.fs m₀ (s.fs.entryInode m₀ e) (s', p) (.read buf n probe r) (s'', q) := by
  have hin := hwf.inode_lt e he htype
  obtain ⟨hreads, hfs⟩ := reads_of_sysOpen hcur hwf hflat hbody hok hopen hfd
  set inode := s.fs.entryInode m₀ e
  have hstep (q : KState × ℕ) (c : ReadCall) (q' : KState × ℕ) (hq : Reading s.fs m₀ inode fd q)
      (h : Guarded (ReadCallOk inode fd)
        (ReadStep wild fd (s.fs.fileLength m₀ inode).toNat) q c q') :
      Delivers s.fs m₀ inode q c q' ∧ Reading s.fs m₀ inode fd q' := by
    obtain ⟨hcall, hstep⟩ := h
    obtain ⟨hqfs, hq⟩ := hq
    cases hstep with
    | read hread =>
      obtain ⟨r, s₁, hread', hfs₁, hs₁, hdelivers⟩ := hcall.exists_sysRead wild hq (hqfs ▸ hin)
      obtain ⟨rfl, rfl⟩ := Prod.mk.inj (Option.some.inj (hread'.symm.trans hread))
      exact ⟨hqfs ▸ hdelivers _, hfs₁.trans hqfs, hs₁⟩
    | between hbetween hevent =>
      exact ⟨trivial, (keeps_of_isBetween hbetween hevent).fs.trans hqfs,
        hq.between hbetween hevent⟩
  refine ⟨(hrun.strengthen hstep ⟨hfs, hreads⟩).mono fun _ _ _ h => ⟨h.1.2, h.2⟩,
    fun buf n probe hnext => ?_⟩
  obtain ⟨hfs', hreads'⟩ := hrun.invariant (P := Reading s.fs m₀ inode fd)
    (fun q c q' hq h => (hstep q c q' hq h).2) ⟨hfs, hreads⟩
  obtain ⟨r, s'', hread, -, -, hdelivers⟩ := hnext.exists_sysRead wild hreads' (hfs' ▸ hin)
  exact ⟨r, s'', hread, fun q => hfs' ▸ hdelivers q⟩

/-! ### A program that reads the shell in two pieces -/

/-- The name of the first entry, as a string that is readable. -/
def sampleProbe : Ptr Block := Dentry.fileName (sampleBoot.fs.dentry 0)

section Sample

variable (hm : Set.EqOn m sampleMem sampleBoot.fs.body)

include hm

theorem hasLength_sampleProbe : HasLength m sampleProbe 5 := by
  have hlen : HasLength sampleMem sampleProbe 5 := ⟨by decide, by decide⟩
  refine hlen.congr fun k hk => hm (FileSystem.span_dentry_subset_body (i := 0) (by decide) ?_)
  rw [sampleProbe, Dentry.fileName, Ptr.shift_shift]
  exact Ptr.shift_mem_span (by rw [Dentry.size]; omega)

/-- With the header as it was or as the first entry leaves it, the first entry is found under its
name. -/
theorem lookup_sampleProbe (hpos : 0 < (sampleBoot.fs.dentryNum m).toInt) :
    sampleBoot.fs.lookup m sampleProbe = some (some 0) :=
  FileSystem.scanDentry_eq_some_some.mpr ⟨le_rfl, by omega,
    ⟨5, hasLength_sampleProbe hm, fun _ _ => rfl⟩, fun k _ hk => absurd hk (Nat.not_lt_zero k)⟩

theorem dentryNum_stamp_sample : 0 < (sampleBoot.fs.dentryNum (sampleBoot.fs.stamp m 0)).toInt := by
  have hword : readWord m sampleProbe = readWord sampleMem sampleProbe :=
    readWord_congr hm ((Ptr.span_shift_subset (by decide)).trans
      (FileSystem.span_dentry_subset_body (i := 0) (by decide)))
  rw [wellFormed_sampleMem.dentryNum_stamp hm (by decide) (hasLength_sampleProbe hm) (by decide)]
  show 0 < (readWord m sampleProbe).toInt
  rw [hword]
  decide

theorem entryInode_sample : sampleBoot.fs.entryInode m 0 = 0#32 := by
  rw [FileSystem.entryInode_eq hm (by decide)]
  decide

/-- The driver answers a probe with the name of the first entry. -/
theorem probeAnswers_sample (hpos : 0 < (sampleBoot.fs.dentryNum m).toInt) (hn : n ≠ 0#32) :
    sampleBoot.fs.ProbeAnswers m sampleProbe 2#32 n := by
  intro _ i hi
  rw [lookup_sampleProbe hm hpos] at hi
  cases hi
  refine ⟨by decide, .inr (.inr ⟨?_, hn⟩)⟩
  rw [entryInode_sample hm, wellFormed_sampleMem.fileLength_eq
    ((wellFormed_sampleMem.stamp_eqOn_body hm (by decide)).trans hm) (by decide)]
  decide

theorem afterProbe_sample (hpos : 0 < (sampleBoot.fs.dentryNum m).toInt) :
    sampleBoot.fs.afterProbe m sampleProbe = sampleBoot.fs.stamp m 0 := by
  rw [FileSystem.afterProbe, if_neg (by decide), lookup_sampleProbe hm hpos]

/-- The search for the name of inode `0` leads back to the first entry. -/
theorem resolvesTo_sample (hpos : 0 < (sampleBoot.fs.dentryNum m).toInt) :
    sampleBoot.fs.ResolvesTo m 0#32 0 :=
  ⟨by decide, entryInode_sample hm, BitVec.le_def.mpr (Nat.zero_le _), 0, by decide,
    BitVec.le_def.mpr (Nat.zero_le _), entryInode_sample hm,
    fun k hk => absurd hk (Nat.not_lt_zero k), lookup_sampleProbe hm hpos⟩

end Sample

/-- A read of two bytes from the descriptor 2 of the shell of the sample image. -/
theorem exists_sysRead_sample (hs : s.Reads sampleMem 0#32 2#32) (hfs : s.fs = sampleBoot.fs)
    (hpos : 0 < (s.fs.dentryNum s.mem).toInt) :
    ReadOk 0#32 2#32 s 0 userMem 2#32 sampleProbe ∧
      ∃ s', sysRead sampleWild 2#32 userMem 2#32 sampleProbe s = some (2#32, s') ∧
        s'.fs = sampleBoot.fs ∧ s'.Reads sampleMem 0#32 2#32 ∧
        0 < (s'.fs.dentryNum s'.mem).toInt ∧ s'.mem ((s.userPtr userMem).shift 0) = 0x7F := by
  have hm : Set.EqOn s.mem sampleMem sampleBoot.fs.body := hfs ▸ hs.body
  rw [hfs] at hpos
  have hstamp : Set.EqOn (sampleBoot.fs.stamp s.mem 0) sampleMem sampleBoot.fs.body :=
    (wellFormed_sampleMem.stamp_eqOn_body hm (by decide)).trans hm
  have hprobe : s.fs.ProbeAnswers s.mem sampleProbe 2#32 2#32 := by
    rw [hfs]
    exact probeAnswers_sample hm hpos (by decide)
  have hname : s.fs.ResolvesTo (s.fs.afterProbe s.mem sampleProbe) 0#32 0 := by
    rw [hfs, afterProbe_sample hm hpos]
    exact resolvesTo_sample hstamp (dentryNum_stamp_sample hm)
  have hbuf : PageBuffer userMem 2#32 := ⟨by decide, by decide⟩
  have hin : 0#32 < s.fs.inodesNum sampleMem := by
    rw [hfs]
    decide
  obtain ⟨r, s', hread, hr, hfs', hs', hmem, hbytes⟩ :=
    exists_sysRead sampleWild hs hin hbuf ⟨by decide, by decide⟩ hprobe hname
  have hlen : min (2#32).toNat (s.fs.fileLength sampleMem 0#32).toNat = (2#32).toNat := by
    rw [hfs]
    decide
  obtain rfl : r = 2#32 := BitVec.eq_of_toNat_eq (hr.trans hlen)
  refine ⟨⟨hbuf, ⟨by decide, by decide⟩, .inl rfl, hprobe, 0, hname⟩, s', hread,
    hfs'.trans hfs, hs', ?_, ?_⟩
  · rw [hfs', FileSystem.dentryNum_congr hs.onBlock hmem, hfs, afterProbe_sample hm hpos]
    exact dentryNum_stamp_sample hstamp
  · rw [hbytes 0 (by decide), hfs]
    decide

/-- A read of no bytes, with a null pointer for a name, wherever the reader is in the file. -/
theorem exists_sysRead_empty_sample (hs : s.Reads sampleMem 0#32 2#32)
    (hfs : s.fs = sampleBoot.fs) (hpos : 0 < (s.fs.dentryNum s.mem).toInt) (p : ℕ) :
    ReadOk 0#32 2#32 s p userMem 0#32 Ptr.null ∧
      ∃ s', sysRead sampleWild 2#32 userMem 0#32 Ptr.null s = some (0#32, s') := by
  have hname : s.fs.ResolvesTo (s.fs.afterProbe s.mem Ptr.null) 0#32 0 := by
    rw [hfs] at hpos ⊢
    rw [FileSystem.afterProbe, if_pos rfl]
    exact resolvesTo_sample (hfs ▸ hs.body) hpos
  have hok : ReadOk 0#32 2#32 s p userMem 0#32 Ptr.null :=
    ⟨⟨by decide, by decide⟩, ⟨by decide, by decide⟩, .inr rfl, fun h => absurd rfl h, 0, hname⟩
  have hin : 0#32 < s.fs.inodesNum sampleMem := by
    rw [hfs]
    decide
  obtain ⟨r, s', hread, -, -, hdelivers⟩ := hok.exists_sysRead sampleWild hs hin
  have hr : r.toNat = (0#32).toNat := (hdelivers 0).1.trans (Nat.zero_min _)
  obtain rfl : r = 0#32 := BitVec.eq_of_toNat_eq hr
  exact ⟨hok, s', hread⟩

/-- With the sample image, the first process opens the shell and reads two bytes of it, and then
nothing or two bytes again. -/
theorem exists_reading_sample :
    ∃ s s₀ s₁ s₂, Reachable sampleWild 0x401000#32 s ∧ s.fs = sampleBoot.fs ∧
      Set.EqOn s.mem sampleMem s.fs.body ∧ s.fs.Names s.mem (s.userPtr userMem) 0 ∧
      OpenOk 0#32 userMem s ∧
      sysOpen sampleWild userMem Local.current.ptr s = some (2#32, s₀) ∧
      ReadOk 0#32 2#32 s₀ 0 userMem 2#32 sampleProbe ∧
      sysRead sampleWild 2#32 userMem 2#32 sampleProbe s₀ = some (2#32, s₁) ∧
      HasLength s₀.mem sampleProbe 5 ∧ HasLength s₁.mem sampleProbe 5 ∧
      sysRead sampleWild 2#32 userMem 2#32 sampleProbe s₁ = some (2#32, s₂) ∧
      s₂.mem ((s₁.userPtr userMem).shift 0) = 0x7F ∧
      ReadOk 0#32 2#32 s₁ 2 userMem 0#32 Ptr.null ∧
      ∃ s₃, sysRead sampleWild 2#32 userMem 0#32 Ptr.null s₁ = some (0#32, s₃) := by
  obtain ⟨-, s, eip, esp, -, hreach, -, -, hfs, hflat, hused, hname⟩ :=
    exists_named_sample [0x73, 0x68, 0x65, 0x6C, 0x6C, 0] (by decide)
  have hwf : s.fs.WellFormed sampleMem := hfs ▸ wellFormed_sampleMem
  have hblk : s.fs.bootblockHead.blk = .flat := by
    rw [hfs]
    rfl
  have hm : Set.EqOn s.mem sampleMem sampleBoot.fs.body := hflat.mono fun q hq => hq.1
  have hbody : Set.EqOn s.mem sampleMem s.fs.body := hfs ▸ hm
  have hlen := hasLength_sampleProbe hm
  have hbegins : IsPrefix s.mem (s.userPtr userMem) sampleProbe 5 := by
    intro k hk
    have hbyte : s.mem (sampleProbe.shift k) = sampleMem (sampleProbe.shift k) :=
      hflat (by rfl)
    rw [hname k (by simp; omega), hbyte]
    clear hbyte
    revert k
    decide
  have hpos : 0 < (s.fs.dentryNum s.mem).toInt := by
    rw [FileSystem.dentryNum_congr (hblk ▸ hwf.onBlock) hflat, hfs]
    decide
  have hl : s.fs.lookup s.mem (s.userPtr userMem) = some (some 0) := by
    rw [hfs] at hpos ⊢
    exact FileSystem.scanDentry_eq_some_some.mpr ⟨le_rfl, by omega, ⟨5, hlen, hbegins⟩,
      fun k _ hk => absurd hk (Nat.not_lt_zero k)⟩
  have htype : s.fs.entryType s.mem 0 = 2#32 := by
    rw [hfs, FileSystem.entryType_eq hm (by decide)]
    decide
  have hok : OpenOk 0#32 userMem s := fun i hi => by
    rw [hl] at hi
    cases hi
    exact ⟨by decide, htype, by rw [hfs]; exact entryInode_sample hm⟩
  have h0 : ¬ (userMem = 0#32 ∨ s.procs.filedArray = 0#32) :=
    not_or.mpr ⟨by decide, (hreach.ready benign_sampleWild).filedArray⟩
  obtain ⟨s₀, hopen, hfs₀, -, hmem₀⟩ :=
    exists_sysOpen_regular sampleWild (Local.ptr_mem_stackVars .current) hwf hblk hbody h0 hl
      (by decide) htype
      (ProcTable.firstFree_of_inUse hused (by decide))
  have hs₀ := (reads_of_sysOpen (Local.ptr_mem_stackVars .current) hwf hblk hbody hok hopen
    (by decide)).1
  have hpos₀ : 0 < (s₀.fs.dentryNum s₀.mem).toInt := by
    rw [FileSystem.dentryNum_congr hs₀.onBlock (hfs₀ ▸ hmem₀), hfs₀, hfs]
    exact dentryNum_stamp_sample hm
  obtain ⟨hread₀, s₁, h₁, hfs₁, hs₁, hpos₁, -⟩ := exists_sysRead_sample hs₀ (hfs₀.trans hfs) hpos₀
  obtain ⟨-, s₂, h₂, -, -, -, hbyte⟩ := exists_sysRead_sample hs₁ hfs₁ hpos₁
  refine ⟨s, s₀, s₁, s₂, hreach, hfs, hbody, ?_, hok, hopen, hread₀, h₁,
    hasLength_sampleProbe ((hfs₀.trans hfs) ▸ hs₀.body), hasLength_sampleProbe (hfs₁ ▸ hs₁.body),
    h₂, hbyte, exists_sysRead_empty_sample hs₁ hfs₁ hpos₁ 2⟩
  have hname5 : s.mem ((s.userPtr userMem).shift 5) = 0 := hname 5 (by decide)
  refine ⟨5, by decide, ⟨fun k hk => ?_, hname5⟩, by rw [hfs]; exact hbegins, fun _ => ?_⟩
  · rw [hbegins k hk]
    exact hlen.1 k hk
  · rw [hfs]
    exact hlen.2

theorem sequential_reads_sample :
    ∃ s s₀ s₁ p, sysOpen sampleWild userMem Local.current.ptr s = some (2#32, s₀) ∧
      Run (Ensured (ReadStep sampleWild 2#32 4) (Delivers s.fs sampleMem 0#32)) (s₀, 0)
        [.read userMem 2#32 sampleProbe 2#32, .read userMem 0#32 Ptr.null 0#32] (s₁, p) := by
  obtain ⟨s, s₀, s₁, -, -, hfs, hbody, -, hok, hopen, hread₀, h₁, -, -, -, -, hread₁, s₂, h₂⟩ :=
    exists_reading_sample
  have hwf : s.fs.WellFormed sampleMem := hfs ▸ wellFormed_sampleMem
  have hblk : s.fs.bootblockHead.blk = .flat := by
    rw [hfs]
    rfl
  have he : 0 < (s.fs.dentryNum sampleMem).toNat := by
    rw [hfs]
    decide
  have htype : s.fs.entryType sampleMem 0 = 2#32 := by
    rw [hfs]
    decide
  have hinode : s.fs.entryInode sampleMem 0 = 0#32 := by
    rw [hfs]
    decide
  have hlen : (s.fs.fileLength sampleMem 0#32).toNat = 4 := by
    rw [hfs]
    decide
  have hrun : Run (Guarded (ReadCallOk 0#32 2#32) (ReadStep sampleWild 2#32 4)) (s₀, 0)
      [.read userMem 2#32 sampleProbe 2#32, .read userMem 0#32 Ptr.null 0#32] (s₂, 2) :=
    .cons ⟨hread₀, .read h₁⟩ (.single ⟨hread₁, .read h₂⟩)
  refine ⟨s, s₀, s₂, 2, hopen, ?_⟩
  have hrun' := hinode.symm ▸ hlen.symm ▸ hrun
  have hdelivered := (sequential_reads (Local.ptr_mem_stackVars .current) hwf hblk hbody he htype
    (hinode.symm ▸ hok) hopen (by decide) hrun').1
  rwa [hinode, hlen] at hdelivered

/-- A call of `read` with a buffer in the user page, where the name pointer that is not set
designates a readable string. -/
def ReadCalled : KState × ℕ → ReadCall → Prop
  | (s, _), .read buf n probe _ => PageBuffer buf n ∧ ∃ l, HasLength s.mem probe l
  | _, .between => True

/-- A process opens the shell, a file of four bytes, and reads two bytes twice: the second call
delivers the first two bytes again. -/
theorem second_read_starts_over :
    ¬ ∀ (s s₀ s' : KState) (m₀ : Mem Block) (e : ℕ) (filename fd : BitVec 32)
      (current : Ptr Block) (calls : List ReadCall) (p : ℕ), current ∈ stackVars →
      Reachable sampleWild 0x401000#32 s → s.fs.WellFormed m₀ →
      s.fs.bootblockHead.blk = .flat → Set.EqOn s.mem m₀ s.fs.body →
      e < (s.fs.dentryNum m₀).toNat → s.fs.entryType m₀ e = 2#32 →
      s.fs.Names s.mem (s.userPtr filename) e →
      sysOpen sampleWild filename current s = some (fd, s₀) → fd ≠ failure →
      Run (Guarded ReadCalled
        (ReadStep sampleWild fd (s.fs.fileLength m₀ (s.fs.entryInode m₀ e)).toNat)) (s₀, 0) calls
        (s', p) →
      Run (Ensured (ReadStep sampleWild fd (s.fs.fileLength m₀ (s.fs.entryInode m₀ e)).toNat)
        (Delivers s.fs m₀ (s.fs.entryInode m₀ e))) (s₀, 0) calls (s', p) := by
  intro hall
  obtain ⟨s, s₀, s₁, s₂, hreach, hfs, hbody, hnames, -, hopen, -, h₁, hl₀, hl₁, h₂, hbyte, -⟩ :=
    exists_reading_sample
  have hbuf : PageBuffer userMem 2#32 := ⟨by decide, by decide⟩
  have hlen : (s.fs.fileLength sampleMem (s.fs.entryInode sampleMem 0)).toNat = 4 := by
    rw [hfs]
    decide
  have hrun := hall s s₀ s₂ sampleMem 0 userMem 2#32 Local.current.ptr
    [.read userMem 2#32 sampleProbe 2#32, .read userMem 2#32 sampleProbe 2#32] _
    (Local.ptr_mem_stackVars .current) hreach (hfs ▸ wellFormed_sampleMem)
    (by rw [hfs]; rfl) hbody (by rw [hfs]; decide) (by rw [hfs]; decide) hnames hopen (by decide)
    (.cons ⟨⟨hbuf, 5, hl₀⟩, .read h₁⟩ (.single ⟨⟨hbuf, 5, hl₁⟩, .read h₂⟩))
  cases hrun with
  | cons hfirst hrest =>
    obtain ⟨hstep₁, -⟩ := hfirst
    cases hstep₁ with
    | read hread₁ =>
      obtain ⟨-, rfl⟩ := Prod.mk.inj (Option.some.inj (hread₁.symm.trans h₁))
      cases hrest with
      | cons hsecond hnil =>
        obtain ⟨hstep₂, -, hbytes⟩ := hsecond
        cases hstep₂ with
        | read hread₂ =>
          obtain ⟨-, rfl⟩ := Prod.mk.inj (Option.some.inj (hread₂.symm.trans h₂))
          have hzero := hbytes 0 (by decide)
          rw [hbyte, hlen, hfs] at hzero
          exact absurd hzero (by decide)

end Mp3Kernel
