import Mathlib.Algebra.Group.Int.Defs
import Mp3Kernel.Process.FileOps

/-!
# The system calls on descriptors

`open`, `close`, `read` and `write` of `process.c`. A result `none` means that the call does not
return: the processor faults, or a search for a NUL never ends. The diagnostic output of these
functions is left out.

`close` runs its loop variable up to the end of the table and then calls through the entry behind
it, whatever descriptor it is given. `read` calls the driver's read function once to learn whether
there is one, with a name pointer that is never set, and once more with the name it has looked up;
the unset pointer is the argument `probe`.

## Main definitions

* `ProcTable.firstFree`, `sysOpen`, `sysClose`, `sysRead`, `sysWrite`.
* `readAccepts`, `writeAccepts`: the checks that `read` and `write` make before they call a driver.

## Main results

* `sysOpen_opens`, `sysOpen_cases`: what a call of `open` does; `sysClose_effects`,
  `sysRead_effects`, `sysWrite_effects`: the other calls do what their drivers do.
* `bufferCheck_sound_iff`: for which buffers and counts the checks keep the driver in the user page.

Source: `process.c`, lines 365–560.
-/

namespace Mp3Kernel

open ByteMemory

/-! ### The calls -/

/-- The loop of `open` that looks for the first descriptor not in use. -/
def ProcTable.firstFree (t : ProcTable) : Option ℕ :=
  (List.range fdarrayMax).find? fun fd => (t.fds fd).flags = 0#32

/-- The entry that `open` fills for the directory entry at `current`. -/
def openedEntry (m : Mem Block) (current : Ptr Block) : FdEntry where
  fileotPointer := .entry (readWord m (Dentry.fileType current))
  inode :=
    if readWord m (Dentry.fileType current) = 0#32 then -1
    else readWord m (Dentry.inodeIndex current)
  position := 0#32
  flags := 1#32

section Calls

variable (wild : Wild)

/-- `int32_t open(const uint8_t* filename)`, with the pointer `current`, which is never set. The
entry found is stored where it points. -/
def sysOpen (filename : BitVec 32) (current : Ptr Block) (s : KState) :
    Option (BitVec 32 × KState) :=
  if filename = 0#32 ∨ s.procs.filedArray = 0#32 then some (failure, s)
  else do
    let (found, m) ← s.fs.readDentryByName (s.userPtr filename) current s.mem
    if found = failure then some (failure, { s with mem := m })
    else
      let s := wild.stored current { s with mem := m }
      match s.procs.firstFree with
      | none => some (failure, s)
      | some counter =>
        let e := openedEntry s.mem current
        let s := { s with procs := s.procs.setFd counter e }
        let (result, s) ← driverOpen wild e.fileotPointer (s.userPtr filename) s
        if result = failure then some (failure, s) else some (BitVec.ofNat 32 counter, s)

/-- The two loops of `close`, which copy every directory entry to `current` once for each
descriptor. The name they look for is used by no driver. -/
def closeScan (fs : FileSystem Block) (current : Ptr Block) (m : Mem Block) : Option (Mem Block) :=
  (List.range fdarrayMax).foldlM (fun m _ => (List.range maxFileNumber).foldlM
    (fun m i => (fs.readDentryByIndex (BitVec.ofNat 32 i) current m).map Prod.snd) m) m

/-- `int32_t close(int i)`, with the pointer `current`, which is never set. After the loops the
index is `FDARRAY_MAX`, not `i`. -/
def sysClose (_i : BitVec 32) (current : Ptr Block) (s : KState) : Option (BitVec 32 × KState) :=
  if s.procs.filedArray = 0#32 then some (failure, s)
  else do
    let m ← closeScan s.fs current s.mem
    let s := wild.stored current { s with mem := m }
    driverClose wild s.procs.fotPtr8 s

/-- The loop of `read` at index `length` with `k` rounds left: whether an entry with the inode
`temInode` is found, and the memory with the last entry copied to `tem_dentry`. -/
def findInode (fs : FileSystem Block) (temInode : BitVec 32) :
    ℕ → ℕ → Mem Block → Option (Bool × Mem Block)
  | 0, _, m => some (false, m)
  | k + 1, length, m => do
    let (_, m) ← fs.readDentryByIndex (BitVec.ofNat 32 length) Local.temDentry.ptr m
    if readWord m (Dentry.inodeIndex Local.temDentry.ptr) = temInode then some (true, m)
    else findInode fs temInode k (length + 1) m

/-- The part of `read` behind its checks. Without an entry for the inode, the name is a null pointer
and printing it faults. -/
def readFd (fd buf n : BitVec 32) (probe : Ptr Block) (s : KState) :
    Option (BitVec 32 × KState) := do
  let (ifread, s) ←
    driverRead wild (s.procs.fds fd.toNat).fileotPointer probe fd (s.userPtr buf) n s
  if ifread = 0#32 then some (failure, s)
  else
    let (found, m) ← findInode s.fs (s.procs.fds fd.toNat).inode maxFileNumber 0 s.mem
    if found = false then none
    else
      let _ ← strlen m (Dentry.fileName Local.temDentry.ptr)
      driverRead wild (s.procs.fds fd.toNat).fileotPointer (Dentry.fileName Local.temDentry.ptr)
        (s.procs.fds fd.toNat).position (s.userPtr buf) n { s with mem := m }

/-- `int32_t read(uint32_t offset, void* buf, int32_t n)`, where `offset` is the descriptor. -/
def sysRead (fd buf n : BitVec 32) (probe : Ptr Block) (s : KState) :
    Option (BitVec 32 × KState) :=
  if buf.slt userMem then some (failure, s)
  else if userEnd.slt (buf + n) then some (failure, s)
  else if 7#32 ≤ fd ∨ fd = 1#32 then some (failure, s)
  else if (s.procs.fds fd.toNat).flags = 0#32 then some (failure, s)
  else readFd wild fd buf n probe s

/-- `int32_t write(uint32_t offset, void* buf, int32_t n)`. Every driver has a write function. -/
def sysWrite (fd buf n : BitVec 32) (s : KState) : Option (BitVec 32 × KState) :=
  if buf.slt userMem then some (failure, s)
  else if userEnd.slt (buf + n) then some (failure, s)
  else if 7#32 ≤ fd ∨ fd = 0#32 then some (failure, s)
  else if (s.procs.fds fd.toNat).flags = 0#32 then some (failure, s)
  else driverWrite wild (s.procs.fds fd.toNat).fileotPointer fd (s.userPtr buf) n s

end Calls

/-! ### What the calls do to the processes -/

variable {wild : Wild} {s s' : KState} {r : BitVec 32} {current : Ptr Block}

theorem ProcTable.firstFree_eq_some_iff {t : ProcTable} {fd : ℕ} : t.firstFree = some fd ↔
    fd < fdarrayMax ∧ (t.fds fd).flags = 0#32 ∧ ∀ j < fd, (t.fds j).flags ≠ 0#32 := by
  rw [firstFree, List.find?_range_eq_some]
  simp only [decide_eq_true_eq, List.mem_range, Bool.not_eq_true', decide_eq_false_iff_not]
  exact and_left_comm

theorem ProcTable.firstFree_eq_none {t : ProcTable} (h : t.firstFree = none) {fd : ℕ}
    (hfd : fd < fdarrayMax) : (t.fds fd).flags ≠ 0#32 := by
  have hall := List.find?_eq_none.mp h fd (List.mem_range.mpr hfd)
  simpa using hall

/-- Where the call passes its first checks, the entry found has been stored at `current`, and the
first free descriptor is filled. -/
theorem sysOpen_of_stored (wild : Wild) {filename : BitVec 32} {m : Mem Block} {s₁ : KState}
    (h0 : ¬ (filename = 0#32 ∨ s.procs.filedArray = 0#32))
    (hfound : s.fs.readDentryByName (s.userPtr filename) current s.mem = some (success, m))
    (hstored : wild.stored current { s with mem := m } = s₁) :
    sysOpen wild filename current s =
      match s₁.procs.firstFree with
      | none => some (failure, s₁)
      | some fd =>
        (driverOpen wild (openedEntry s₁.mem current).fileotPointer (s₁.userPtr filename)
          { s₁ with procs := s₁.procs.setFd fd (openedEntry s₁.mem current) }).bind fun q =>
            if q.1 = failure then some (failure, q.2) else some (BitVec.ofNat 32 fd, q.2) := by
  rw [sysOpen, if_neg h0, hfound]
  simp only [Option.bind_eq_bind, Option.bind_some, hstored]
  rw [if_neg (by decide)]
  rfl

/-- In scratch memory the entry hits nothing else. -/
theorem sysOpen_of_readDentryByName (wild : Wild) {filename : BitVec 32} {m : Mem Block}
    (hcur : current ∈ stackVars) (h0 : ¬ (filename = 0#32 ∨ s.procs.filedArray = 0#32))
    (hfound : s.fs.readDentryByName (s.userPtr filename) current s.mem = some (success, m)) :
    sysOpen wild filename current s =
      match s.procs.firstFree with
      | none => some (failure, { s with mem := m })
      | some fd =>
        (driverOpen wild (openedEntry m current).fileotPointer (s.userPtr filename)
          { s with mem := m, procs := s.procs.setFd fd (openedEntry m current) }).bind fun q =>
            if q.1 = failure then some (failure, q.2) else some (BitVec.ofNat 32 fd, q.2) :=
  sysOpen_of_stored wild h0 hfound (wild.stored_of_mem hcur _)

/-- What a call of `open` does: without a name or a process it does nothing; it stops behind the
search, or it fills the first free descriptor and calls the driver of the entry. -/
theorem sysOpen_inversion {filename : BitVec 32} (hcur : current ∈ stackVars)
    (h : sysOpen wild filename current s = some (r, s')) :
    (s' = s ∧ r = failure) ∨
      ∃ found m, filename ≠ 0#32 ∧
        s.fs.readDentryByName (s.userPtr filename) current s.mem = some (found, m) ∧
        ((s' = { s with mem := m } ∧ r = failure) ∨
          ∃ fd result, found = success ∧ s.procs.firstFree = some fd ∧
            driverOpen wild (openedEntry m current).fileotPointer (s.userPtr filename)
              { s with mem := m, procs := s.procs.setFd fd (openedEntry m current) } =
                some (result, s') ∧
            (r = failure ∨ r = BitVec.ofNat 32 fd)) := by
  by_cases h0 : filename = 0#32 ∨ s.procs.filedArray = 0#32
  · rw [sysOpen, if_pos h0] at h
    cases h
    exact .inl ⟨rfl, rfl⟩
  obtain ⟨⟨found, m⟩, hfound⟩ :
      ∃ q, s.fs.readDentryByName (s.userPtr filename) current s.mem = some q := by
    rw [sysOpen, if_neg h0] at h
    obtain ⟨q, hq, -⟩ := Option.bind_eq_some_iff.mp h
    exact ⟨q, hq⟩
  refine .inr ⟨found, m, fun he => h0 (.inl he), hfound, ?_⟩
  by_cases hf : found = failure
  · rw [sysOpen, if_neg h0, hfound] at h
    have h₁ := h.symm.trans (if_pos hf)
    cases h₁
    exact .inl ⟨rfl, rfl⟩
  have hsucc : found = success := by
    rcases FileSystem.readDentryByName_cases hfound with ⟨-, hr, -⟩ | ⟨i, r', -, -, hr, -⟩
    · exact absurd hr hf
    · exact hr
  subst hsucc
  rw [sysOpen_of_readDentryByName wild hcur h0 hfound] at h
  cases hfree : s.procs.firstFree with
  | none =>
    rw [hfree] at h
    cases h
    exact .inl ⟨rfl, rfl⟩
  | some fd =>
    rw [hfree] at h
    obtain ⟨⟨result, s₁⟩, hopen, h₂⟩ := Option.bind_eq_some_iff.mp h
    dsimp only at h₂
    split_ifs at h₂
    · cases h₂
      exact .inr ⟨fd, result, rfl, rfl, hopen, .inl rfl⟩
    · cases h₂
      exact .inr ⟨fd, result, rfl, rfl, hopen, .inr rfl⟩

/-- A call of `open` returns `-1` without a driver, because the name is not found or no descriptor
is free, or it fills the first free descriptor and calls the driver of the entry. -/
theorem sysOpen_opens {filename : BitVec 32} (hcur : current ∈ stackVars)
    (h : sysOpen wild filename current s = some (r, s')) :
    (DriverEffects wild s s' ∧ r = failure) ∨
      ∃ m fd result, filename ≠ 0#32 ∧
        s.fs.readDentryByName (s.userPtr filename) current s.mem = some (success, m) ∧
        s.procs.firstFree = some fd ∧
        driverOpen wild (openedEntry m current).fileotPointer (s.userPtr filename)
          { s with mem := m, procs := s.procs.setFd fd (openedEntry m current) } =
            some (result, s') ∧
        (r = failure ∨ r = BitVec.ofNat 32 fd) := by
  rcases sysOpen_inversion hcur h with
    ⟨rfl, hr⟩ | ⟨found, m, h0, hfound, ⟨rfl, hr⟩ | ⟨fd, result, rfl, hfree, hopen, hr⟩⟩
  · exact .inl ⟨.refl, hr⟩
  · exact .inl ⟨.data s m s.console, hr⟩
  · exact .inr ⟨m, fd, result, h0, hfound, hfree, hopen, hr⟩

/-- What a call of `open` does to the processes: nothing, or it fills the first free descriptor. -/
theorem sysOpen_cases (hw : Benign wild) {filename : BitVec 32} (hcur : current ∈ stackVars)
    (h : sysOpen wild filename current s = some (r, s')) :
    (s.Keeps s' ∧ r = failure) ∨
      ∃ m fd, filename ≠ 0#32 ∧
        s.fs.readDentryByName (s.userPtr filename) current s.mem = some (success, m) ∧
        s.procs.firstFree = some fd ∧ s'.procs = s.procs.setFd fd (openedEntry m current) ∧
        s'.fs = s.fs ∧ s'.creator = s.creator ∧ (r = failure ∨ r = BitVec.ofNat 32 fd) := by
  rcases sysOpen_opens hcur h with ⟨heffects, hr⟩ | ⟨m, fd, result, h0, hfound, hfree, hopen, hr⟩
  · exact .inl ⟨heffects.keeps hw, hr⟩
  · have hkeeps := (driverOpen_effects hopen).keeps hw
    exact .inr ⟨m, fd, h0, hfound, hfree, hkeeps.procs, hkeeps.fs, hkeeps.creator, hr⟩

/-- A call of `close` copies the entries to `current`, which is scratch memory, and calls the driver
behind the table. -/
theorem sysClose_eq (wild : Wild) (hcur : current ∈ stackVars) (i : BitVec 32) (s : KState) :
    sysClose wild i current s =
      if s.procs.filedArray = 0#32 then some (failure, s)
      else (closeScan s.fs current s.mem).bind fun m =>
        driverClose wild s.procs.fotPtr8 { s with mem := m } := by
  simp only [sysClose, Wild.stored_of_mem wild hcur]
  rfl

theorem sysClose_effects {i : BitVec 32} (hcur : current ∈ stackVars)
    (h : sysClose wild i current s = some (r, s')) : DriverEffects wild s s' := by
  rw [sysClose_eq wild hcur] at h
  split_ifs at h with h0
  · cases h
    exact .refl
  · obtain ⟨m, -, h₁⟩ := Option.bind_eq_some_iff.mp h
    exact (DriverEffects.data s m s.console).trans (driverClose_effects h₁)

theorem readFd_effects {fd buf n : BitVec 32} {probe : Ptr Block}
    (h : readFd wild fd buf n probe s = some (r, s')) : DriverEffects wild s s' := by
  obtain ⟨⟨ifread, s₁⟩, h₁, h₂⟩ := Option.bind_eq_some_iff.mp h
  have hprobe := driverRead_effects h₁
  dsimp only at h₂
  split_ifs at h₂
  · cases h₂
    exact hprobe
  · obtain ⟨⟨found, m⟩, -, h₃⟩ := Option.bind_eq_some_iff.mp h₂
    dsimp only at h₃
    split_ifs at h₃
    obtain ⟨len, -, h₄⟩ := Option.bind_eq_some_iff.mp h₃
    exact (hprobe.trans (DriverEffects.data s₁ m s₁.console)).trans (driverRead_effects h₄)

theorem sysRead_effects {fd buf n : BitVec 32} {probe : Ptr Block}
    (h : sysRead wild fd buf n probe s = some (r, s')) : DriverEffects wild s s' := by
  rw [sysRead] at h
  split_ifs at h
  · cases h
    exact .refl
  · cases h
    exact .refl
  · cases h
    exact .refl
  · cases h
    exact .refl
  · exact readFd_effects h

theorem sysWrite_effects {fd buf n : BitVec 32} (h : sysWrite wild fd buf n s = some (r, s')) :
    DriverEffects wild s s' := by
  rw [sysWrite] at h
  split_ifs at h
  · cases h
    exact .refl
  · cases h
    exact .refl
  · cases h
    exact .refl
  · cases h
    exact .refl
  · exact driverWrite_effects h

/-! ### The checks of `read` and `write` -/

/-- The two signed comparisons of the buffer. -/
def bufferAccepts (buf n : BitVec 32) : Prop := ¬ buf.slt userMem ∧ ¬ userEnd.slt (buf + n)

/-- `read` passes its checks and calls the driver. -/
def readAccepts (t : ProcTable) (fd buf n : BitVec 32) : Prop :=
  bufferAccepts buf n ∧ ¬ (7#32 ≤ fd ∨ fd = 1#32) ∧ (t.fds fd.toNat).flags ≠ 0#32

/-- `write` passes its checks and calls the driver. -/
def writeAccepts (t : ProcTable) (fd buf n : BitVec 32) : Prop :=
  bufferAccepts buf n ∧ ¬ (7#32 ≤ fd ∨ fd = 0#32) ∧ (t.fds fd.toNat).flags ≠ 0#32

theorem sysRead_of_accepts {fd buf n : BitVec 32} (probe : Ptr Block)
    (h : readAccepts s.procs fd buf n) :
    sysRead wild fd buf n probe s = readFd wild fd buf n probe s := by
  rw [sysRead, if_neg h.1.1, if_neg h.1.2, if_neg h.2.1, if_neg h.2.2]

theorem sysRead_of_not_accepts {fd buf n : BitVec 32} (probe : Ptr Block)
    (h : ¬ readAccepts s.procs fd buf n) :
    sysRead wild fd buf n probe s = some (failure, s) := by
  rw [sysRead]
  split_ifs with h₁ h₂ h₃ h₄
  · rfl
  · rfl
  · rfl
  · rfl
  · exact absurd ⟨⟨h₁, h₂⟩, h₃, h₄⟩ h

theorem sysWrite_of_accepts {fd buf n : BitVec 32} (h : writeAccepts s.procs fd buf n) :
    sysWrite wild fd buf n s =
      driverWrite wild (s.procs.fds fd.toNat).fileotPointer fd (s.userPtr buf) n s := by
  rw [sysWrite, if_neg h.1.1, if_neg h.1.2, if_neg h.2.1, if_neg h.2.2]

theorem sysWrite_of_not_accepts {fd buf n : BitVec 32} (h : ¬ writeAccepts s.procs fd buf n) :
    sysWrite wild fd buf n s = some (failure, s) := by
  rw [sysWrite]
  split_ifs with h₁ h₂ h₃ h₄
  · rfl
  · rfl
  · rfl
  · rfl
  · exact absurd ⟨⟨h₁, h₂⟩, h₃, h₄⟩ h

/-- The count is not negative, and the `n` bytes from `buf` on lie in the user page. -/
def InUserPage (buf n : BitVec 32) : Prop :=
  0 ≤ n.toInt ∧ ∀ k : ℕ, k < n.toInt → userMem.toNat ≤ buf.toNat + k ∧ buf.toNat + k < userEnd.toNat

/-- The buffer and the count for which the two comparisons decide rightly: the buffer starts below
the page, or the sum does not run past the signed range, or a negative count leaves the sum above
the page. -/
def SumInRange (buf n : BitVec 32) : Prop :=
  buf.toInt < userMem.toInt ∨ 0 ≤ n.toInt ∧ buf.toInt + n.toInt < 2 ^ 31 ∨
    n.toInt < 0 ∧ userEnd.toInt < buf.toInt + n.toInt

theorem bufferAccepts_iff (buf n : BitVec 32) :
    bufferAccepts buf n ↔ userMem.toInt ≤ buf.toInt ∧ (buf + n).toInt ≤ userEnd.toInt := by
  simp only [bufferAccepts, BitVec.slt_eq_decide, decide_eq_true_eq, Int.not_lt]

/-- For a buffer not below the page, the signed sum is the sum itself unless it passes the signed
range. -/
theorem toInt_add_of_le {buf n : BitVec 32} (h : 0 ≤ buf.toInt) :
    (buf + n).toInt = if buf.toInt + n.toInt < 2 ^ 31 then buf.toInt + n.toInt
      else buf.toInt + n.toInt - 2 ^ 32 := by
  have hlo := BitVec.le_toInt n
  have hhi := BitVec.toInt_lt (x := n)
  have hhi' := BitVec.toInt_lt (x := buf)
  rw [BitVec.toInt_add, Int.bmod_def]
  split_ifs <;> omega

/-- The comparisons are sound exactly for the buffers and counts of `SumInRange`. -/
theorem bufferAccepts_sound_iff (buf n : BitVec 32) :
    (bufferAccepts buf n → InUserPage buf n) ↔ SumInRange buf n := by
  have hmem : userMem.toInt = 2 ^ 27 := rfl
  have hend : userEnd.toInt = 2 ^ 27 + 2 ^ 22 := rfl
  have hmem' : userMem.toNat = 2 ^ 27 := rfl
  have hend' : userEnd.toNat = 2 ^ 27 + 2 ^ 22 := rfl
  rw [bufferAccepts_iff, InUserPage, SumInRange, hmem, hend, hmem', hend']
  by_cases hlow : buf.toInt < 2 ^ 27
  · exact iff_of_true (fun h => absurd h.1 (not_le.mpr hlow)) (.inl hlow)
  have hbuf : buf.toInt = buf.toNat := by
    have hcond := BitVec.toInt_eq_toNat_cond buf
    have hlt := buf.isLt
    split_ifs at hcond <;> omega
  rw [toInt_add_of_le (by omega)]
  by_cases hwrap : buf.toInt + n.toInt < 2 ^ 31
  · rw [if_pos hwrap]
    constructor
    · intro h
      by_cases hn : 0 ≤ n.toInt
      · exact .inr (.inl ⟨hn, hwrap⟩)
      · refine .inr (.inr ⟨by omega, ?_⟩)
        by_contra hsum
        exact hn (h ⟨by omega, by omega⟩).1
    · rintro (h | ⟨hn, -⟩ | ⟨-, h⟩) ⟨-, hsum⟩
      · exact absurd h hlow
      · exact ⟨hn, fun k hk => by omega⟩
      · omega
  · rw [if_neg hwrap]
    have hhi := BitVec.toInt_lt (x := n)
    have hhi' := BitVec.toInt_lt (x := buf)
    constructor
    · -- the sum has wrapped to a negative number, and the last byte lies behind the page
      intro h
      obtain ⟨hn, hpage⟩ := h ⟨by omega, by omega⟩
      have hlast := (hpage (n.toInt.toNat - 1) (by omega)).2
      omega
    · rintro (h | ⟨-, h⟩ | ⟨h, -⟩)
      · exact absurd h hlow
      · exact absurd h hwrap
      · omega

/-- **The buffer check.** For every descriptor, buffer and count, `read` calls the driver only with
a buffer in the user page if and only if the descriptor is rejected or the two comparisons decide
rightly, and so does `write`. -/
theorem bufferCheck_sound_iff (t : ProcTable) (fd buf n : BitVec 32) :
    ((readAccepts t fd buf n → InUserPage buf n) ↔
      (7#32 ≤ fd ∨ fd = 1#32 ∨ (t.fds fd.toNat).flags = 0#32) ∨ SumInRange buf n) ∧
    ((writeAccepts t fd buf n → InUserPage buf n) ↔
      (7#32 ≤ fd ∨ fd = 0#32 ∨ (t.fds fd.toNat).flags = 0#32) ∨ SumInRange buf n) := by
  rw [← bufferAccepts_sound_iff, readAccepts, writeAccepts]
  constructor <;> tauto

/-- For the standard input, a buffer at the start of the page and the largest count, the sum passes
the signed range and `read` calls the driver. -/
theorem bufferCheck_unsound :
    ¬ ∀ (t : ProcTable) (fd buf n : BitVec 32),
      (readAccepts t fd buf n ∨ writeAccepts t fd buf n) → InUserPage buf n := by
  intro h
  let e : FdEntry := ⟨.entry 3#32, 0#32, 0#32, 1#32⟩
  let t : ProcTable := ⟨fun _ => 0, 0#32, 0#32, 0#32, 0#32,
    fun _ => ⟨fun _ => e, 0#32, 0#32, 0#32, none, none⟩, ⟨fun _ => 0#32, fun _ => 0#32⟩, 0#32, 0#32⟩
  have haccepts : readAccepts t 0#32 userMem 0x7FFFFFFF#32 := by
    refine ⟨⟨by decide, by decide⟩, by decide, ?_⟩
    show 1#32 ≠ 0#32
    decide
  have hlast := ((h t 0#32 userMem 0x7FFFFFFF#32 (.inl haccepts)).2 (2 ^ 30) (by decide)).2
  exact absurd hlast (by decide)

end Mp3Kernel
