import Mp3Kernel.Process.Reading

/-!
# `read` as a dispatcher

The driver behind a descriptor is a function of its arguments and of a state of its own. `read`
calls it once to learn whether it can be called, with a name that is not set and the number of the
descriptor for the offset. The result 0 is taken for a missing function; after any other result the
driver is called again, and only this second call has the name and the position of the descriptor.
`write` makes the corresponding test on the function pointer, without calling it.

## Main definitions

* `ReadFn`: the read functions of drivers with a device.
* `sysReadWith`: `read` over any table of such functions.
* `Invocation`, `logged`: the calls of the drivers, recorded in the device.
* `DispatchesOnce`: the driver is called once, with the name and the position, and its result is
  returned.

## Main results

* `sysRead_eq_sysReadWith`: with the drivers of the kernel, it is the system call.
* `sysReadWith_simulates`: a map of the devices that commutes with the drivers commutes with `read`.
* `sysReadWith_logged_cases`: the calls that `read` makes.
* `not_dispatchesOnce`: it never makes the one call that it should.

Source: `process.c`, lines 453–507 and 541–558; `fileoptable.c`, lines 66–103.
-/

namespace Mp3Kernel

open ByteMemory Transition

/-! ### Read functions -/

/-- A read function of a driver whose device has states in `δ`: from the name, the offset, the
buffer, the count and the state, the result and the state, or `none` where it does not return. -/
abbrev ReadFn (δ : Type) :=
  Ptr Block → BitVec 32 → Ptr Block → BitVec 32 → KState × δ → Option (BitVec 32 × KState × δ)

/-- The search of `read` for the name of an inode, which is then printed: the memory with the entry
in `tem_dentry`. Without an entry the name is a null pointer, and the printing faults. -/
def temName (fs : FileSystem Block) (temInode : BitVec 32) (m : Mem Block) :
    Option (Mem Block) := do
  let (found, m) ← findInode fs temInode maxFileNumber 0 m
  if found = false then none
  else
    let _ ← strlen m (Dentry.fileName Local.temDentry.ptr)
    some m

section ReadWith

variable {δ : Type} (driver : FotPtr → ReadFn δ)

/-- The part of `read` behind its checks. -/
def readFdWith (fd buf n : BitVec 32) (probe : Ptr Block) (q : KState × δ) :
    Option (BitVec 32 × KState × δ) := do
  let (ifread, s, d) ← driver (q.1.procs.fds fd.toNat).fileotPointer probe fd (q.1.userPtr buf) n q
  if ifread = 0#32 then some (failure, s, d)
  else
    let m ← temName s.fs (s.procs.fds fd.toNat).inode s.mem
    driver (s.procs.fds fd.toNat).fileotPointer (Dentry.fileName Local.temDentry.ptr)
      (s.procs.fds fd.toNat).position (s.userPtr buf) n ({ s with mem := m }, d)

/-- `int32_t read(uint32_t offset, void* buf, int32_t n)`, with any drivers behind the table. -/
def sysReadWith (fd buf n : BitVec 32) (probe : Ptr Block) (q : KState × δ) :
    Option (BitVec 32 × KState × δ) :=
  if buf.slt userMem then some (failure, q)
  else if userEnd.slt (buf + n) then some (failure, q)
  else if 7#32 ≤ fd ∨ fd = 1#32 then some (failure, q)
  else if (q.1.procs.fds fd.toNat).flags = 0#32 then some (failure, q)
  else readFdWith driver fd buf n probe q

end ReadWith

/-- The drivers of the kernel, whose devices are part of its state. -/
def kernelRead (wild : Wild) (p : FotPtr) : ReadFn Unit := fun fname offset buf n q =>
  (driverRead wild p fname offset buf n q.1).map fun r => (r.1, r.2, ())

/-- A call of a read function. -/
structure Invocation where
  /-- The operation table. -/
  pointer : FotPtr
  /-- `fname`. -/
  fname : Ptr Block
  /-- `offset`. -/
  offset : BitVec 32
  /-- `buf`. -/
  buf : Ptr Block
  /-- `length`. -/
  length : BitVec 32
  /-- The memory at the call. -/
  mem : Mem Block
  /-- The result. -/
  result : BitVec 32

/-- The string that the call passes as the name. -/
def Invocation.Names (c : Invocation) (name : List UInt8) : Prop :=
  HasLength c.mem c.fname name.length ∧ bytesAt c.mem c.fname name.length = name

/-- Drivers that record their calls. -/
def logged {δ : Type} (driver : FotPtr → ReadFn δ) (p : FotPtr) : ReadFn (δ × List Invocation) :=
  fun fname offset buf n q => (driver p fname offset buf n (q.1, q.2.1)).map fun r =>
    (r.1, r.2.1, r.2.2, q.2.2 ++ [⟨p, fname, offset, buf, n, q.1.mem, r.1⟩])

/-! ### Simulation -/

section Simulation

variable {δ ε : Type} {driver : FotPtr → ReadFn δ} {driver' : FotPtr → ReadFn ε} {f : ε → δ}
  {fd buf n : BitVec 32} {probe : Ptr Block}

/-- The devices of `driver'` behave as those of `driver` under the map `f`. -/
def Simulates (driver : FotPtr → ReadFn δ) (driver' : FotPtr → ReadFn ε) (f : ε → δ) : Prop :=
  ∀ p fname offset buf n s e, driver p fname offset buf n (s, f e) =
    (driver' p fname offset buf n (s, e)).map fun r => (r.1, r.2.1, f r.2.2)

theorem readFdWith_simulates (h : Simulates driver driver' f) (s : KState) (e : ε) :
    readFdWith driver fd buf n probe (s, f e) =
      (readFdWith driver' fd buf n probe (s, e)).map fun r => (r.1, r.2.1, f r.2.2) := by
  rw [readFdWith, readFdWith, h]
  cases driver' (s.procs.fds fd.toNat).fileotPointer probe fd (s.userPtr buf) n (s, e) with
  | none => rfl
  | some r =>
    obtain ⟨ifread, s₁, e₁⟩ := r
    show ite _ _ _ = Option.map _ (ite _ _ _)
    split_ifs
    · rfl
    · cases temName s₁.fs (s₁.procs.fds fd.toNat).inode s₁.mem with
      | none => rfl
      | some m => exact h _ _ _ _ _ _ _

/-- **A map of the devices that commutes with the drivers commutes with `read`.** -/
theorem sysReadWith_simulates (h : Simulates driver driver' f) (s : KState) (e : ε) :
    sysReadWith driver fd buf n probe (s, f e) =
      (sysReadWith driver' fd buf n probe (s, e)).map fun r => (r.1, r.2.1, f r.2.2) := by
  rw [sysReadWith, sysReadWith]
  split_ifs
  · rfl
  · rfl
  · rfl
  · rfl
  · exact readFdWith_simulates h s e

/-- Recording the calls changes nothing else. -/
theorem simulates_logged (driver : FotPtr → ReadFn δ) :
    Simulates driver (logged driver) Prod.fst := by
  intro p fname offset buf n s e
  rw [logged, Option.map_map]
  cases driver p fname offset buf n (s, e.1) with
  | none => rfl
  | some r => rfl

end Simulation

/-- The part of `read` behind its checks, with the search for the name as one step. -/
theorem readFd_eq (wild : Wild) (fd buf n : BitVec 32) (probe : Ptr Block) (s : KState) :
    readFd wild fd buf n probe s =
      (driverRead wild (s.procs.fds fd.toNat).fileotPointer probe fd (s.userPtr buf) n s).bind
        fun r => if r.1 = 0#32 then some (failure, r.2)
          else (temName r.2.fs (r.2.procs.fds fd.toNat).inode r.2.mem).bind fun m =>
            driverRead wild (r.2.procs.fds fd.toNat).fileotPointer
              (Dentry.fileName Local.temDentry.ptr) (r.2.procs.fds fd.toNat).position
              (r.2.userPtr buf) n { r.2 with mem := m } := by
  rw [readFd]
  refine congrArg (Option.bind _) (funext fun r => ?_)
  split_ifs with h0
  · exact if_pos h0
  · refine (if_neg h0).trans ?_
    rw [temName]
    cases findInode r.2.fs (r.2.procs.fds fd.toNat).inode maxFileNumber 0 r.2.mem with
    | none => rfl
    | some q =>
      obtain ⟨found, m⟩ := q
      cases found with
      | false => rfl
      | true =>
        show Option.bind _ _ = (Option.bind (strlen m _) fun _ => some m).bind _
        rw [Option.bind_assoc]
        rfl

/-- With the drivers of the kernel, `sysReadWith` is the system call. -/
theorem sysRead_eq_sysReadWith (wild : Wild) (fd buf n : BitVec 32) (probe : Ptr Block)
    (s : KState) : sysRead wild fd buf n probe s =
      (sysReadWith (kernelRead wild) fd buf n probe (s, ())).map fun r => (r.1, r.2.1) := by
  rw [sysRead, sysReadWith]
  split_ifs
  · rfl
  · rfl
  · rfl
  · rfl
  rw [readFd_eq, readFdWith, kernelRead]
  cases driverRead wild (s.procs.fds fd.toNat).fileotPointer probe fd (s.userPtr buf) n s with
  | none => rfl
  | some r =>
    obtain ⟨ifread, s₁⟩ := r
    show ite _ _ _ = Option.map _ (ite _ _ _)
    split_ifs
    · rfl
    · cases temName s₁.fs (s₁.procs.fds fd.toNat).inode s₁.mem with
      | none => rfl
      | some m =>
        show _ = Option.map _ (Option.map _ _)
        rw [Option.map_map]
        exact Option.map_id'.symm

/-! ### The calls of the driver -/

variable {δ : Type} {driver : FotPtr → ReadFn δ} {fd buf n r : BitVec 32} {probe : Ptr Block}
  {s s' : KState} {d d' : δ} {calls log log' : List Invocation}

/-- A call is recorded behind those before. -/
theorem logged_eq_some {p : FotPtr} {fname b : Ptr Block} {offset : BitVec 32}
    (h : logged driver p fname offset b n (s, d, calls) = some (r, s', d', log)) :
    log = calls ++ [⟨p, fname, offset, b, n, s.mem, r⟩] := by
  obtain ⟨q, -, hq⟩ := Option.map_eq_some_iff.mp h
  cases hq
  rfl

/-- **The calls that `read` makes**: none, where its checks fail; one with the name that is not set,
where that returns 0; and otherwise a second one. -/
theorem sysReadWith_logged_cases
    (h : sysReadWith (logged driver) fd buf n probe (s, d, []) = some (r, s', d', log)) :
    (¬ readAccepts s.procs fd buf n ∧ r = failure ∧ log = []) ∨
    (∃ c : Invocation, log = [c] ∧ c.fname = probe ∧ c.offset = fd ∧ c.result = 0#32 ∧
      r = failure) ∨
    ∃ c₁ c₂ : Invocation, log = [c₁, c₂] ∧ c₁.fname = probe ∧ c₁.offset = fd ∧ c₁.result ≠ 0#32 ∧
      c₂.fname = Dentry.fileName Local.temDentry.ptr ∧ r = c₂.result := by
  rw [sysReadWith] at h
  split_ifs at h with hlow hhigh hfd hflags
  · cases h
    exact .inl ⟨fun ha => ha.1.1 hlow, rfl, rfl⟩
  · cases h
    exact .inl ⟨fun ha => ha.1.2 hhigh, rfl, rfl⟩
  · cases h
    exact .inl ⟨fun ha => ha.2.1 hfd, rfl, rfl⟩
  · cases h
    exact .inl ⟨fun ha => ha.2.2 hflags, rfl, rfl⟩
  right
  obtain ⟨⟨ifread, s₁, d₁, log₁⟩, hfirst, h⟩ := Option.bind_eq_some_iff.mp h
  obtain rfl := logged_eq_some hfirst
  dsimp only at h
  split_ifs at h with h0
  · cases h
    exact .inl ⟨_, rfl, rfl, rfl, h0, rfl⟩
  · obtain ⟨m, -, hsecond⟩ := Option.bind_eq_some_iff.mp h
    obtain rfl := logged_eq_some hsecond
    exact .inr ⟨_, _, rfl, rfl, rfl, h0, rfl, rfl⟩

/-- **`read` is a transparent dispatcher**: it calls the driver of the descriptor once, with the
name of the opened entry and the position of the descriptor, and returns the result. -/
def DispatchesOnce (driver : FotPtr → ReadFn δ) (name : List UInt8) (fd buf n : BitVec 32)
    (probe : Ptr Block) (s : KState) (d : δ) : Prop :=
  ∃ c s' d', sysReadWith (logged driver) fd buf n probe (s, d, []) = some (c.result, s', d', [c]) ∧
    c.pointer = (s.procs.fds fd.toNat).fileotPointer ∧ c.Names name ∧
    c.offset = (s.procs.fds fd.toNat).position ∧ c.buf = s.userPtr buf ∧ c.length = n

/-- **`read` is never a transparent dispatcher**, whatever the driver, its device and the arguments
are: where it makes one call only, the result of the call is 0 and `read` returns `-1`. -/
theorem not_dispatchesOnce (driver : FotPtr → ReadFn δ) (name : List UInt8) (fd buf n : BitVec 32)
    (probe : Ptr Block) (s : KState) (d : δ) : ¬ DispatchesOnce driver name fd buf n probe s d := by
  rintro ⟨c, s', d', hread, -⟩
  rcases sysReadWith_logged_cases hread with ⟨-, -, hlog⟩ | ⟨c', hlog, -, -, hzero, hr⟩ |
    ⟨c₁, c₂, hlog, -⟩
  · cases hlog
  · cases hlog
    rw [hzero] at hr
    exact absurd hr (by decide)
  · cases hlog

/-- A process has opened the real-time clock, whose driver returns 0 after one period: `read` makes
one call, which returns 0, and returns `-1`. -/
theorem rtc_read_fails :
    ¬ ∀ (s : KState) (fd buf n : BitVec 32) (probe : Ptr Block),
      Reachable sampleWild 0x401000#32 s → readAccepts s.procs fd buf n →
      (s.procs.fds fd.toNat).fileotPointer.driver? = some .rtc →
        DispatchesOnce (kernelRead sampleWild) [0x72, 0x74, 0x63] fd buf n probe s () := by
  intro hall
  obtain ⟨s, h, hclock, hfreq⟩ := exists_opened_sample (k := 3) le_rfl (by decide)
  obtain ⟨haccepts, hdriver⟩ := hclock.readAccepts (by decide)
  obtain ⟨c, s', d', hread, -⟩ := hall s 2#32 userMem 1#32 Ptr.null h haccepts hdriver
  have hfirst : driverRead sampleWild (s.procs.fds 2).fileotPointer Ptr.null 2#32
      (s.userPtr userMem) 1#32 s = some (0#32, s) := by
    have hne : s.rtcFreq ≠ 0 := by
      rw [hfreq]
      decide
    rw [driverRead, hdriver]
    exact if_neg hne
  have hone : readFdWith (logged (kernelRead sampleWild)) 2#32 userMem 1#32 Ptr.null (s, (), []) =
      some (failure, s, (), [⟨(s.procs.fds 2).fileotPointer, Ptr.null, 2#32, s.userPtr userMem,
        1#32, s.mem, 0#32⟩]) := by
    refine Option.bind_eq_some_iff.mpr ⟨(0#32, s, (), _), ?_, if_pos rfl⟩
    show Option.map _
      (Option.map _ (driverRead sampleWild (s.procs.fds 2).fileotPointer _ _ _ _ s)) = _
    rw [hfirst]
    rfl
  rw [sysReadWith, if_neg haccepts.1.1, if_neg haccepts.1.2, if_neg haccepts.2.1,
    if_neg haccepts.2.2, hone] at hread
  obtain ⟨hr, hrest⟩ := Prod.mk.inj (Option.some.inj hread)
  obtain ⟨-, hrest⟩ := Prod.mk.inj hrest
  obtain ⟨-, hlog⟩ := Prod.mk.inj hrest
  obtain ⟨rfl, -⟩ := List.cons.inj hlog
  exact failure_ne_zero hr

end Mp3Kernel
