import Mp3Kernel.Process.Program

/-!
# What `close` does with the table of descriptors

`close` never looks at its argument. Its two loops go through the eight entries of `filed_array`,
and the index of the outer loop is used again behind them: the driver is called through
`filed_array[8]`, which is the field `pid` of the control block.

## Main definitions

* `CloseEvent`, `closeTrace`: the entries that a call examines, and the driver that it calls.
* `ProcTable.Closable`: the argument names a descriptor to be closed.
* `ClosesNamed`: the call acts on the named descriptor only.

## Main results

* `sysClose_eq_bind`: the call does what the trace says.
* `closesNamed_iff`: it acts on the named descriptor only where there is no table.
* `close_leaves_table`: a reachable state in which it does not.

Source: `process.c`, lines 405–432; `process.h`, lines 25–46.
-/

namespace Mp3Kernel

open ByteMemory

/-! ### The trace of a call -/

/-- What a call of `close` does with the table of descriptors. -/
inductive CloseEvent
  /-- A field of `filed_array[fd]` is read. -/
  | examine (fd : ℕ)
  /-- The driver is called through this pointer. -/
  | callDriver (p : FotPtr)

/-- The two loops read the inode of every entry once for each directory entry. -/
def closeLoops : List CloseEvent :=
  (List.range fdarrayMax).flatMap fun loopThroughFd =>
    List.replicate maxFileNumber (.examine loopThroughFd)

/-- The driver that is called behind the loops, where `loop_through_fd` is `FDARRAY_MAX`. -/
def closeCall (t : ProcTable) : List CloseEvent :=
  [.examine fdarrayMax, .callDriver t.fotPtr8]

/-- The events of a call of `close` whose loops end, in order, and the state behind the loops. -/
def closeTrace (wild : Wild) (current : Ptr Block) (s : KState) :
    Option (List CloseEvent × KState) :=
  if s.procs.filedArray = 0#32 then some ([], s)
  else (closeScan s.fs current s.mem).map fun m =>
    let s := wild.stored current { s with mem := m }
    (closeLoops ++ closeCall s.procs, s)

/-- The pointer through which a driver is called, if there is one. -/
def CloseEvent.called? (events : List CloseEvent) : Option FotPtr :=
  events.findSome? fun
    | .examine _ => none
    | .callDriver p => some p

theorem called?_closeTrace (t : ProcTable) :
    CloseEvent.called? (closeLoops ++ closeCall t) = some t.fotPtr8 := by
  have hloops : CloseEvent.called? closeLoops = none := by
    refine List.findSome?_eq_none_iff.mpr fun e he => ?_
    obtain ⟨fd, -, he⟩ := List.mem_flatMap.mp he
    rw [List.eq_of_mem_replicate he]
  rw [CloseEvent.called?] at hloops
  rw [CloseEvent.called?, List.findSome?_append, hloops]
  rfl

/-- **The call does what the trace says**: it calls the driver of the trace, or it returns `-1`. -/
theorem sysClose_eq_bind (wild : Wild) (i : BitVec 32) (current : Ptr Block) (s : KState) :
    sysClose wild i current s = (closeTrace wild current s).bind fun r =>
      match CloseEvent.called? r.1 with
      | some p => driverClose wild p r.2
      | none => some (failure, r.2) := by
  rw [sysClose, closeTrace]
  by_cases h0 : s.procs.filedArray = 0#32
  · rw [if_pos h0, if_pos h0]
    rfl
  · rw [if_neg h0, if_neg h0]
    cases closeScan s.fs current s.mem with
    | none => rfl
    | some m =>
      rw [Option.map_some, Option.bind_some]
      dsimp only
      rw [called?_closeTrace]
      rfl

/-! ### The named descriptor -/

/-- There is a table, and the argument is the number of one of its descriptors from 2 on that is in
use. -/
def ProcTable.Closable (t : ProcTable) (i : BitVec 32) : Prop :=
  t.filedArray ≠ 0#32 ∧ 2 ≤ i.toInt ∧ i.toInt ≤ 7 ∧ (t.fds i.toNat).flags ≠ 0#32

/-- **The call acts on the named descriptor only.** It ends its loops and examines the entries of
the table only; where the argument names no descriptor to be closed it returns `-1`, calls no driver
and changes nothing, and otherwise it calls the driver of the descriptor. -/
structure ClosesNamed (wild : Wild) (i : BitVec 32) (current : Ptr Block) (s : KState) : Prop where
  /-- The entries examined are those of the table. -/
  examined : ∃ r, closeTrace wild current s = some r ∧ ∀ fd, .examine fd ∈ r.1 → fd < fdarrayMax
  /-- No descriptor to be closed. -/
  rejected : ¬ s.procs.Closable i → sysClose wild i current s = some (failure, s) ∧
    ∀ r, closeTrace wild current s = some r → ∀ p, .callDriver p ∉ r.1
  /-- The driver called. -/
  called : s.procs.Closable i → ∃ r, closeTrace wild current s = some r ∧
    ∀ p, .callDriver p ∈ r.1 ↔ p = (s.procs.fds i.toNat).fileotPointer

/-- **`close` acts on the named descriptor only** where there is no table; with a table it always
examines the entry behind it. -/
theorem closesNamed_iff (wild : Wild) (i : BitVec 32) (current : Ptr Block) (s : KState) :
    ClosesNamed wild i current s ↔ s.procs.filedArray = 0#32 := by
  constructor
  · rintro ⟨⟨r, htrace, hexamined⟩, -, -⟩
    by_contra h0
    rw [closeTrace, if_neg h0] at htrace
    obtain ⟨m, -, rfl⟩ := Option.map_eq_some_iff.mp htrace
    have hbehind (t : ProcTable) : CloseEvent.examine fdarrayMax ∈ closeLoops ++ closeCall t :=
      List.mem_append_right _ List.mem_cons_self
    exact absurd (hexamined fdarrayMax (hbehind _)) (Nat.lt_irrefl _)
  · intro h0
    have htrace : closeTrace wild current s = some ([], s) := if_pos h0
    refine ⟨⟨_, htrace, fun fd hfd => absurd hfd List.not_mem_nil⟩, fun _ => ⟨if_pos h0, ?_⟩,
      fun h => absurd h0 h.1⟩
    intro r hr p
    obtain rfl := Option.some.inj (htrace.symm.trans hr)
    exact List.not_mem_nil

/-- With the sample image, descriptor 2 is closed in the first process. -/
theorem close_leaves_table : ¬ ∀ s, Reachable sampleWild 0x401000#32 s →
    ClosesNamed sampleWild 2#32 Local.current.ptr s := by
  intro hall
  obtain ⟨s, hreach, -, -, hc⟩ := exists_reachable_sample
  have h0 := (closesNamed_iff sampleWild 2#32 _ s).mp (hall s hreach)
  rw [hc.filedArray] at h0
  exact absurd h0 (by decide)

end Mp3Kernel
