import Mathlib.Logic.Relation
import Mp3Kernel.Process.State

/-!
# The file operation table

`init_fot` fills four entries of `file_operation_table`, one for each kind of file, and the
system calls reach a driver through the pointer stored in a descriptor. What a call through a
pointer outside the table does, and which data of the kernel a store through an uninitialised
pointer hits, is not determined by the source: it is the parameter `wild`.

## Main definitions

* `Wild`: what the source does not determine.
* `Driver`, `FotPtr.driver?`: the drivers, and the entry that a pointer designates.
* `driverOpen`, `driverClose`, `driverRead`, `driverWrite`: a call through a pointer.
* `DriverEffect`, `DriverEffects`: what a call of a driver can do.
* `Benign`: calls outside the table that return leave the processes and the file system
  alone.

## Main results

* `driverOpen_effects` and its companions: what each driver does.
* `DriverEffects.keeps`: no driver changes the processes.

Source: `fileoptable.c`; `RTC.c`, lines 99–151.
-/

namespace Mp3Kernel

open ByteMemory

/-- The entries of `file_operation_table`. -/
inductive Driver
  /-- `rtc_in_fot`. -/
  | rtc
  /-- `dir_in_fot`. -/
  | directory
  /-- `file_in_fot`. -/
  | file
  /-- `ter_in_fot`. -/
  | terminal
deriving DecidableEq

/-- The entry that a pointer designates, if it points into the table. -/
def FotPtr.driver? : FotPtr → Option Driver
  | .entry index =>
    if index = 0#32 then some .rtc
    else if index = 1#32 then some .directory
    else if index = 2#32 then some .file
    else if index = 3#32 then some .terminal
    else none
  | .raw _ => none

/-- What the source does not determine. -/
structure Wild where
  /-- The effect of a call through a pointer outside the table: the result and the state, or `none`
  when the call does not return. -/
  call : FotPtr → KState → Option (BitVec 32 × KState)
  /-- The state when a directory entry has been stored at a pointer that may designate data of the
  kernel: which data lie there is up to the linker. -/
  stray : Ptr Block → KState → KState

/-- A directory entry has been stored at `current`. In scratch memory it is nothing but bytes. -/
def Wild.stored (wild : Wild) (current : Ptr Block) (s : KState) : KState :=
  if current ∈ stackVars then s else wild.stray current s

@[simp] theorem Wild.stored_of_mem (wild : Wild) {current : Ptr Block} (h : current ∈ stackVars)
    (s : KState) : wild.stored current s = s := if_pos h

/-! ### The RTC driver -/

/-- `int rtcopen(const char* fname)`. -/
def rtcopen (s : KState) : BitVec 32 × KState := (0#32, { s with rtcFreq := 2 })

/-- `int rtcread(const char* fname, uint32_t offset, void* buf, int32_t length)`. The wait of
`rtc_read` ends as long as interrupts come, but its division fails when the frequency is zero. -/
def rtcread (s : KState) : Option (BitVec 32 × KState) :=
  if s.rtcFreq = 0 then none else some (0#32, s)

/-- `int rtcwrite(int32_t fd, const void* buf, int32_t nbytes)`, which sets the frequency `2`
whatever the buffer holds. -/
def rtcwrite (s : KState) : BitVec 32 × KState := (0#32, { s with rtcFreq := 2 })

/-! ### Calls through the table -/

section Calls

variable (wild : Wild) (p : FotPtr)

/-- `fileot_pointer->open(filename)`. -/
def driverOpen (fname : Ptr Block) (s : KState) : Option (BitVec 32 × KState) :=
  match p.driver? with
  | some .rtc => some (rtcopen s)
  | some .directory => (s.fs.directoryOpen fname s.mem).map fun r => (r.1, { s with mem := r.2 })
  | some .file => (s.fs.fileOpen fname s.mem).map fun r => (r.1, { s with mem := r.2 })
  | some .terminal => some (terminalOpen, s)
  | none => wild.call p s

/-- `fileot_pointer->close(filename)`. No driver looks at the name. -/
def driverClose (s : KState) : Option (BitVec 32 × KState) :=
  match p.driver? with
  | some .rtc => some (0#32, s)
  | some .directory => some (success, s)
  | some .file => some (success, s)
  | some .terminal =>
    some (s.console.terminalClose.1, { s with console := s.console.terminalClose.2 })
  | none => wild.call p s

/-- `fileot_pointer->read(filename, offset, buf, n)`. -/
def driverRead (fname : Ptr Block) (offset : BitVec 32) (buf : Ptr Block) (n : BitVec 32)
    (s : KState) : Option (BitVec 32 × KState) :=
  match p.driver? with
  | some .rtc => rtcread s
  | some .directory =>
    (s.fs.directoryRead fname offset buf n s.mem).map fun r => (r.1, { s with mem := r.2 })
  | some .file => (s.fs.fileRead fname offset buf n s.mem).map fun r => (r.1, { s with mem := r.2 })
  | some .terminal =>
    let r := s.console.keyboard.terminalRead fname offset buf n s.mem
    some (r.1, { s with mem := r.2 })
  | none => wild.call p s

/-- `fileot_pointer->write(fd, buf, n)`. -/
def driverWrite (fd : BitVec 32) (buf : Ptr Block) (n : BitVec 32) (s : KState) :
    Option (BitVec 32 × KState) :=
  match p.driver? with
  | some .rtc => some (rtcwrite s)
  | some .directory => some (FileSystem.directoryWrite fd buf n, s)
  | some .file => some (FileSystem.fileWrite fd buf n, s)
  | some .terminal =>
    let bytes := if buf = Ptr.null then none else some fun i => s.mem (buf.shift i)
    let r := s.console.screen.terminalWrite fd bytes n
    some (r.1, { s with console := { s.console with screen := r.2 } })
  | none => wild.call p s

end Calls

/-! ### What the drivers do -/

/-- One thing that a call of a driver does: it changes memory and the console, it sets the frequency
`2`, or it is a call outside the table that returns. -/
inductive DriverEffect (wild : Wild) : KState → KState → Prop
  /-- Memory and the console. -/
  | data (s : KState) (mem : Mem Block) (console : Console) :
      DriverEffect wild s { s with mem := mem, console := console }
  /-- The frequency. -/
  | frequency (s : KState) : DriverEffect wild s { s with rtcFreq := 2 }
  /-- A call outside the table. -/
  | outside {p : FotPtr} {s s' : KState} {r : BitVec 32} :
      wild.call p s = some (r, s') → DriverEffect wild s s'

/-- What the drivers do in a system call, one thing after the other. -/
abbrev DriverEffects (wild : Wild) : KState → KState → Prop :=
  Relation.ReflTransGen (DriverEffect wild)

variable {wild : Wild} {p : FotPtr} {s s' : KState} {r : BitVec 32}

theorem DriverEffects.data (s : KState) (mem : Mem Block) (console : Console) :
    DriverEffects wild s { s with mem := mem, console := console } :=
  .single (.data s mem console)

theorem DriverEffects.outside (h : wild.call p s = some (r, s')) : DriverEffects wild s s' :=
  .single (.outside h)

/-- A driver that changes memory only. -/
theorem effects_of_map {o : Option (BitVec 32 × Mem Block)}
    (h : (o.map fun q => (q.1, { s with mem := q.2 })) = some (r, s')) :
    DriverEffects wild s s' := by
  obtain ⟨q, -, hq⟩ := Option.map_eq_some_iff.mp h
  cases hq
  exact .data s q.2 s.console

theorem driverOpen_effects {fname : Ptr Block} (h : driverOpen wild p fname s = some (r, s')) :
    DriverEffects wild s s' := by
  rw [driverOpen] at h
  split at h
  · cases h
    exact .single (.frequency s)
  · exact effects_of_map h
  · exact effects_of_map h
  · cases h
    exact .refl
  · exact .outside h

theorem driverClose_effects (h : driverClose wild p s = some (r, s')) :
    DriverEffects wild s s' := by
  rw [driverClose] at h
  split at h
  · cases h
    exact .refl
  · cases h
    exact .refl
  · cases h
    exact .refl
  · cases h
    exact .data s s.mem _
  · exact .outside h

theorem driverRead_effects {fname buf : Ptr Block} {offset n : BitVec 32}
    (h : driverRead wild p fname offset buf n s = some (r, s')) : DriverEffects wild s s' := by
  rw [driverRead] at h
  split at h
  · rw [rtcread] at h
    split_ifs at h
    cases h
    exact .refl
  · exact effects_of_map h
  · exact effects_of_map h
  · cases h
    exact .data s _ s.console
  · exact .outside h

theorem driverWrite_effects {buf : Ptr Block} {fd n : BitVec 32}
    (h : driverWrite wild p fd buf n s = some (r, s')) : DriverEffects wild s s' := by
  rw [driverWrite] at h
  split at h
  · cases h
    exact .single (.frequency s)
  · cases h
    exact .refl
  · cases h
    exact .refl
  · cases h
    exact .data s s.mem _
  · exact .outside h

/-! ### What the drivers leave alone -/

/-- A call outside the table that returns leaves the processes and the globals of the file system
alone. -/
def Benign (wild : Wild) : Prop :=
  ∀ p s r s', wild.call p s = some (r, s') → s.Keeps s'

/-- The drivers leave the processes and the globals of the file system alone. -/
theorem DriverEffects.keeps (hw : Benign wild) (h : DriverEffects wild s s') : s.Keeps s' := by
  induction h with
  | refl => exact .refl s
  | tail _ heffect ih =>
    refine ih.trans ?_
    cases heffect with
    | data => exact ⟨rfl, rfl, rfl, rfl⟩
    | frequency => exact ⟨rfl, rfl, rfl, rfl⟩
    | outside h => exact hw _ _ _ _ h

end Mp3Kernel
