import Mathlib.Data.Nat.Notation
import Mathlib.Tactic.Common

/-!
# The interrupt controller 8259A

A controller with eight lines: the requests that have been made, the lines that are masked, and the
lines that are in service. Two controllers form a cascade, in which the slave makes its requests
through a line of the master.

The commands that rotate priorities, poll, or set the special mask mode are left out: they have no
successor state.

## Main definitions

* `Chip`, `Chip.command`, `Chip.data`: a controller, and the bytes written to its two ports.
* `Chip.raise`, `Chip.request`, `Chip.accept`: a request, the line that is served next, and its
  acknowledgement.
* `Cascade`, `Cascade.acknowledge`: two controllers, and the vector that the processor reads.

## Main results

* `Chip.initialised`: the four initialisation words, whatever the controller did before.
* `Chip.raise_command`, `Chip.raise_data`: requests commute with writes.
-/

namespace I8259A

/-- What the next byte written to the data port is. -/
inductive Stage
  /-- The vector of line 0. -/
  | icw2
  /-- How the controllers are connected. -/
  | icw3
  /-- The mode. -/
  | icw4
  /-- The mask. -/
  | ready
  deriving DecidableEq

/-- A controller. -/
structure Chip where
  /-- What the next byte written to the data port is. -/
  stage : Stage
  /-- Whether there are two controllers. -/
  cascade : Bool
  /-- Whether there is a fourth initialisation word. -/
  needs4 : Bool
  /-- Whether a line is in service only until it is acknowledged. -/
  autoEoi : Bool
  /-- The vector of line 0. -/
  base : BitVec 8
  /-- In the master the lines of slaves, and in a slave the line of the master. -/
  icw3 : BitVec 8
  /-- The mask. -/
  imr : BitVec 8
  /-- The requests. -/
  irr : BitVec 8
  /-- The lines in service. -/
  isr : BitVec 8
  deriving DecidableEq

/-- The byte with only the bit of a line. -/
def line (i : ℕ) : BitVec 8 := 1#8 <<< i

namespace Chip

variable (c : Chip)

/-- The line in service with the highest priority. -/
def inService : Option ℕ := (List.range 8).find? c.isr.getLsbD

/-- The byte `d` written to the command port: the first initialisation word, which begins the
initialisation, or an end of interrupt. -/
def command (d : BitVec 8) : Option Chip :=
  if d.getLsbD 4 then
    some
      { c with
        stage := .icw2
        cascade := !d.getLsbD 1
        needs4 := d.getLsbD 0
        autoEoi := false
        imr := 0
        irr := 0
        isr := 0 }
  else if d.getLsbD 3 then none
  else
    match (d >>> 5).toNat with
    | 0 => some c
    | 1 => some { c with isr := c.inService.elim c.isr fun i => c.isr &&& ~~~line i }
    | 2 => some c
    | 3 => some { c with isr := c.isr &&& ~~~line (d &&& 7).toNat }
    | _ => none

/-- The stage behind the second or the third initialisation word. -/
def nextStage (behind : Stage) : Stage :=
  if behind = .icw2 ∧ c.cascade then .icw3 else if c.needs4 then .icw4 else .ready

/-- The byte `d` written to the data port. -/
def data (d : BitVec 8) : Chip :=
  match c.stage with
  | .icw2 => { c with base := d &&& 0xF8, stage := c.nextStage .icw2 }
  | .icw3 => { c with icw3 := d, stage := c.nextStage .icw3 }
  | .icw4 => { c with autoEoi := d.getLsbD 1, stage := .ready }
  | .ready => { c with imr := d }

/-- A request on a line: its input rises. -/
def raise (i : ℕ) : Chip := { c with irr := c.irr ||| line i }

/-- The line that is served next: the first one that is requested, not masked, and not behind one in
service. -/
def request : Option ℕ :=
  if c.stage = .ready then
    (List.range 8).find? fun i =>
      c.irr.getLsbD i && !c.imr.getLsbD i && (List.range (i + 1)).all fun j => !c.isr.getLsbD j
  else none

/-- The processor acknowledges a line. -/
def accept (i : ℕ) : Chip :=
  { c with
    irr := c.irr &&& ~~~line i
    isr := if c.autoEoi then c.isr else c.isr ||| line i }

/-- **The initialisation** of one of two controllers. -/
theorem initialised (base icw3 : BitVec 8) :
    ((c.command 0x11#8).map fun c => ((c.data base).data icw3).data 0x01#8) =
      some
        { stage := .ready
          cascade := true
          needs4 := true
          autoEoi := false
          base := base &&& 0xF8
          icw3 := icw3
          imr := 0
          irr := 0
          isr := 0 } := rfl

/-- A request commutes with a command that does not begin the initialisation. -/
theorem raise_command (i : ℕ) {d : BitVec 8} (hd : d.getLsbD 4 = false) :
    (c.raise i).command d = (c.command d).map (raise · i) := by
  rw [command, command, hd, if_neg Bool.false_ne_true, if_neg Bool.false_ne_true]
  split_ifs
  · rfl
  · split <;> rfl

/-- A request commutes with a byte of the data port. -/
theorem raise_data (i : ℕ) (d : BitVec 8) : (c.raise i).data d = (c.data d).raise i := by
  obtain ⟨stage⟩ := c
  cases stage <;> rfl

end Chip

/-! ### Two controllers -/

/-- The line of the master to which the slave is wired. -/
def slaveLine : ℕ := 2

/-- A master and a slave. -/
structure Cascade where
  /-- The master. -/
  master : Chip
  /-- The slave. -/
  slave : Chip
  deriving DecidableEq

namespace Cascade

variable (b : Cascade)

/-- A request on a line of the slave, or none. -/
def raiseSlave (p : Bool) (i : ℕ) : Cascade :=
  if p then { b with slave := b.slave.raise i } else b

@[simp] theorem raiseSlave_false (i : ℕ) : b.raiseSlave false i = b := rfl

@[simp] theorem master_raiseSlave (p : Bool) (i : ℕ) : (b.raiseSlave p i).master = b.master := by
  cases p <;> rfl

/-- Two requests on one line. -/
theorem raiseSlave_raiseSlave (p q : Bool) (i : ℕ) :
    (b.raiseSlave p i).raiseSlave q i = b.raiseSlave (p || q) i := by
  cases p
  · rfl
  · cases q
    · rfl
    · simp [raiseSlave, Chip.raise, BitVec.or_assoc]

theorem raiseSlave_master (p : Bool) (i : ℕ) (c : Chip) :
    { b.raiseSlave p i with master := c } = raiseSlave { b with master := c } p i := by
  cases p <;> rfl

/-- A request on a line of the slave commutes with a command that does not begin its
initialisation. -/
theorem raiseSlave_command (p : Bool) (i : ℕ) {d : BitVec 8} (hd : d.getLsbD 4 = false) :
    ((b.raiseSlave p i).slave.command d).map (fun c => { b.raiseSlave p i with slave := c }) =
      (b.slave.command d).map fun c => raiseSlave { b with slave := c } p i := by
  cases p
  · rfl
  · show ((b.slave.raise i).command d).map _ = _
    rw [Chip.raise_command b.slave i hd, Option.map_map]
    rfl

/-- A request on a line of the slave commutes with a byte of its data port. -/
theorem raiseSlave_data (p : Bool) (i : ℕ) (d : BitVec 8) :
    { b.raiseSlave p i with slave := (b.raiseSlave p i).slave.data d } =
      raiseSlave { b with slave := b.slave.data d } p i := by
  cases p
  · rfl
  · show Cascade.mk b.master ((b.slave.raise i).data d) = _
    rw [Chip.raise_data]
    rfl

/-- The line of the master that is served next. The slave raises its line as long as it has a
request. -/
def request : Option ℕ :=
  if b.slave.request.isSome then (b.master.raise slaveLine).request else b.master.request

/-- The processor acknowledges the interrupt: its vector, from the slave when it is the slave's
line. -/
def acknowledge : Option (BitVec 8 × Cascade) := do
  let i ← b.request
  if i = slaveLine ∧ b.master.icw3.getLsbD i ∧ (b.slave.icw3 &&& 7).toNat = i then
    let j ← b.slave.request
    some (b.slave.base + BitVec.ofNat 8 j, ⟨b.master.accept i, b.slave.accept j⟩)
  else some (b.master.base + BitVec.ofNat 8 i, { b with master := b.master.accept i })

end Cascade

end I8259A
