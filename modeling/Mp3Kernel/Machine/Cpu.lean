import Mp3Kernel.Machine.X86
import Mp3Kernel.Transition.Listing

/-!
# Moves and arithmetic of x86

The machine with its segment registers and the direction flag, and listings of the instructions that
move bytes and double words. The segments are flat: an address does not depend on a selector. Where
the machine is in a listing is the position of the next instruction, and a run is at its end behind
the last one.

## Main definitions

* `Cpu`, `Op`, `Op.effect`: the machine, and the instructions that go on to the next one.
* `Move`, `Move.exec`: all instructions.

## Main results

* `Cpu.movsl_of_forward`: a double word moved.
* `Move.reaches_ops`: the rule for a block without jumps.
* `Move.reaches_test_jz`, `Move.reaches_jmp`, `Move.reaches_rep`, `Move.reaches_rep_zero`: the
  rules for the other instructions.
-/

namespace X86

open ByteMemory Transition

/-- The machine with the segment registers and the direction flag. -/
structure Cpu extends Machine where
  /-- The data segment. -/
  ds : BitVec 16
  /-- The extra segment. -/
  es : BitVec 16
  /-- The direction flag. -/
  df : Bool

/-- A word with its low byte replaced. -/
def setLow8 (v : BitVec 32) (b : UInt8) : BitVec 32 := v.extractLsb' 8 24 ++ b.toBitVec

/-- The low byte of a word. -/
def low8 (v : BitVec 32) : UInt8 := UInt8.ofBitVec (v.setWidth 8)

/-- A word with its low half replaced. -/
def setLow16 (v : BitVec 32) (w : BitVec 16) : BitVec 32 := v.extractLsb' 16 16 ++ w

@[simp] theorem low8_setLow8 (v : BitVec 32) (b : UInt8) : low8 (setLow8 v b) = b := by
  have hlow : (v.extractLsb' 8 24 ++ b.toBitVec).setWidth 8 = b.toBitVec := by
    rw [BitVec.setWidth_append, dif_pos le_rfl, BitVec.setWidth_eq]
  exact congrArg UInt8.ofBitVec hlow

namespace Cpu

/-- A register set. -/
def setReg (c : Cpu) (r : Reg) (v : BitVec 32) : Cpu :=
  { c with regs := Function.update c.regs r v }

/-- The zero and the sign flag of a result. -/
def resultFlags (c : Cpu) (v : BitVec 32) : Cpu := { c with zf := v == 0#32, sf := v.msb }

/-- `movsl`: a double word moved, and both pointers advanced in the direction of the flag. -/
def movsl (c : Cpu) : Cpu :=
  let d := if c.df then -4#32 else 4#32
  let w := readWord c.mem (addr (c.regs .esi))
  let c := { c with mem := writeWord c.mem (addr (c.regs .edi)) w }
  (c.setReg .esi (c.regs .esi + d)).setReg .edi (c.regs .edi + d)

/-- A move in the forward direction. -/
theorem movsl_of_forward {c : Cpu} (hdf : c.df = false) :
    c.movsl.mem = writeWord c.mem (addr (c.regs .edi)) (readWord c.mem (addr (c.regs .esi))) ∧
      c.movsl.regs .edi = c.regs .edi + 4#32 ∧ c.movsl.regs .esi = c.regs .esi + 4#32 ∧
      c.movsl.regs .ecx = c.regs .ecx ∧ c.movsl.regs .edx = c.regs .edx ∧ c.movsl.df = false := by
  have hd : (if c.df then -4#32 else 4#32) = 4#32 := if_neg (by rw [hdf]; exact Bool.false_ne_true)
  refine ⟨rfl, ?_, ?_, rfl, rfl, hdf⟩
  · exact congrArg (c.regs .edi + ·) hd
  · exact congrArg (c.regs .esi + ·) hd

end Cpu

/-! ### Instructions -/

/-- The instructions that go on to the next one. -/
inductive Op
  /-- `testl r, r'`. -/
  | testl (r r' : Reg)
  /-- `testl $imm, r`. -/
  | testlImm (imm : BitVec 32) (r : Reg)
  /-- `movb (r), %al`. -/
  | movbFrom (r : Reg)
  /-- `movb %al, (r)`. -/
  | movbTo (r : Reg)
  /-- `addl $imm, r`. -/
  | addl (imm : BitVec 32) (r : Reg)
  /-- `subl $imm, r`. -/
  | subl (imm : BitVec 32) (r : Reg)
  /-- `andl $imm, r`. -/
  | andl (imm : BitVec 32) (r : Reg)
  /-- `shrl $k, r`. -/
  | shrl (k : ℕ) (r : Reg)
  /-- `movl r, r'`. -/
  | movl (r r' : Reg)
  /-- `movw %ds, r`, for the low half of `r`. -/
  | movwFromDs (r : Reg)
  /-- `movw r, %es`, for the low half of `r`. -/
  | movwToEs (r : Reg)
  /-- `cld`. -/
  | cld

/-- What an instruction does. The overflow flag is not determined by a shift of more than one place,
and stays. -/
def Op.effect : Op → Cpu → Cpu
  | testl r r', c => { c.resultFlags (c.regs r' &&& c.regs r) with ovf := false }
  | testlImm imm r, c => { c.resultFlags (c.regs r &&& imm) with ovf := false }
  | movbFrom r, c => c.setReg .eax (setLow8 (c.regs .eax) (c.mem (addr (c.regs r))))
  | movbTo r, c => { c with mem := store c.mem (addr (c.regs r)) (low8 (c.regs .eax)) }
  | addl imm r, c =>
    { (c.setReg r (c.regs r + imm)).resultFlags (c.regs r + imm) with
      ovf := BitVec.saddOverflow (c.regs r) imm }
  | subl imm r, c =>
    { (c.setReg r (c.regs r - imm)).resultFlags (c.regs r - imm) with
      ovf := BitVec.ssubOverflow (c.regs r) imm }
  | andl imm r, c =>
    { (c.setReg r (c.regs r &&& imm)).resultFlags (c.regs r &&& imm) with ovf := false }
  | shrl k r, c => (c.setReg r (c.regs r >>> k)).resultFlags (c.regs r >>> k)
  | movl r r', c => c.setReg r' (c.regs r)
  | movwFromDs r, c => c.setReg r (setLow16 (c.regs r) c.ds)
  | movwToEs r, c => { c with es := (c.regs r).setWidth 16 }
  | cld, c => { c with df := false }

/-- What a block of such instructions does. -/
def effects (ops : List Op) (c : Cpu) : Cpu := ops.foldl (fun c o => o.effect c) c

/-- Instructions. A label is a position in the listing. -/
inductive Move
  /-- An instruction that goes on to the next one. -/
  | op (o : Op)
  /-- `jz label`. -/
  | jz (label : ℕ)
  /-- `jmp label`. -/
  | jmp (label : ℕ)
  /-- `rep movsl`, one round of it in a step. -/
  | repMovsl

/-- The effect of the instruction at position `i`, and the position of the next one. -/
def Move.exec (i : ℕ) (c : Cpu) : Move → ℕ × Cpu
  | op o => (i + 1, o.effect c)
  | jz label => (if c.zf then label else i + 1, c)
  | jmp label => (label, c)
  | repMovsl =>
    if c.regs .ecx = 0#32 then (i + 1, c)
    else (i, c.movsl.setReg .ecx (c.regs .ecx - 1#32))

/-! ### Listings -/

namespace Move

variable {code : List Move} {i label : ℕ} {c : Cpu} {ops : List Op} {Q : ℕ × Cpu → Prop}

/-- **The rule for a block without jumps.** -/
theorem reaches_ops (h : ops.map .op <+: code.drop i)
    (hnext : Reaches (CodeStep exec code) (i + ops.length, effects ops c) Q) :
    Reaches (CodeStep exec code) (i, c) Q :=
  CodeStep.reaches_block (fun _ _ _ => rfl) h hnext

/-- **The rule for a test** of a value, with a jump when it is zero. -/
theorem reaches_test_jz {o : Op} {v : BitVec 32} (htest : code[i]? = some (.op o))
    (hjz : code[i + 1]? = some (.jz label)) (hzf : (o.effect c).zf = (v == 0#32))
    (hzero : v = 0#32 → Reaches (CodeStep exec code) (label, o.effect c) Q)
    (hne : v ≠ 0#32 → Reaches (CodeStep exec code) (i + 2, o.effect c) Q) :
    Reaches (CodeStep exec code) (i, c) Q := by
  refine CodeStep.reaches_branch htest hjz rfl ?_ hzero hne
  rw [exec, hzf]
  exact congrArg (·, _) (if_congr beq_iff_eq rfl rfl)

/-- The test of a register. -/
theorem reaches_testl_jz {r : Reg} (htest : code[i]? = some (.op (.testl r r)))
    (hjz : code[i + 1]? = some (.jz label))
    (hzero : c.regs r = 0#32 → Reaches (CodeStep exec code) (label, (Op.testl r r).effect c) Q)
    (hne : c.regs r ≠ 0#32 → Reaches (CodeStep exec code) (i + 2, (Op.testl r r).effect c) Q) :
    Reaches (CodeStep exec code) (i, c) Q := by
  have hzf : ((Op.testl r r).effect c).zf = (c.regs r == 0#32) :=
    congrArg (· == 0#32) (BitVec.and_self (x := c.regs r))
  exact reaches_test_jz htest hjz hzf hzero hne

/-- The test of the bits of a mask. -/
theorem reaches_testlImm_jz {imm : BitVec 32} {r : Reg}
    (htest : code[i]? = some (.op (.testlImm imm r))) (hjz : code[i + 1]? = some (.jz label))
    (hzero : c.regs r &&& imm = 0#32 →
      Reaches (CodeStep exec code) (label, (Op.testlImm imm r).effect c) Q)
    (hne : c.regs r &&& imm ≠ 0#32 →
      Reaches (CodeStep exec code) (i + 2, (Op.testlImm imm r).effect c) Q) :
    Reaches (CodeStep exec code) (i, c) Q :=
  reaches_test_jz htest hjz rfl hzero hne

/-- **The rule for a jump.** -/
theorem reaches_jmp (h : code[i]? = some (.jmp label))
    (hnext : Reaches (CodeStep exec code) (label, c) Q) : Reaches (CodeStep exec code) (i, c) Q :=
  CodeStep.reaches_instr h hnext

/-- **The rules for a repeated move.** -/
theorem reaches_rep_zero (h : code[i]? = some .repMovsl) (h0 : c.regs .ecx = 0#32)
    (hnext : Reaches (CodeStep exec code) (i + 1, c) Q) :
    Reaches (CodeStep exec code) (i, c) Q := by
  refine CodeStep.reaches_instr h ?_
  rw [exec, if_pos h0]
  exact hnext

theorem reaches_rep (h : code[i]? = some .repMovsl) (h0 : c.regs .ecx ≠ 0#32)
    (hnext : Reaches (CodeStep exec code) (i, c.movsl.setReg .ecx (c.regs .ecx - 1#32)) Q) :
    Reaches (CodeStep exec code) (i, c) Q := by
  refine CodeStep.reaches_instr h ?_
  rw [exec, if_neg h0]
  exact hnext

end Move

end X86
