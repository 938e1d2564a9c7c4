import Mathlib.Data.List.ReduceOption
import Mathlib.Data.Set.Function
import Mathlib.Logic.Function.Basic
import Mp3Kernel.ByteMemory.Basic
import Mp3Kernel.Transition.Run

/-!
# A machine with some instructions of x86

Eight registers, three flags and a flat memory, and a listing of instructions each of which has an
address. Code outside the listing is a family of functions: `call` pushes the return address and
enters one, and what it does until it returns, if it does, is a parameter.

## Main definitions

* `Machine`, `Machine.push`, `Machine.pop`, `Machine.compare`.
* `Instr`, `Code`, `Code.step`: the instructions, a listing, and one step.
* `Words`, `wordsAt`, `Machine.Stack`: words in memory and on the stack.
* `FollowsConvention`: a function returns to its caller and keeps the caller's registers and the top
  of its stack.

## Main results

* `Machine.less_compare`, `Machine.greater_compare`: the flags after a comparison.
* `Machine.Stack.push`, `Machine.Stack.pop`, `FollowsConvention.stack`: the words on the stack after
  a push, a pop and a call.
* `Code.step_loc`, `Code.step_inside`: the step at an address of the listing and in a function.
* `Code.Step.deterministic`: there is at most one step.
-/

namespace X86

open ByteMemory Transition

/-! ### The machine -/

/-- The general registers. -/
inductive Reg
  | eax
  | ecx
  | edx
  | ebx
  | esp
  | ebp
  | esi
  | edi
  deriving DecidableEq

/-- The byte of memory with an address. -/
def addr (a : BitVec 32) : Ptr Unit := ⟨(), a⟩

/-- Registers, flags and memory. -/
structure Machine where
  /-- The registers. -/
  regs : Reg → BitVec 32
  /-- The zero flag. -/
  zf : Bool
  /-- The sign flag. -/
  sf : Bool
  /-- The overflow flag. -/
  ovf : Bool
  /-- Memory. -/
  mem : Mem Unit

namespace Machine

/-- A register set. -/
def setReg (m : Machine) (r : Reg) (v : BitVec 32) : Machine :=
  { m with regs := Function.update m.regs r v }

/-- A word pushed. -/
def push (m : Machine) (v : BitVec 32) : Machine :=
  let sp := m.regs .esp - 4#32
  { m.setReg .esp sp with mem := writeWord m.mem (addr sp) v }

/-- The word on top of the stack. -/
def top (m : Machine) : BitVec 32 := readWord m.mem (addr (m.regs .esp))

/-- A word popped into a register. The stack pointer is incremented before the register is set. -/
def pop (m : Machine) (r : Reg) : Machine :=
  (m.setReg .esp (m.regs .esp + 4#32)).setReg r m.top

/-- The flags set by the difference of two words. -/
def compare (m : Machine) (x y : BitVec 32) : Machine :=
  { m with zf := x == y, sf := (x - y).msb, ovf := BitVec.ssubOverflow x y }

/-- The condition `l` of a jump. -/
def less (m : Machine) : Bool := m.sf != m.ovf

/-- The condition `g` of a jump. -/
def greater (m : Machine) : Bool := !m.zf && m.sf == m.ovf

/-- Argument `k` of a function that is entered. -/
def arg (m : Machine) (k : ℕ) : BitVec 32 :=
  readWord m.mem (addr (m.regs .esp + 4#32 + BitVec.ofNat 32 (4 * k)))

end Machine

/-! ### Code -/

/-- Instructions. A label is the position of an instruction in the listing; `F` names the functions
outside it. -/
inductive Instr (F : Type)
  /-- `pushl r`. -/
  | push (r : Reg)
  /-- `popl r`. -/
  | pop (r : Reg)
  /-- `movl $imm, r`. -/
  | mov (imm : BitVec 32) (r : Reg)
  /-- `cmp $imm, r`. -/
  | cmp (imm : BitVec 32) (r : Reg)
  /-- `jg label`. -/
  | jg (label : ℕ)
  /-- `jl label`. -/
  | jl (label : ℕ)
  /-- `jmp label`. -/
  | jmp (label : ℕ)
  /-- `call *table(,r,4)`, with a table of functions. -/
  | call (table : List (Option F)) (r : Reg)
  /-- `iret`. -/
  | iret

/-- A listing, with the addresses of its instructions. -/
structure Code (F : Type) where
  /-- The instructions. -/
  listing : List (Instr F)
  /-- The address of an instruction. -/
  loc : ℕ → BitVec 32
  /-- Different instructions have different addresses. -/
  injOn : Set.InjOn loc (Set.Iio listing.length)

/-- Where the machine is: at an address of the listing, or in a function outside it. -/
inductive Control (F : Type)
  | loc (a : BitVec 32)
  | inside (f : F)

/-- The machine, and where it is. -/
abbrev Config (F : Type) := Control F × Machine

/-- A function that is entered, with the machine at its entry; `none` for the other steps. -/
abbrev Entry (F : Type) := Option (F × Machine)

/-- What the functions do: the address they return to and the machine then, or `none` when they do
not return. -/
abbrev Functions (F : Type) := F → Machine → Option (BitVec 32 × Machine)

variable {F : Type}

/-- The effect of the instruction at position `i`. The code behind `iret` is not part of a listing,
and what an index outside the table calls is not determined. -/
def Instr.exec (loc : ℕ → BitVec 32) (i : ℕ) (m : Machine) : Instr F → Option (Entry F × Config F)
  | push r => some (none, .loc (loc (i + 1)), m.push (m.regs r))
  | pop r => some (none, .loc (loc (i + 1)), m.pop r)
  | mov imm r => some (none, .loc (loc (i + 1)), m.setReg r imm)
  | cmp imm r => some (none, .loc (loc (i + 1)), m.compare (m.regs r) imm)
  | jg label => some (none, .loc (loc (if m.greater then label else i + 1)), m)
  | jl label => some (none, .loc (loc (if m.less then label else i + 1)), m)
  | jmp label => some (none, .loc (loc label), m)
  | call table r =>
    (table[(m.regs r * 4#32).toNat / 4]?).join.map fun f =>
      let m' := m.push (loc (i + 1))
      (some (f, m'), .inside f, m')
  | iret => none

namespace Code

variable (c : Code F) (impl : Functions F)

/-- The position of the instruction at an address. -/
def index? (a : BitVec 32) : Option ℕ := (List.range c.listing.length).find? fun i => c.loc i = a

/-- One step. -/
def step : Config F → Option (Entry F × Config F)
  | (.loc a, m) => do
    let i ← c.index? a
    let instr ← c.listing[i]?
    instr.exec c.loc i m
  | (.inside f, m) => (impl f m).map fun r => (none, .loc r.1, r.2)

/-- One step, as a relation. -/
def Step (s : Config F) (l : Entry F) (t : Config F) : Prop := c.step impl s = some (l, t)

variable {c impl} {i : ℕ} {m : Machine} {f : F}

theorem index?_loc (hi : i < c.listing.length) : c.index? (c.loc i) = some i := by
  rw [index?, List.find?_range_eq_some]
  refine ⟨decide_eq_true rfl, List.mem_range.mpr hi, fun j hj => ?_⟩
  rw [Bool.not_eq_true', decide_eq_false_iff_not]
  exact fun h => Nat.ne_of_lt hj (c.injOn (hj.trans hi) hi h)

/-- The step at an address of the listing. -/
theorem step_loc (hi : i < c.listing.length) :
    c.step impl (.loc (c.loc i), m) = c.listing[i].exec c.loc i m := by
  rw [step, index?_loc hi, Option.bind_eq_bind, Option.bind_some, List.getElem?_eq_getElem hi]
  rfl

theorem step_inside : c.step impl (.inside f, m) =
    (impl f m).map fun r => (none, .loc r.1, r.2) := rfl

theorem Step.deterministic (s : Config F) (l : Entry F) (t : Config F) (l' : Entry F)
    (t' : Config F) (h : c.Step impl s l t) (h' : c.Step impl s l' t') : l = l' ∧ t = t' :=
  Prod.mk.inj (Option.some.inj (h.symm.trans h'))

end Code

/-! ### Comparisons -/

/-- The sign and the overflow of a difference agree when it is not negative. -/
theorem msb_sub_eq_ssubOverflow (x y : BitVec 32) :
    (x - y).msb = BitVec.ssubOverflow x y ↔ y.toInt ≤ x.toInt := by
  have hsub : (x - y).toInt = (x.toInt - y.toInt).bmod (2 ^ 32) := BitVec.toInt_sub
  rw [Int.bmod_def] at hsub
  have hx := BitVec.le_toInt x
  have hx' := BitVec.toInt_lt (x := x)
  have hy := BitVec.le_toInt y
  have hy' := BitVec.toInt_lt (x := y)
  rw [BitVec.msb_eq_toInt, BitVec.ssubOverflow, Bool.eq_iff_iff, Bool.or_eq_true]
  simp only [decide_eq_true_eq]
  split_ifs at hsub <;> omega

namespace Machine

variable (m : Machine) (x y : BitVec 32)

theorem less_compare : (m.compare x y).less = true ↔ x.toInt < y.toInt := by
  have hsub := msb_sub_eq_ssubOverflow x y
  rw [less, bne_iff_ne, ← Int.not_le, ← hsub]
  rfl

theorem greater_compare : (m.compare x y).greater = true ↔ y.toInt < x.toInt := by
  have hsub := msb_sub_eq_ssubOverflow x y
  have hzero : (m.compare x y).zf = true ↔ x.toInt = y.toInt := by
    rw [BitVec.toInt_inj]
    exact beq_iff_eq
  rw [greater, Bool.and_eq_true, Bool.not_eq_true', beq_iff_eq, ← Bool.not_eq_true, hzero]
  show _ ∧ (x - y).msb = BitVec.ssubOverflow x y ↔ _
  rw [hsub]
  omega

end Machine

/-! ### The stack -/

/-- The words `ws` stand one after the other from the address `a` on. -/
def Words (mem : Mem Unit) : BitVec 32 → List (BitVec 32) → Prop
  | _, [] => True
  | a, w :: ws => readWord mem (addr a) = w ∧ Words mem (a + 4#32) ws

/-- The `n` words from the address `a` on. -/
def wordsAt (mem : Mem Unit) : BitVec 32 → ℕ → List (BitVec 32)
  | _, 0 => []
  | a, n + 1 => readWord mem (addr a) :: wordsAt mem (a + 4#32) n

@[simp] theorem length_wordsAt (mem : Mem Unit) (a : BitVec 32) (n : ℕ) :
    (wordsAt mem a n).length = n := by
  induction n generalizing a with
  | zero => rfl
  | succ n ih => rw [wordsAt, List.length_cons, ih]

theorem words_wordsAt (mem : Mem Unit) (a : BitVec 32) (n : ℕ) : Words mem a (wordsAt mem a n) := by
  induction n generalizing a with
  | zero => trivial
  | succ n ih => exact ⟨rfl, ih _⟩

theorem Words.wordsAt_eq {mem : Mem Unit} {a : BitVec 32} {ws : List (BitVec 32)}
    (h : Words mem a ws) : wordsAt mem a ws.length = ws := by
  induction ws generalizing a with
  | nil => rfl
  | cons w ws ih => rw [List.length_cons, wordsAt, h.1, ih h.2]

/-- The words on the stack begin with `ws`. -/
def Machine.Stack (m : Machine) (ws : List (BitVec 32)) : Prop := Words m.mem (m.regs .esp) ws

theorem addr_add (a : BitVec 32) (k : ℕ) : addr (a + BitVec.ofNat 32 k) = (addr a).shift k := rfl

/-- Words depend on their bytes only. -/
theorem Words.congr {mem mem' : Mem Unit} {a : BitVec 32} {ws : List (BitVec 32)}
    (h : Words mem a ws) (hm : Set.EqOn mem' mem ((addr a).span (4 * ws.length))) :
    Words mem' a ws := by
  induction ws generalizing a with
  | nil => trivial
  | cons w ws ih =>
    have hlen : 4 * (w :: ws).length = 4 + 4 * ws.length := by
      rw [List.length_cons]
      omega
    rw [hlen] at hm
    refine ⟨?_, ih h.2 (hm.mono ?_)⟩
    · rw [← h.1]
      exact readWord_congr hm (Ptr.span_mono (by omega))
    · rw [addr_add a 4]
      exact Ptr.span_shift_subset le_rfl

namespace Machine

variable {m m' : Machine} {ws : List (BitVec 32)} {v a : BitVec 32} {r r' : Reg} {n : ℕ}

@[simp] theorem regs_setReg_self : (m.setReg r v).regs r = v := by
  simp only [setReg, Function.update_self]

theorem regs_setReg (hr : r' ≠ r) : (m.setReg r v).regs r' = m.regs r' := by
  simp only [setReg, Function.update_of_ne hr]

@[simp] theorem esp_push : (m.push v).regs .esp = m.regs .esp - 4#32 :=
  regs_setReg_self (m := m) (r := .esp)

theorem regs_push (hr : r ≠ .esp) : (m.push v).regs r = m.regs r :=
  regs_setReg (m := m) hr

theorem regs_pop_self : (m.pop r).regs r = m.top := by
  rw [pop, regs_setReg_self]

theorem regs_pop (hr : r' ≠ r) (hesp : r' ≠ .esp) : (m.pop r).regs r' = m.regs r' := by
  rw [pop, regs_setReg hr, regs_setReg hesp]

theorem esp_pop (hr : r ≠ .esp) : (m.pop r).regs .esp = m.regs .esp + 4#32 := by
  rw [pop, regs_setReg hr.symm, regs_setReg_self]

/-- A push puts a word in front of the words on the stack. -/
theorem Stack.push (h : m.Stack ws) (hlen : 4 * (ws.length + 1) ≤ 2 ^ 32) (v : BitVec 32) :
    (m.push v).Stack (v :: ws) := by
  have hback : m.regs .esp - 4#32 + 4#32 = m.regs .esp := BitVec.sub_add_cancel ..
  have hd : Disjoint ((addr (m.regs .esp - 4#32)).span 4)
      ((addr (m.regs .esp)).span (4 * ws.length)) := by
    have hd := Ptr.disjoint_span_shift (p := addr (m.regs .esp - 4#32)) (i := 0) (j := 4) (n := 4)
      (k := 4 * ws.length) le_rfl (by omega)
    rwa [Ptr.shift_zero, ← addr_add, hback] at hd
  refine ⟨?_, ?_⟩
  · rw [esp_push]
    exact readWord_writeWord ..
  · rw [esp_push, hback]
    exact Words.congr h ((writeWord_eqOn ..).mono (Set.subset_compl_iff_disjoint_left.mpr hd))

/-- A pop takes the first word from the stack. -/
theorem Stack.pop (h : m.Stack (v :: ws)) (hr : r ≠ .esp) :
    (m.pop r).Stack ws ∧ (m.pop r).regs r = v := by
  refine ⟨?_, regs_pop_self.trans h.1⟩
  rw [Stack, esp_pop hr]
  exact h.2

/-- A pop of the stack pointer, when the word on top is the address behind it. -/
theorem Stack.pop_esp (h : m.Stack ((m.regs .esp + 4#32) :: ws)) :
    (m.pop .esp).Stack ws ∧ (m.pop .esp).regs .esp = m.regs .esp + 4#32 := by
  have hesp : (m.pop .esp).regs .esp = m.regs .esp + 4#32 := regs_pop_self.trans h.1
  refine ⟨?_, hesp⟩
  rw [Stack, hesp]
  exact h.2

end Machine

/-! ### Calling functions -/

/-- The registers that a function must keep. -/
def calleeSaved : List Reg := [.ebx, .esi, .edi, .ebp]

/-- When the function returns, it has returned to the address on top of the stack and removed it,
kept the registers of its caller, and left the `n` bytes behind the return address alone. -/
structure FollowsConvention (n : ℕ) (f : Machine → Option (BitVec 32 × Machine)) : Prop where
  returns : ∀ m a m', f m = some (a, m') → a = m.top
  esp : ∀ m a m', f m = some (a, m') → m'.regs .esp = m.regs .esp + 4#32
  saved : ∀ m a m', f m = some (a, m') → ∀ r ∈ calleeSaved, m'.regs r = m.regs r
  frame : ∀ m a m', f m = some (a, m') →
    Set.EqOn m'.mem m.mem ((addr (m.regs .esp + 4#32)).span n)

/-- **The rule for calls.** The return address is taken from the stack, and the words behind it
stay. -/
theorem FollowsConvention.stack {n : ℕ} {f : Machine → Option (BitVec 32 × Machine)}
    {m m' : Machine} {a v : BitVec 32} {ws : List (BitVec 32)} (hf : FollowsConvention n f)
    (h : m.Stack (v :: ws)) (hlen : 4 * ws.length ≤ n) (hret : f m = some (a, m')) :
    a = v ∧ m'.Stack ws := by
  refine ⟨(hf.returns m a m' hret).trans h.1, ?_⟩
  rw [Machine.Stack, hf.esp m a m' hret]
  exact Words.congr h.2 ((hf.frame m a m' hret).mono (Ptr.span_mono hlen))

/-- The words behind the return address are the arguments. -/
theorem Machine.Stack.arg {m : Machine} {v w₀ w₁ w₂ : BitVec 32} {ws : List (BitVec 32)}
    (h : m.Stack (v :: w₀ :: w₁ :: w₂ :: ws)) : m.arg 0 = w₀ ∧ m.arg 1 = w₁ ∧ m.arg 2 = w₂ := by
  obtain ⟨-, h₀, h₁, h₂, -⟩ := h
  refine ⟨?_, ?_, ?_⟩
  · rw [← h₀]
    exact congrArg (fun a => readWord m.mem (addr a)) (BitVec.add_zero _)
  · rw [← h₁]
    rfl
  · rw [← h₂]
    exact congrArg (fun a => readWord m.mem (addr a)) (BitVec.add_assoc _ 4#32 4#32).symm

end X86
