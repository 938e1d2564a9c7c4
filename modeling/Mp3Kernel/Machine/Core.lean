import Mp3Kernel.Machine.X86
import Mp3Kernel.Transition.Simulation

/-!
# Interrupts of x86

The machine with its segment registers, the flags and the privilege level. An interrupt enters code
through a gate: the state that is interrupted is pushed, on the stack of the task state segment when
the privilege level changes, and `iret` restores it.

## Main definitions

* `Core`, `Core.iret`: the machine.
* `Gate`, `Tables`, `Tables.enter`: the tables that the processor reads, and the entry through a
  gate.
* `RingInstr`, `RingInstr.exec`: the instructions of code that handles interrupts.
* `Core.Behind`: what code behind an entry has pushed, and what it has left alone.
* `Core.KeepsFrame`: a function of level 0 that follows the calling convention.

## Main results

* `Core.Behind.foldl_push`, `Core.Behind.popfl`, `Core.Behind.popal`, `Core.Behind.call`: the words
  on the stack after pushes, pops and calls.
-/

namespace X86

open ByteMemory Transition

/-! ### The machine -/

/-- The machine with its segment registers and flags. -/
structure Core where
  /-- The general registers. -/
  regs : Reg → BitVec 32
  /-- The address of the next instruction. -/
  eip : BitVec 32
  /-- The code segment, with the privilege level in its lowest bits. -/
  cs : BitVec 16
  /-- The stack segment. -/
  ss : BitVec 16
  /-- The data segment. -/
  ds : BitVec 16
  /-- The flags. -/
  eflags : BitVec 32
  /-- Memory. -/
  mem : Mem Unit

/-- The privilege level that a selector names. -/
def rpl (selector : BitVec 16) : BitVec 2 := selector.setWidth 2

/-- A gate of the interrupt descriptor table. -/
structure Gate where
  /-- The address of the code. -/
  offset : BitVec 32
  /-- The code segment. -/
  selector : BitVec 16
  /-- The privilege level that the instruction `int` needs. -/
  dpl : BitVec 2
  /-- Whether the gate is present. -/
  present : Bool
  /-- Whether the gate is a trap gate, which leaves the interrupt flag alone. -/
  trap : Bool
deriving DecidableEq

/-- What the processor reads from its tables. -/
structure Tables where
  /-- The privilege level of the segment that a selector designates. -/
  segDpl : BitVec 16 → Option (BitVec 2)
  /-- The gate of a vector. -/
  gate : ℕ → Option Gate
  /-- The stack segment for level 0. -/
  ss0 : BitVec 16
  /-- The stack pointer for level 0. -/
  esp0 : BitVec 32

namespace Core

/-- The current privilege level. -/
def cpl (c : Core) : BitVec 2 := rpl c.cs

/-- The interrupt flag. -/
def interruptFlag (c : Core) : Bool := c.eflags.getLsbD 9

/-- A word pushed. -/
def push (c : Core) (v : BitVec 32) : Core :=
  let sp := c.regs .esp - 4#32
  { c with regs := Function.update c.regs .esp sp, mem := writeWord c.mem (addr sp) v }

/-- Word `k` of the stack. -/
def word (c : Core) (k : ℕ) : BitVec 32 :=
  readWord c.mem (addr (c.regs .esp + BitVec.ofNat 32 (4 * k)))

/-- The words on the stack begin with `ws`. -/
def Stack (c : Core) (ws : List (BitVec 32)) : Prop := Words c.mem (c.regs .esp) ws

/-- `iret` at level 0. On the way to another level, the stack of that level is popped too, and a
data segment that it may not use is dropped. -/
def iret (segDpl : BitVec 16 → Option (BitVec 2)) (c : Core) : Option Core :=
  let cs := (c.word 1).setWidth 16
  let c' := { c with eip := c.word 0, cs := cs, eflags := c.word 2 }
  if rpl cs = c.cpl then
    some { c' with regs := Function.update c.regs .esp (c.regs .esp + 12#32) }
  else if c.cpl < rpl cs then
    some
      { c' with
        regs := Function.update c.regs .esp (c.word 3)
        ss := (c.word 4).setWidth 16
        ds := if (segDpl c.ds).any (· < rpl cs) then 0#16 else c.ds }
  else none

end Core

/-! ### Entry through a gate -/

/-- The flags `TF`, `NT`, `RF` and `VM`. -/
def entryFlags : BitVec 32 := 0x00034100#32

/-- The flag `IF`. -/
def interruptBit : BitVec 32 := 0x00000200#32

/-- The flags behind a gate. -/
def Gate.flags (g : Gate) (eflags : BitVec 32) : BitVec 32 :=
  eflags &&& ~~~(if g.trap then entryFlags else entryFlags ||| interruptBit)

/-- The words that an entry pushes, in the order in which they are pushed. -/
def Core.entryWords (c : Core) (outer : Bool) : List (BitVec 32) :=
  (if outer then [c.ss.setWidth 32, c.regs .esp] else []) ++ [c.eflags, c.cs.setWidth 32, c.eip]

/-- The entry through a gate. A segment of a more privileged level gets the stack of the task state
segment. -/
def Tables.enter (t : Tables) (g : Gate) (c : Core) : Option Core := do
  let dpl ← t.segDpl g.selector
  let outer := decide (dpl < c.cpl)
  let c' : Core := if outer then
    { c with ss := t.ss0, regs := Function.update c.regs .esp t.esp0 } else c
  if c.cpl < dpl then none
  else
    some
      { (c.entryWords outer).foldl Core.push c' with
        eip := g.offset
        cs := g.selector.extractLsb' 2 14 ++ dpl
        eflags := g.flags c.eflags }

/-- The exceptions of an interrupt that is not delivered. -/
inductive Fault
  /-- General protection, vector 13. -/
  | generalProtection
  /-- Segment not present, vector 11. -/
  | segmentNotPresent
deriving DecidableEq

/-- The gate of a vector, for an interrupt of a device or, with `software`, for the instruction
`int`, which needs the privilege level of the gate. -/
def Tables.select (t : Tables) (software : Bool) (v : ℕ) (c : Core) : Except Fault Gate :=
  match t.gate v with
  | none => .error .generalProtection
  | some g =>
    if software ∧ g.dpl < c.cpl then .error .generalProtection
    else if ¬ g.present then .error .segmentNotPresent
    else .ok g

/-! ### Code that handles interrupts -/

/-- Instructions. `F` names the functions that are called. -/
inductive RingInstr (F : Type)
  /-- `pushal`. -/
  | pushal
  /-- `popal`. -/
  | popal
  /-- `pushfl`. -/
  | pushfl
  /-- `popfl`. -/
  | popfl
  /-- `pushl r`. -/
  | pushl (r : Reg)
  /-- `movw r, %ds`. -/
  | movwToDs (r : Reg)
  /-- `call f`. -/
  | call (f : F)
  /-- `iret`. -/
  | iret

/-- The registers in the order in which `pushal` pushes them. -/
def pushalOrder : List Reg := [.eax, .ecx, .edx, .ebx, .esp, .ebp, .esi, .edi]

/-- The flags that `pushfl` does not push: `RF` and `VM`. -/
def unpushedFlags : BitVec 32 := 0x00030000#32

/-- The flags that `popfl` loads at level 0. -/
def poppedFlags : BitVec 32 := 0x00247FD5#32

/-- The registers after `popal`, which skips the stack pointer. -/
def Core.popped (c : Core) : Reg → BitVec 32
  | .edi => c.word 0
  | .esi => c.word 1
  | .ebp => c.word 2
  | .esp => c.regs .esp + 32#32
  | .ebx => c.word 4
  | .edx => c.word 5
  | .ecx => c.word 6
  | .eax => c.word 7

/-- The effect of an instruction at level 0, with the address of the next one. A function that is
called comes back with the machine after its `ret`. -/
def RingInstr.exec {F : Type} (segDpl : BitVec 16 → Option (BitVec 2)) (impl : F → Core → Core)
    (next : BitVec 32) (c : Core) : RingInstr F → Option Core
  | pushal => some { (pushalOrder.map c.regs).foldl Core.push c with eip := next }
  | popal => some { c with eip := next, regs := c.popped }
  | pushfl => some { c.push (c.eflags &&& ~~~unpushedFlags) with eip := next }
  | popfl =>
    some
      { c with
        eip := next
        regs := Function.update c.regs .esp (c.regs .esp + 4#32)
        eflags := (c.word 0 &&& poppedFlags) ||| (c.eflags &&& ~~~poppedFlags) }
  | pushl r => some { c.push (c.regs r) with eip := next }
  | movwToDs r => some { c with eip := next, ds := (c.regs r).setWidth 16 }
  | call f => some (impl f (c.push next))
  | iret => c.iret segDpl

/-! ### The stack -/

/-- The `n` bytes below an address. -/
def below (a : BitVec 32) (n : ℕ) : Set (Ptr Unit) := (addr (a - BitVec.ofNat 32 n)).span n

theorem below_subset {a : BitVec 32} {k m n : ℕ} (h : k + m ≤ n) :
    below (a - BitVec.ofNat 32 k) m ⊆ below a n := by
  obtain ⟨d, rfl⟩ := Nat.exists_eq_add_of_le h
  have hoff : a - BitVec.ofNat 32 k - BitVec.ofNat 32 m =
      a - BitVec.ofNat 32 (k + m + d) + BitVec.ofNat 32 d := by
    rw [BitVec.ofNat_add, BitVec.ofNat_add]
    grind
  rw [below, hoff, addr_add]
  exact Ptr.span_shift_subset (by omega)

theorem below_mono {a : BitVec 32} {m n : ℕ} (h : m ≤ n) : below a m ⊆ below a n := by
  have hsub := below_subset (a := a) (k := 0) (m := m) (n := n) (by omega)
  rwa [BitVec.sub_zero] at hsub

/-- The words behind the first ones. -/
theorem Words.of_append {mem : Mem Unit} {a : BitVec 32} {ws ws' : List (BitVec 32)}
    (h : Words mem a (ws ++ ws')) : Words mem (a + BitVec.ofNat 32 (4 * ws.length)) ws' := by
  induction ws generalizing a with
  | nil => exact (BitVec.add_zero a).symm ▸ h
  | cons w ws ih =>
    have hnext := ih h.2
    rw [BitVec.add_assoc, ← BitVec.ofNat_add, Nat.add_comm 4, ← Nat.mul_succ] at hnext
    exact hnext

namespace Core

variable {c c₀ : Core} {v next : BitVec 32} {vs ws frame : List (BitVec 32)} {A : Set (Ptr Unit)}

/-- The machine without its segment registers. -/
def toMachine (c : Core) : Machine where
  regs := c.regs
  zf := c.eflags.getLsbD 6
  sf := c.eflags.getLsbD 7
  ovf := c.eflags.getLsbD 11
  mem := c.mem

theorem esp_push : (c.push v).regs .esp = c.regs .esp - 4#32 :=
  Machine.esp_push (m := c.toMachine) (v := v)

theorem regs_push {r : Reg} (hr : r ≠ .esp) : (c.push v).regs r = c.regs r :=
  Machine.regs_push (m := c.toMachine) (v := v) hr

theorem mem_push_eqOn : Set.EqOn (c.push v).mem c.mem (below (c.regs .esp) 4)ᶜ :=
  writeWord_eqOn ..

theorem Stack.push (h : c.Stack ws) (hlen : 4 * (ws.length + 1) ≤ 2 ^ 32) (v : BitVec 32) :
    (c.push v).Stack (v :: ws) :=
  Machine.Stack.push (m := c.toMachine) h hlen v

/-- The words on the stack, counted from its top. -/
theorem Stack.word {k : ℕ} (h : c.Stack ws) (hk : ws[k]? = some v) : c.word k = v := by
  have hwords (a : BitVec 32) (h : Words c.mem a ws) :
      readWord c.mem (addr (a + BitVec.ofNat 32 (4 * k))) = v := by
    clear * - hk h
    induction ws generalizing a k with
    | nil => cases hk
    | cons w ws ih =>
      cases k with
      | zero =>
        have hv : w = v := Option.some.inj hk
        rw [← hv, ← h.1]
        exact congrArg (fun a => readWord c.mem (addr a)) (BitVec.add_zero _)
      | succ k =>
        have hnext := ih hk (a + 4#32) h.2
        rw [BitVec.add_assoc, ← BitVec.ofNat_add, Nat.add_comm 4, ← Nat.mul_succ] at hnext
        exact hnext
  exact hwords _ h

/-! ### Code behind an entry -/

/-- Behind the entry in the state `c₀`, at level 0 and with interrupts disabled, the words `ws` have
been pushed, and the memory `A` is as it was. -/
structure Behind (c₀ : Core) (A : Set (Ptr Unit)) (frame ws : List (BitVec 32)) (c : Core) :
    Prop where
  esp : c.regs .esp = c₀.regs .esp - BitVec.ofNat 32 (4 * ws.length)
  stack : c.Stack (ws ++ frame)
  cs : c.cs = c₀.cs
  ss : c.ss = c₀.ss
  ds : c.ds = c₀.ds
  interruptFlag : c.interruptFlag = c₀.interruptFlag
  mem : Set.EqOn c.mem c₀.mem A

theorem Behind.entry (h : c₀.Stack frame) : Behind c₀ A frame [] c₀ where
  esp := (BitVec.sub_zero _).symm
  stack := h
  cs := rfl
  ss := rfl
  ds := rfl
  interruptFlag := rfl
  mem := Set.eqOn_refl ..

/-- One more word pushed, within the `n` bytes below the entry that are not of `A`. -/
theorem Behind.push {n : ℕ} (h : Behind c₀ A frame ws c) (hn : 4 * (ws.length + 1) ≤ n)
    (hA : Disjoint A (below (c₀.regs .esp) n)) (hlen : 4 * (ws.length + 1 + frame.length) ≤ 2 ^ 32)
    (v : BitVec 32) : Behind c₀ A frame (v :: ws) (c.push v) where
  esp := by
    rw [esp_push, h.esp, List.length_cons, Nat.mul_succ, BitVec.ofNat_add, BitVec.sub_sub]
  stack := h.stack.push (by rw [List.length_append]; omega) v
  cs := h.cs
  ss := h.ss
  ds := h.ds
  interruptFlag := h.interruptFlag
  mem := by
    refine (mem_push_eqOn.mono ?_).trans h.mem
    rw [h.esp]
    exact Set.subset_compl_iff_disjoint_right.mpr (hA.mono_right (below_subset (by omega)))

theorem Behind.foldl_push {n : ℕ} (h : Behind c₀ A frame ws c)
    (hn : 4 * (vs.length + ws.length) ≤ n) (hA : Disjoint A (below (c₀.regs .esp) n))
    (hlen : 4 * (vs.length + ws.length + frame.length) ≤ 2 ^ 32) :
    Behind c₀ A frame (vs.reverse ++ ws) (vs.foldl Core.push c) := by
  induction vs generalizing c ws with
  | nil => exact h
  | cons v vs ih =>
    rw [List.length_cons] at hn hlen
    rw [List.reverse_cons, List.append_assoc]
    refine ih (h.push (by omega) hA (by omega) v) ?_ ?_
    · show 4 * (vs.length + (ws.length + 1)) ≤ n
      omega
    · show 4 * (vs.length + (ws.length + 1) + frame.length) ≤ 2 ^ 32
      omega

theorem Behind.setEip (h : Behind c₀ A frame ws c) (a : BitVec 32) :
    Behind c₀ A frame ws { c with eip := a } :=
  ⟨h.esp, h.stack, h.cs, h.ss, h.ds, h.interruptFlag, h.mem⟩

/-- A word popped, whatever it is, with the flags changed and the interrupt flag as before. -/
theorem Behind.popfl (h : Behind c₀ A frame (v :: ws) c) {fl : BitVec 32}
    (hfl : fl.getLsbD 9 = c₀.interruptFlag) :
    Behind c₀ A frame ws
      { c with regs := Function.update c.regs .esp (c.regs .esp + 4#32), eflags := fl } where
  esp := by
    show Function.update c.regs .esp (c.regs .esp + 4#32) .esp = _
    rw [Function.update_self, h.esp, List.length_cons, Nat.mul_succ, BitVec.ofNat_add]
    grind
  stack := by
    show Words c.mem (Function.update c.regs .esp (c.regs .esp + 4#32) .esp) _
    rw [Function.update_self]
    exact h.stack.2
  cs := h.cs
  ss := h.ss
  ds := h.ds
  interruptFlag := hfl
  mem := h.mem

/-- `popal` restores what `pushal` has pushed. -/
theorem Behind.popal (h : Behind c₀ A frame (pushalOrder.map c₀.regs).reverse c) :
    Behind c₀ A frame [] { c with regs := c.popped } ∧ c.popped = c₀.regs := by
  have hesp : c.regs .esp + 32#32 = c₀.regs .esp := by
    rw [h.esp]
    exact BitVec.sub_add_cancel ..
  have hregs : c.popped = c₀.regs := by
    funext r
    cases r with
    | edi => exact h.stack.word rfl
    | esi => exact h.stack.word rfl
    | ebp => exact h.stack.word rfl
    | esp => exact hesp
    | ebx => exact h.stack.word rfl
    | edx => exact h.stack.word rfl
    | ecx => exact h.stack.word rfl
    | eax => exact h.stack.word rfl
  refine ⟨⟨?_, ?_, h.cs, h.ss, h.ds, h.interruptFlag, h.mem⟩, hregs⟩
  · exact (congrFun hregs .esp).trans (BitVec.sub_zero _).symm
  · exact h.stack.of_append

/-- A function of level 0 that follows the calling convention. Called with the stack pointer `sp`,
it returns to its caller, keeps the segments and the interrupt flag, and leaves the `n` bytes behind
the return address and the memory `A` alone. -/
structure KeepsFrame (n : ℕ) (sp : BitVec 32) (A : Set (Ptr Unit)) (f : Core → Core) : Prop where
  eip : ∀ c, c.regs .esp = sp → (f c).eip = c.word 0
  esp : ∀ c, c.regs .esp = sp → (f c).regs .esp = c.regs .esp + 4#32
  frame : ∀ c, c.regs .esp = sp → Set.EqOn (f c).mem c.mem ((addr (c.regs .esp + 4#32)).span n)
  mem : ∀ c, c.regs .esp = sp → Set.EqOn (f c).mem c.mem A
  cs : ∀ c, c.regs .esp = sp → (f c).cs = c.cs
  ss : ∀ c, c.regs .esp = sp → (f c).ss = c.ss
  ds : ∀ c, c.regs .esp = sp → (f c).ds = c.ds
  interruptFlag : ∀ c, c.regs .esp = sp → (f c).interruptFlag = c.interruptFlag

/-- A function called returns to the address that was pushed, and leaves the words on the stack
alone. -/
theorem Behind.call {n : ℕ} {sp : BitVec 32} {f : Core → Core}
    (h : Behind c₀ A frame (next :: ws) c) (hf : KeepsFrame n sp A f) (hsp : c.regs .esp = sp)
    (hn : 4 * (ws.length + frame.length) ≤ n) :
    Behind c₀ A frame ws (f c) ∧ (f c).eip = next := by
  refine ⟨⟨?_, ?_, (hf.cs c hsp).trans h.cs, (hf.ss c hsp).trans h.ss, (hf.ds c hsp).trans h.ds,
    (hf.interruptFlag c hsp).trans h.interruptFlag, (hf.mem c hsp).trans h.mem⟩,
    (hf.eip c hsp).trans (h.stack.word rfl)⟩
  · rw [hf.esp c hsp, h.esp, List.length_cons, Nat.mul_succ, BitVec.ofNat_add]
    grind
  · rw [Stack, hf.esp c hsp]
    refine Words.congr h.stack.2 ((hf.frame c hsp).mono (Ptr.span_mono ?_))
    rwa [List.length_append]

end Core

end X86
