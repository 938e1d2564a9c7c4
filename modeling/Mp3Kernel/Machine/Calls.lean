import Mp3Kernel.Machine.Interrupts

/-!
# System calls

A processor that runs a program, the code that the instruction `int` of the program enters, the
functions that this code calls, and interrupts between any two instructions. What a program should
see of it is one step for each call.

## Main definitions

* `Program`, `Kernel`, `Kernel.Step`: the program, the processor and its steps.
* `Program.Step`: the steps that the program sees.
* `Inside`: what code behind an entry has pushed on the stack of level 0.

## Main results

* `Inside.push`, `Inside.pop`, `Inside.function`: the stack after the instructions of the code.
* `Inside.interrupt`: an interrupt of the code comes back to it.
-/

namespace X86

open ByteMemory Transition

/-! ### The processor -/

/-- The flags `CF`, `PF`, `AF`, `ZF`, `SF` and `OF`. -/
def statusFlags : BitVec 32 := 0x000008D5#32

/-- An instruction leaves the machine `m`. The status flags that `m` does not have are not
determined. -/
structure Core.Becomes (c : Core) (m : Machine) (c' : Core) : Prop where
  machine : c'.toMachine = m
  cs : c'.cs = c.cs
  ss : c'.ss = c.ss
  ds : c'.ds = c.ds
  eflags : c'.eflags &&& ~~~statusFlags = c.eflags &&& ~~~statusFlags

variable {F H : Type}

/-- A program: its instructions but `int`, and the address behind an instruction `int` that is
next. -/
structure Program where
  /-- The instructions. -/
  step : Core → Core → Prop
  /-- The address behind `int`. -/
  int : Core → Option (BitVec 32)

/-- A processor with the code behind the gate of `int` and the functions that it calls. -/
structure Kernel (F H : Type) extends System F where
  /-- The code. -/
  code : Code H
  /-- The functions, from the entry to the return. -/
  functions : H → Core → Core → Prop
  /-- The vector. -/
  vector : ℕ

/-- What happens next. -/
inductive CallAction (H : Type)
  /-- An instruction of the program. -/
  | program
  /-- The instruction `int`, with the value of `eax`. -/
  | int (eax : BitVec 32)
  /-- An instruction of level 0. -/
  | kernel
  /-- A function. -/
  | function (h : H)
  /-- An interrupt of a device. -/
  | interrupt (v : ℕ)

namespace Kernel

variable (K : Kernel F H)

/-- An instruction of the code. -/
def codeStep (c : Core) : Option (Entry H × Config H) :=
  K.code.step (fun _ _ => none) (.loc c.eip, c.toMachine)

/-- The code calls a function, which is entered in the state `c₁`. -/
def Enters (c : Core) (h : H) (c₁ : Core) : Prop :=
  ∃ m, K.codeStep c = some (some (h, m), .inside h, m) ∧ c.Becomes m c₁

/-- The steps: instructions of the program at another level than 0, the instruction `int`,
instructions of level 0, functions that return, and between any two instructions an interrupt of the
vectors `V`. -/
inductive Step (P : Program) (V : Set ℕ) : Core → CallAction H → Core → Prop
  | program {c c' : Core} : c.cpl ≠ 0 → P.step c c' → Step P V c .program c'
  | int {c c' : Core} {next : BitVec 32} {g : Gate} : c.cpl ≠ 0 → P.int c = some next →
      K.tables.select true K.vector c = .ok g →
        K.tables.enter g { c with eip := next } = some c' → Step P V c (.int (c.regs .eax)) c'
  | wrapper {c c' : Core} : c.cpl = 0 → K.kernelStep c = some c' → Step P V c .kernel c'
  | code {c c' : Core} {a : BitVec 32} {m : Machine} : c.cpl = 0 →
      K.codeStep c = some (none, .loc a, m) → c.Becomes m c' → c'.eip = a →
        Step P V c .kernel c'
  | iret {c c' : Core} {i : ℕ} : c.cpl = 0 → c.eip = K.code.loc i →
      K.code.listing[i]? = some .iret → c.iret K.tables.segDpl = some c' → Step P V c .kernel c'
  | function {c c₁ c' : Core} {h : H} : c.cpl = 0 → K.Enters c h c₁ → K.functions h c₁ c' →
      Step P V c (.function h) c'
  | interrupt {c c' : Core} {v : ℕ} {g : Gate} : c.interruptFlag = true → v ∈ V →
      K.tables.select false v c = .ok g → K.tables.enter g c = some c' →
        Step P V c (.interrupt v) c'

variable {K}

/-- The step at an address of the code. -/
theorem codeStep_loc {c : Core} {i : ℕ} (hi : i < K.code.listing.length)
    (heip : c.eip = K.code.loc i) :
    K.codeStep c = K.code.listing[i].exec K.code.loc i c.toMachine := by
  rw [codeStep, heip]
  exact Code.step_loc hi

/-- The code has instructions only at its addresses. -/
theorem exists_loc {c : Core} {r : Entry H × Config H} (h : K.codeStep c = some r) :
    ∃ i < K.code.listing.length, c.eip = K.code.loc i := by
  obtain ⟨i, hi, -⟩ := Option.bind_eq_some_iff.mp h
  obtain ⟨hloc, hmem, -⟩ := List.find?_range_eq_some.mp hi
  exact ⟨i, List.mem_range.mp hmem, (of_decide_eq_true hloc).symm⟩

/-- A handler that comes back is a run of the processor. -/
theorem exists_run_of_returns {P : Program} {V : Set ℕ} {Q : Core → Prop} {c : Core}
    (h : Returns K.kernelStep System.Masked Q c) :
    ∃ n c', Run (K.Step P V) c (List.replicate n .kernel) c' ∧ Q c' := by
  induction h with
  | back hQ => exact ⟨0, _, .nil _, hQ⟩
  | step hmasked hkernel _ ih =>
    obtain ⟨n, c', hrun, hQ⟩ := ih
    exact ⟨n + 1, c', .cons (.wrapper hmasked.1 hkernel) hrun, hQ⟩

end Kernel

/-- Some state is left with the machine `m`. -/
theorem Core.exists_becomes (c : Core) (m : Machine) (a : BitVec 32) :
    ∃ c', c.Becomes m c' ∧ c'.eip = a := by
  set bits : BitVec 32 := (if m.zf then 0x40#32 else 0#32) ||| (if m.sf then 0x80#32 else 0#32) |||
    (if m.ovf then 0x800#32 else 0#32) with hbits
  set fl := (c.eflags &&& ~~~statusFlags) ||| bits with hfl
  have hothers : fl &&& ~~~statusFlags = c.eflags &&& ~~~statusFlags := by
    have hmask : bits &&& ~~~statusFlags = 0#32 := by
      rw [hbits]
      cases m.zf <;> cases m.sf <;> cases m.ovf <;> rfl
    rw [hfl, BitVec.and_or_distrib_right, BitVec.and_assoc, BitVec.and_self, hmask, BitVec.or_zero]
  have hbit (i : ℕ) (hi : (~~~statusFlags).getLsbD i = false) : fl.getLsbD i = bits.getLsbD i := by
    rw [hfl, BitVec.getLsbD_or, BitVec.getLsbD_and, hi, Bool.and_false, Bool.false_or]
  have hbits' : bits.getLsbD 6 = m.zf ∧ bits.getLsbD 7 = m.sf ∧ bits.getLsbD 11 = m.ovf := by
    rw [hbits]
    cases m.zf <;> cases m.sf <;> cases m.ovf <;> exact ⟨rfl, rfl, rfl⟩
  refine ⟨⟨m.regs, a, c.cs, c.ss, c.ds, fl, m.mem⟩, ⟨?_, rfl, rfl, rfl, hothers⟩, rfl⟩
  rw [Core.toMachine, hbit 6 rfl, hbit 7 rfl, hbit 11 rfl, hbits'.1, hbits'.2.1, hbits'.2.2]

/-! ### What the program sees -/

/-- What a program does. -/
inductive CallEvent (H : Type)
  /-- An instruction. -/
  | program
  /-- A call without a function. -/
  | refused
  /-- A call of a function. -/
  | served (h : H)

/-- The state behind a call, with its result. -/
def Core.called (c : Core) (next result : BitVec 32) : Core :=
  { c with eip := next, regs := Function.update c.regs .eax result }

@[simp] theorem Core.regs_called_self (c : Core) (next result : BitVec 32) :
    (c.called next result).regs .eax = result := by
  simp only [called, Function.update_self]

theorem Core.regs_called (c : Core) (next result : BitVec 32) {r : Reg} (hr : r ≠ .eax) :
    (c.called next result).regs r = c.regs r := by
  simp only [called, Function.update_of_ne hr]

/-- The steps that a program sees. A call runs the function that `dispatch` has for `eax`, with the
arguments `ebx`, `ecx` and `edx` and the memory `A` of the program, and comes back with the result
in `eax` and the memory that the function leaves. Without a function the result is `-1`. -/
inductive Program.Step (P : Program) (dispatch : BitVec 32 → Option H)
    (functions : H → Core → Core → Prop) (A : Set (Ptr Unit)) : Core → CallEvent H → Core → Prop
  | program {c c' : Core} : P.step c c' → Step P dispatch functions A c .program c'
  | refused {c : Core} {next : BitVec 32} : P.int c = some next → dispatch (c.regs .eax) = none →
      Step P dispatch functions A c .refused (c.called next (-1#32))
  | served {c c₁ c₂ : Core} {next : BitVec 32} {h : H} : P.int c = some next →
      dispatch (c.regs .eax) = some h → c₁.toMachine.arg 0 = c.regs .ebx →
        c₁.toMachine.arg 1 = c.regs .ecx → c₁.toMachine.arg 2 = c.regs .edx →
          Set.EqOn c₁.mem c.mem A → functions h c₁ c₂ →
            Step P dispatch functions A c (.served h)
              { c.called next (c₂.regs .eax) with mem := c₂.mem }

/-- What a program sees of an action. A call without a function is refused when it is made, and
another one is served when its function returns. -/
def CallAction.own (dispatch : BitVec 32 → Option H) : CallAction H → Option (CallEvent H)
  | program => some .program
  | int eax => if (dispatch eax).isNone then some .refused else none
  | kernel => none
  | function h => some (.served h)
  | interrupt _ => none

/-- A step that the program sees, or none. -/
def Program.Advances (P : Program) (dispatch : BitVec 32 → Option H)
    (functions : H → Core → Core → Prop) (A : Set (Ptr Unit)) (c : Core) :
    Option (CallEvent H) → Core → Prop
  | some b, c' => P.Step dispatch functions A c b c'
  | none, c' => c' = c

/-- The program only sees the registers and the memory `A`, and keeps the segments. -/
structure Program.Confined (P : Program) (A : Set (Ptr Unit)) : Prop where
  step : System.Confined P.step A
  int : ∀ c d, SameView A c d → P.int d = P.int c

/-! ### Code behind an entry -/

/-- At level 0, behind the entry from the state `e` to the stack `top`, the words `ws` have been
pushed, and the memory `A` is that of `e`. -/
structure Inside (top : BitVec 32) (A : Set (Ptr Unit)) (e : Core) (ws : List (BitVec 32))
    (d : Core) : Prop where
  cpl : d.cpl = 0
  ds : d.ds = e.ds
  esp : d.regs .esp = top - BitVec.ofNat 32 (4 * (ws ++ System.entryFrame e).length)
  stack : d.Stack (ws ++ System.entryFrame e)
  mem : Set.EqOn d.mem e.mem A

/-- A function that is called returns to the address on the stack, keeps the segments and `ebp`, and
leaves the `n` bytes behind the return address alone. -/
structure Core.ReturnsTo (n : ℕ) (f : Core → Core → Prop) : Prop where
  eip : ∀ c c', f c c' → c'.eip = c.word 0
  esp : ∀ c c', f c c' → c'.regs .esp = c.regs .esp + 4#32
  ebp : ∀ c c', f c c' → c'.regs .ebp = c.regs .ebp
  cs : ∀ c c', f c c' → c'.cs = c.cs
  ds : ∀ c c', f c c' → c'.ds = c.ds
  frame : ∀ c c', f c c' → Set.EqOn c'.mem c.mem ((addr (c.regs .esp + 4#32)).span n)

/-- The gate of an interrupt enters the wrapper of a function that leaves alone the memory `A` and,
up to a depth of `n` words behind an entry, the stack of level 0. -/
structure System.Serves (S : System F) (A : Set (Ptr Unit)) (n : ℕ) (g : Gate) : Prop where
  level : S.tables.segDpl g.selector = some 0
  trap : g.trap = false
  code : ∃ f, S.Placed g.offset (wrapper f) ∧ ∀ k ≤ n,
    Core.KeepsFrame (56 + 4 * k) (S.tables.esp0 - BitVec.ofNat 32 (60 + 4 * k)) A (S.impl f)

/-- An interrupt of another level than 0 is one at depth zero. -/
theorem System.Serves.handles {S : System F} {A : Set (Ptr Unit)} {n : ℕ} {g : Gate}
    (h : S.Serves A n g) : S.Handles A (S.tables.esp0 - 60#32) g := by
  obtain ⟨f, hcode, hf⟩ := h.code
  exact ⟨h.level, h.trap, f, hcode, hf 0 (Nat.zero_le n)⟩

/-- Less of the stack and of the memory. -/
theorem Core.KeepsFrame.mono {m n : ℕ} {sp : BitVec 32} {A B : Set (Ptr Unit)} {f : Core → Core}
    (h : Core.KeepsFrame n sp A f) (hmn : m ≤ n) (hB : B ⊆ A ∪ (addr (sp + 4#32)).span n) :
    Core.KeepsFrame m sp B f where
  eip := h.eip
  esp := h.esp
  frame c hc := (h.frame c hc).mono (Ptr.span_mono hmn)
  mem c hc := by
    have hframe := h.frame c hc
    rw [hc] at hframe
    exact ((h.mem c hc).union hframe).mono hB
  cs := h.cs
  ss := h.ss
  ds := h.ds
  interruptFlag := h.interruptFlag

namespace Inside

variable {top a v : BitVec 32} {A : Set (Ptr Unit)} {e e' d d' : Core} {m : Machine}
  {ws : List (BitVec 32)} {n : ℕ}

theorem of_entered {t : Tables} {g : Gate} (h : System.Entered t A g e d) (he : e.cpl ≠ 0) :
    Inside t.esp0 A e [] d := by
  have hesp := System.esp_onStack t ((BitVec.pos_iff_ne_zero _).mpr he)
  exact ⟨h.cpl, h.ds, hesp ▸ h.esp, h.stack, h.mem⟩

/-- The state before the entry may change in what is not pushed. -/
theorem of_frame (h : Inside top A e ws d) (hframe : System.entryFrame e' = System.entryFrame e)
    (hds : e'.ds = e.ds) (hmem : Set.EqOn d.mem e'.mem A) : Inside top A e' ws d :=
  ⟨h.cpl, h.ds.trans hds.symm, hframe ▸ h.esp, hframe ▸ h.stack, hmem⟩

/-- The memory of the program and the words on the stack. -/
def region (A : Set (Ptr Unit)) (d : Core) (ws : List (BitVec 32)) (e : Core) : Set (Ptr Unit) :=
  A ∪ (addr (d.regs .esp)).span (4 * (ws ++ System.entryFrame e).length)

theorem congr (h : Inside top A e ws d) (hview : SameView (region A d ws e) d d') :
    Inside top A e ws d' where
  cpl := (congrArg rpl hview.cs).trans h.cpl
  ds := hview.ds.trans h.ds
  esp := (congrFun hview.regs .esp).trans h.esp
  stack := by
    rw [Core.Stack, hview.regs]
    exact Words.congr h.stack (hview.mem.mono Set.subset_union_right)
  mem := (hview.mem.mono Set.subset_union_left).trans h.mem

/-- An instruction that leaves the stack alone. -/
theorem keep (h : Inside top A e ws d) (hm : d.Becomes m d') (hesp : m.regs .esp = d.regs .esp)
    (hmem : m.mem = d.mem) : Inside top A e ws d' := by
  have hregs : d'.regs = m.regs := congrArg Machine.regs hm.machine
  have hmem' : d'.mem = d.mem := (congrArg Machine.mem hm.machine).trans hmem
  refine ⟨(congrArg rpl hm.cs).trans h.cpl, hm.ds.trans h.ds, ?_, ?_, hmem' ▸ h.mem⟩
  · rw [hregs, hesp, h.esp]
  · rw [Core.Stack, hregs, hesp, hmem']
    exact h.stack

theorem push (h : Inside top A e ws d) (hm : d.Becomes (d.toMachine.push v) d')
    (hA : Disjoint A (below top n)) (hn : 4 * (v :: ws ++ System.entryFrame e).length ≤ n)
    (hlt : n ≤ 2 ^ 32) : Inside top A e (v :: ws) d' := by
  have hregs : d'.regs = (d.toMachine.push v).regs := congrArg Machine.regs hm.machine
  have hmem : d'.mem = (d.toMachine.push v).mem := congrArg Machine.mem hm.machine
  have hlen : (v :: ws ++ System.entryFrame e).length = (ws ++ System.entryFrame e).length + 1 :=
    List.length_cons
  rw [hlen] at hn
  refine ⟨(congrArg rpl hm.cs).trans h.cpl, hm.ds.trans h.ds, ?_, ?_, ?_⟩
  · rw [hregs, Machine.esp_push, hlen, Nat.mul_succ, BitVec.ofNat_add, ← BitVec.sub_sub, ← h.esp]
    rfl
  · rw [Core.Stack, hregs, hmem]
    exact Machine.Stack.push (m := d.toMachine) h.stack (Nat.le_trans hn hlt) v
  · have hbelow : below (d.regs .esp) 4 ⊆ below top n := by
      rw [h.esp]
      exact below_subset hn
    rw [hmem]
    exact (Core.mem_push_eqOn.mono
      (Set.subset_compl_iff_disjoint_right.mpr (hA.mono_right hbelow))).trans h.mem

/-- A word popped. Into the stack pointer it must be the address behind it. -/
theorem pop {r : Reg} (h : Inside top A e (v :: ws) d) (hm : d.Becomes (d.toMachine.pop r) d')
    (hr : r = .esp → v = d.regs .esp + 4#32) :
    Inside top A e ws d' ∧ (r ≠ .esp → d'.regs r = v) ∧
      ∀ r', r' ≠ r → r' ≠ .esp → d'.regs r' = d.regs r' := by
  have hregs : d'.regs = (d.toMachine.pop r).regs := congrArg Machine.regs hm.machine
  have hmem : d'.mem = d.mem := congrArg Machine.mem hm.machine
  have htop : d.toMachine.top = v := h.stack.1
  have hesp : d'.regs .esp = d.regs .esp + 4#32 := by
    rw [hregs]
    by_cases hesp : r = .esp
    · rw [hesp, Machine.regs_pop_self, htop]
      exact hr hesp
    · exact Machine.esp_pop hesp
  refine ⟨⟨(congrArg rpl hm.cs).trans h.cpl, hm.ds.trans h.ds, ?_, ?_, hmem ▸ h.mem⟩, ?_, ?_⟩
  · rw [hesp, h.esp, List.cons_append, List.length_cons, Nat.mul_succ, BitVec.ofNat_add]
    grind
  · rw [Core.Stack, hesp, hmem]
    exact h.stack.2
  · intro _
    rw [hregs, Machine.regs_pop_self, htop]
  · intro r' hr' hesp'
    rw [hregs, Machine.regs_pop hr' hesp']
    rfl

/-- A function called returns to the address that was pushed. -/
theorem function {f : Core → Core → Prop} (h : Inside top A e (a :: ws) d)
    (hf : Core.ReturnsTo n f) (hd : f d d') (hn : 4 * (ws ++ System.entryFrame e).length ≤ n) :
    Inside top A { e with mem := d'.mem } ws d' ∧ d'.eip = a := by
  have hesp := hf.esp d d' hd
  refine ⟨⟨(congrArg rpl (hf.cs d d' hd)).trans h.cpl, (hf.ds d d' hd).trans h.ds, ?_, ?_,
    Set.eqOn_refl ..⟩, (hf.eip d d' hd).trans (Core.Stack.word h.stack rfl)⟩
  · rw [hesp, h.esp, List.cons_append, List.length_cons, Nat.mul_succ, BitVec.ofNat_add]
    show _ = top - BitVec.ofNat 32 (4 * (ws ++ System.entryFrame e).length)
    grind
  · rw [Core.Stack, hesp]
    exact Words.congr h.stack.2 ((hf.frame d d' hd).mono (Ptr.span_mono hn))

/-- **An interrupt of the code** comes back to it. -/
theorem interrupt {S : System F} {g : Gate} (h : Inside S.tables.esp0 A e ws d)
    (he : 2 ≤ (ws ++ System.entryFrame e).length) (hg : S.Serves A n g)
    (hn : (ws ++ System.entryFrame e).length ≤ n + 2)
    (hA : Disjoint A (below S.tables.esp0 (60 + 4 * n))) (hlt : 60 + 4 * n ≤ 2 ^ 32) :
    ∃ c₀, S.tables.enter g d = some c₀ ∧
      Returns S.kernelStep System.Masked (SameView (region A d ws e) d) c₀ := by
  obtain ⟨f, hcode, hf⟩ := hg.code
  obtain ⟨k, hk⟩ : ∃ k, (ws ++ System.entryFrame e).length = k + 2 :=
    ⟨(ws ++ System.entryFrame e).length - 2, by omega⟩
  have hesp : d.regs .esp = S.tables.esp0 - BitVec.ofNat 32 (4 * (k + 2)) := hk ▸ h.esp
  have hregion : region A d ws e = A ∪ (addr (d.regs .esp)).span (4 * (k + 2)) := by
    rw [region, hk]
  obtain ⟨hpushed, hcall⟩ := System.stack_of_zero S.tables h.cpl
  have hbytes : below (d.regs .esp) 52 ⊆ below S.tables.esp0 (60 + 4 * n) := by
    rw [hesp]
    exact below_subset (by omega)
  have hstack : Disjoint ((addr (d.regs .esp)).span (4 * (k + 2))) (below (d.regs .esp) 52) := by
    have hd := Ptr.disjoint_span_shift (p := addr (d.regs .esp - 52#32)) (i := 0) (j := 52)
      (n := 52) (k := 4 * (k + 2)) (by omega) (by omega)
    rw [Ptr.shift_zero, ← addr_add, BitVec.sub_add_cancel] at hd
    exact hd.symm
  have hsp : d.regs .esp - 52#32 = S.tables.esp0 - BitVec.ofNat 32 (60 + 4 * k) := by
    rw [hesp, BitVec.sub_sub, ← BitVec.ofNat_add]
    exact congrArg (S.tables.esp0 - BitVec.ofNat 32 ·) (by omega)
  have hback : (addr (d.regs .esp)).span (4 * (k + 2)) ⊆
      (addr (d.regs .esp - 52#32 + 4#32)).span (56 + 4 * k) := by
    have hshift : d.regs .esp = d.regs .esp - 52#32 + 4#32 + BitVec.ofNat 32 48 := by
      bv_omega
    rw [hshift, addr_add, ← hshift]
    exact Ptr.span_shift_subset (by omega)
  refine System.returns_interrupt (S := S) (System.dataOk_of_zero S.tables h.cpl) ?_
    ⟨hg.level, hg.trap, f, hcode, ?_⟩
  · rw [hpushed, hregion]
    exact Set.disjoint_union_left.mpr ⟨hA.mono_right hbytes, hstack⟩
  · rw [hcall, hregion, hsp]
    rw [hsp] at hback
    exact (hf k (by omega)).mono (by omega) (Set.union_subset_union_right A hback)

end Inside

end X86
