import Mp3Kernel.Boot.Idt
import Mp3Kernel.Machine.Interrupts
import Mp3Kernel.Process.Program

/-!
# Interrupts of the keyboard and of the clock

The two wrappers, entered through the gates of `idt_init`, and the switch to user mode at the end of
`execute`. The functions that the wrappers call are parameters: they follow the calling convention
and leave the interrupted program's memory alone.

## Main definitions

* `keyboardIrqWrap`, `rtcIrqWrap`, `toUser`: the listings.
* `irqSystem`, `Linked`: the processor with the tables of the kernel, and the code at its addresses.

## Main results

* `irq_returns`: an interrupt of either device comes back, from user mode and from the kernel.
* `toUser_enters`: `execute` enters the program in user mode.

Source: `Keyboard_Interrupt_wrapper.S`; `idt.c`, lines 186–248; `process.c`, lines 152–213.
-/

namespace Mp3Kernel

open ByteMemory X86 Transition

/-- The functions that the wrappers call. -/
inductive IrqHandler
  /-- `handle_keyboard_irq`. -/
  | handleKeyboardIrq
  /-- `rtc_interrupt_handler`. -/
  | rtcInterruptHandler

/-- The instructions of `keyboard_irq_wrap`. -/
def keyboardIrqWrap : List (RingInstr IrqHandler) :=
  [.pushal, .pushfl, .call .handleKeyboardIrq, .popfl, .popal, .iret]

/-- The instructions of `rtc_irq_wrap`. -/
def rtcIrqWrap : List (RingInstr IrqHandler) :=
  [.pushal, .pushfl, .call .rtcInterruptHandler, .popfl, .popal, .iret]

/-- The instructions at the end of `execute`. -/
def toUser : List (RingInstr IrqHandler) :=
  [.movwToDs .eax, .pushl .eax, .pushl .ebx, .pushfl, .pushl .ecx, .pushl .edx, .iret]

/-- Where the kernel is linked: its tables, and the addresses and instructions of its code. -/
structure Link where
  /-- The addresses of the code that the gates lead to. -/
  address : Entry → BitVec 32
  /-- `idt`, before `idt_init`. -/
  idt : Idt
  /-- The descriptor of the task state segment. -/
  tss : SegDesc
  /-- The descriptor of the local table. -/
  ldt : SegDesc
  /-- The instruction at an address, and the address of the next one. -/
  fetch : BitVec 32 → Option (RingInstr IrqHandler × BitVec 32)
  /-- The functions that the wrappers call. -/
  impl : IrqHandler → Core → Core

/-- The processor, with the stack of level 0. -/
def irqSystem (l : Link) (ss0 : BitVec 16) (esp0 : BitVec 32) : System IrqHandler where
  tables := tables l.address l.idt l.tss l.ldt ss0 esp0
  fetch := l.fetch
  impl := l.impl

/-- The vectors of the keyboard and of the clock. -/
def irqVectors : Set ℕ := {itrKeyboard, itrRtc}

/-- The wrappers stand at their addresses, and the functions that they call with the stack pointer
`sp` follow the calling convention and leave the memory `A` alone. -/
structure Linked (l : Link) (S : System IrqHandler) (sp : BitVec 32) (A : Set (Ptr Unit)) :
    Prop where
  keyboard : S.Placed (l.address .keyboardIrqWrap) keyboardIrqWrap
  rtc : S.Placed (l.address .rtcIrqWrap) rtcIrqWrap
  keepsFrame : ∀ h, Core.KeepsFrame 56 sp A (l.impl h)

/-! ### A sample link -/

/-- A function that returns zero, with the other registers of the caller and the flag `ZF` lost. -/
def sampleFunction (c : Core) : Core :=
  { c with
    eip := c.word 0
    eflags := c.eflags ^^^ 0x40#32
    regs := fun r => match r with
      | .eax | .ecx | .edx => 0#32
      | .esp => c.regs .esp + 4#32
      | r => c.regs r }

theorem keepsFrame_sampleFunction (n : ℕ) (sp : BitVec 32) (A : Set (Ptr Unit)) :
    Core.KeepsFrame n sp A sampleFunction where
  eip _ _ := rfl
  esp _ _ := rfl
  frame _ _ := Set.eqOn_refl ..
  mem _ _ := Set.eqOn_refl ..
  cs _ _ := rfl
  ss _ _ := rfl
  ds _ _ := rfl
  interruptFlag c _ := by
    show (c.eflags ^^^ 0x40#32).getLsbD 9 = c.eflags.getLsbD 9
    rw [BitVec.getLsbD_xor]
    exact Bool.xor_false _

/-- The wrappers and the end of `execute`, one instruction a byte from `0x400100` on. -/
def sampleLink : Link where
  address
    | .keyboardIrqWrap => 0x400100#32
    | .rtcIrqWrap => 0x400106#32
    | .systemcall => 0x400000#32
    | .exception v => 0x400300#32 + BitVec.ofNat 32 v
  idt _ := ⟨0, 0, 0, 0, 0, 0, 0, 0, 0, 0, 0⟩
  tss := ⟨0, 0, 0, 0, 0, 0, 0, 0, 0, 0, 0, 0, 0⟩
  ldt := ⟨0, 0, 0, 0, 0, 0, 0, 0, 0, 0, 0, 0, 0⟩
  fetch a := (keyboardIrqWrap ++ rtcIrqWrap ++ toUser)[(a - 0x400100#32).toNat]?.map (·, a + 1#32)
  impl _ := sampleFunction

theorem linked_sampleLink (ss0 : BitVec 16) (esp0 sp : BitVec 32) (A : Set (Ptr Unit)) :
    Linked sampleLink (irqSystem sampleLink ss0 esp0) sp A where
  keyboard := ⟨_, rfl, _, rfl, _, rfl, _, rfl, _, rfl, _, rfl, trivial⟩
  rtc := ⟨_, rfl, _, rfl, _, rfl, _, rfl, _, rfl, _, rfl, trivial⟩
  keepsFrame _ := keepsFrame_sampleFunction ..

/-- A processor in the segments `cs` and `ds`, with interrupts enabled. -/
def sampleCore (cs ds : BitVec 16) (eip esp : BitVec 32) : Core where
  regs := Function.update (fun _ => 0#32) .esp esp
  eip := eip
  cs := cs
  ss := ds
  ds := ds
  eflags := 0x202#32
  mem _ := 0

/-! ### The wrappers -/

section

variable {l : Link} {ss0 : BitVec 16} {esp0 sp : BitVec 32} {A : Set (Ptr Unit)} {v : ℕ}

theorem segDpl_of_flat (l : Link) (ss0 : BitVec 16) (esp0 : BitVec 32) {selector : BitVec 16}
    (h : selector ∈ flatSelectors) :
    (irqSystem l ss0 esp0).tables.segDpl selector = some (rpl selector) := by
  obtain ⟨type, hsegment⟩ := segment?_of_flat l.tss l.ldt h
  exact congrArg (Option.map Segment.dpl) hsegment

theorem handles_of_entry {e : Entry} {h : IrqHandler} (hv : v < idtSize) (he : entryOf v = some e)
    (htrap : (gateOf l.address e).trap = false)
    (hcode : (irqSystem l ss0 esp0).Placed (l.address e) (wrapper h))
    (hf : Core.KeepsFrame 56 sp A (l.impl h)) :
    ∃ g, (∀ c, (irqSystem l ss0 esp0).tables.select false v c = .ok g) ∧
      (irqSystem l ss0 esp0).Handles A sp g :=
  ⟨gateOf l.address e,
    fun c => select_of_some l.address l.idt l.tss l.ldt ss0 esp0 he hv false c,
    segDpl_of_flat l ss0 esp0 (List.mem_cons_self ..), htrap, h, hcode, hf⟩

/-- The gates of the two vectors. -/
theorem handles (hl : Linked l (irqSystem l ss0 esp0) sp A) (hv : v ∈ irqVectors) :
    ∃ g, (∀ c, (irqSystem l ss0 esp0).tables.select false v c = .ok g) ∧
      (irqSystem l ss0 esp0).Handles A sp g := by
  rcases hv with rfl | rfl
  · exact handles_of_entry (Nat.le_of_ble_eq_true rfl) rfl rfl hl.keyboard
      (hl.keepsFrame .handleKeyboardIrq)
  · exact handles_of_entry (Nat.le_of_ble_eq_true rfl) rfl rfl hl.rtc
      (hl.keepsFrame .rtcInterruptHandler)

/-- **An interrupt comes back.** Whatever runs, in user mode or in the kernel, the processor enters
the wrapper with interrupts disabled and comes back to the same registers, flags and segments, and
to the same memory but for what the functions change and what is below the stack pointer. -/
theorem irq_returns {c : Core} (hv : v ∈ irqVectors)
    (hl : Linked l (irqSystem l ss0 esp0) (System.callStack (irqSystem l ss0 esp0).tables c) A)
    (hdata : System.DataOk (irqSystem l ss0 esp0).tables c)
    (hA : Disjoint A (System.pushed (irqSystem l ss0 esp0).tables c)) :
    ∃ g c₀, (irqSystem l ss0 esp0).tables.select false v c = .ok g ∧
      (irqSystem l ss0 esp0).tables.enter g c = some c₀ ∧
        Returns (irqSystem l ss0 esp0).kernelStep System.Masked (SameView A c) c₀ := by
  obtain ⟨g, hselect, hg⟩ := handles hl hv
  obtain ⟨c₀, henter, hback⟩ := System.returns_interrupt (S := irqSystem l ss0 esp0) hdata hA hg
  exact ⟨g, c₀, hselect c, henter, hback⟩

end

/-- An interrupt of the clock in the kernel, which leaves the word at `0x500000` alone. -/
theorem irq_returns_in_kernel :
    ∃ g c₀, (irqSystem sampleLink 0x18#16 0x800000#32).tables.select false itrRtc
        (sampleCore kernelCS 0x18#16 0x400400#32 0x7FFF00#32) = .ok g ∧
      (irqSystem sampleLink 0x18#16 0x800000#32).tables.enter g
        (sampleCore kernelCS 0x18#16 0x400400#32 0x7FFF00#32) = some c₀ ∧
      Returns (irqSystem sampleLink 0x18#16 0x800000#32).kernelStep System.Masked
        (SameView ((addr 0x500000#32).span 4)
          (sampleCore kernelCS 0x18#16 0x400400#32 0x7FFF00#32)) c₀ := by
  refine irq_returns (.inr rfl) (linked_sampleLink ..) rfl ?_
  exact Ptr.disjoint_span_shift (p := addr 0x500000#32) (i := 0) (j := 0x2FFECC) (n := 4) (k := 52)
    (by decide) (by decide)

/-! ### User programs -/

/-- The user page. -/
def userPage : Set (Ptr Unit) := (addr userMem).span 0x400000

/-- The registers of a user program. -/
structure InUserMode (c : Core) : Prop where
  cs : c.cs = userCS
  ds : c.ds = userDS

theorem userDS_mem : userDS ∈ flatSelectors := List.mem_of_getElem? (i := 3) rfl

theorem InUserMode.cpl {c : Core} (h : InUserMode c) : c.cpl = 3 :=
  congrArg rpl h.cs

theorem InUserMode.dataOk {c : Core} (h : InUserMode c) (l : Link) (ss0 : BitVec 16)
    (esp0 : BitVec 32) : System.DataOk (irqSystem l ss0 esp0).tables c := by
  have hdpl : (irqSystem l ss0 esp0).tables.segDpl userDS = some 3 :=
    segDpl_of_flat l ss0 esp0 userDS_mem
  rw [System.DataOk, h.ds, hdpl, h.cpl]
  rfl

/-- The stack of level 0 of a live process is not in the user page. -/
theorem disjoint_userPage {ptAddr : BitVec 32} {t : ProcTable} {n : ℕ} (h : t.Chain ptAddr n) :
    Disjoint userPage (below t.tssEsp0 100) := by
  have hn : n < 6 := h.lt
  have hpcb := toNat_pcbAddr h.lt
  have hsp : (t.tssEsp0 - 100#32).toNat = 0x7FFF98 - 0x2000 * n := by
    rw [h.tss, kernelStackSize]
    bv_omega
  have hsum : t.tssEsp0 - 100#32 + BitVec.ofNat 32 (0x8000000 - (t.tssEsp0 - 100#32).toNat) =
      userMem := by
    refine BitVec.eq_of_toNat_eq ?_
    rw [BitVec.toNat_add, BitVec.toNat_ofNat, hsp]
    show _ = 0x8000000
    omega
  have huser : addr userMem = (addr (t.tssEsp0 - 100#32)).shift
      (0x8000000 - (t.tssEsp0 - 100#32).toNat) := (congrArg addr hsum).symm
  have hd := Ptr.disjoint_span_shift (p := addr (t.tssEsp0 - 100#32)) (i := 0)
    (j := 0x8000000 - (t.tssEsp0 - 100#32).toNat) (n := 100) (k := 0x400000) (by omega) (by omega)
  rw [Ptr.shift_zero, ← huser] at hd
  exact hd.symm

/-! ### The switch to user mode -/

/-- The program has been entered at `eip`, with the stack pointer `esp`. -/
structure EntersUser (c : Core) (d : Core) : Prop where
  eip : d.eip = c.regs .edx
  user : InUserMode d
  ss : d.ss = userDS
  regs : d.regs = Function.update c.regs .esp (c.regs .ebx)
  eflags : d.eflags = c.eflags &&& ~~~unpushedFlags
  mem : Set.EqOn d.mem c.mem (below (c.regs .esp) 20)ᶜ

/-- The kernel before the switch, with the entry point and the stack pointer of the program. -/
def sampleKernel (entry esp : BitVec 32) : Core :=
  { sampleCore kernelCS 0x18#16 0x40010C#32 0x7FFF00#32 with
    regs
      | .eax => 0x2B#32
      | .ebx => esp
      | .ecx => 0x23#32
      | .edx => entry
      | .esp => 0x7FFF00#32
      | _ => 0#32 }

/-- **`execute` enters the program in user mode**: at the entry point in `edx`, with the stack
pointer in `ebx` and the flags of the kernel, and nothing else than twenty bytes of the kernel stack
changed. -/
theorem toUser_enters {l : Link} {ss0 : BitVec 16} {esp0 : BitVec 32} {c : Core}
    (hcode : (irqSystem l ss0 esp0).Placed c.eip toUser) (hkernel : c.cpl = 0)
    (heax : c.regs .eax = userDS.setWidth 32) (hecx : c.regs .ecx = userCS.setWidth 32) :
    Returns (irqSystem l ss0 esp0).kernelStep (fun c => c.cpl = 0) (EntersUser c) c := by
  obtain ⟨a₁, h₀, a₂, h₁, a₃, h₂, a₄, h₃, a₅, h₄, a₆, h₅, a₇, h₆, -⟩ := hcode
  set A := (below (c.regs .esp) 20)ᶜ with hAdef
  have hA : Disjoint A (below (c.regs .esp) 20) := disjoint_compl_left
  set fl := c.eflags &&& ~~~unpushedFlags with hfl
  set c₁ : Core := { c with eip := a₁, ds := (c.regs .eax).setWidth 16 } with hc₁
  set c₂ : Core := { c₁.push (c.regs .eax) with eip := a₂ } with hc₂
  set c₃ : Core := { c₂.push (c.regs .ebx) with eip := a₃ } with hc₃
  set c₄ : Core := { c₃.push fl with eip := a₄ } with hc₄
  set c₅ : Core := { c₄.push (c.regs .ecx) with eip := a₅ } with hc₅
  set c₆ : Core := { c₅.push (c.regs .edx) with eip := a₆ } with hc₆
  have h₁' : Core.Behind c₁ A [] [] c₁ := .entry trivial
  have hpush {ws : List (BitVec 32)} {d : Core} (hd : Core.Behind c₁ A [] ws d)
      (hws : ws.length < 5) (v a : BitVec 32) :
      Core.Behind c₁ A [] (v :: ws) { d.push v with eip := a } :=
    (hd.push (n := 20) (by omega) hA (by rw [List.length_nil]; omega) v).setEip a
  have h₂' : Core.Behind c₁ A [] _ c₂ := hpush h₁' (Nat.le_of_ble_eq_true rfl) ..
  have h₃' : Core.Behind c₁ A [] _ c₃ := hpush h₂' (Nat.le_of_ble_eq_true rfl) ..
  have h₄' : Core.Behind c₁ A [] _ c₄ := hpush h₃' (Nat.le_of_ble_eq_true rfl) ..
  have h₅' : Core.Behind c₁ A [] _ c₅ := hpush h₄' (Nat.le_of_ble_eq_true rfl) ..
  have h₆' : Core.Behind c₁ A [] _ c₆ := hpush h₅' (Nat.le_of_ble_eq_true rfl) ..
  have hw₀ : c₆.word 0 = c.regs .edx := h₆'.stack.word rfl
  have hw₁ : c₆.word 1 = userCS.setWidth 32 := (h₆'.stack.word rfl).trans hecx
  have hw₂ : c₆.word 2 = fl := h₆'.stack.word rfl
  have hw₃ : c₆.word 3 = c.regs .ebx := h₆'.stack.word rfl
  have hw₄ : c₆.word 4 = userDS.setWidth 32 := (h₆'.stack.word rfl).trans heax
  have hds : c₆.ds = userDS := congrArg (BitVec.setWidth 16) heax
  have hregs : Function.update c₆.regs .esp (c.regs .ebx) =
      Function.update c.regs .esp (c.regs .ebx) := by
    funext r
    by_cases hr : r = .esp
    · rw [hr, Function.update_self, Function.update_self]
    · rw [Function.update_of_ne hr, Function.update_of_ne hr]
      simp only [hc₁, hc₂, hc₃, hc₄, hc₅, hc₆, Core.regs_push hr]
  have hcpl {ws : List (BitVec 32)} {d : Core} (hd : Core.Behind c₁ A [] ws d) : d.cpl = 0 :=
    (congrArg rpl hd.cs).trans hkernel
  have hiret : c₆.iret (irqSystem l ss0 esp0).tables.segDpl = some
      { c₆ with
        eip := c.regs .edx
        cs := userCS
        eflags := fl
        regs := Function.update c.regs .esp (c.regs .ebx)
        ss := userDS
        ds := userDS } := by
    have hdpl : (irqSystem l ss0 esp0).tables.segDpl userDS = some 3 :=
      segDpl_of_flat l ss0 esp0 userDS_mem
    have hring : rpl userCS = 3 := rfl
    have hlevel : (3 : BitVec 2) ≠ 0 := by decide
    have hpos : (0 : BitVec 2) < 3 := (BitVec.pos_iff_ne_zero _).mpr hlevel
    rw [Core.iret, hw₀, hw₁, hw₂, hw₃, hw₄, System.setWidth_selector, System.setWidth_selector,
      hcpl h₆', hring]
    dsimp only
    rw [if_neg hlevel, if_pos hpos, hds, hdpl, hregs]
    rfl
  have hback : EntersUser c
      { c₆ with
        eip := c.regs .edx
        cs := userCS
        eflags := fl
        regs := Function.update c.regs .esp (c.regs .ebx)
        ss := userDS
        ds := userDS } := ⟨rfl, ⟨rfl, rfl⟩, rfl, rfl, rfl, h₆'.mem⟩
  refine System.returns_instr h₀ hkernel rfl (System.returns_instr (c := c₁) h₁ (hcpl h₁') rfl ?_)
  refine System.returns_instr (c := c₂) h₂ (hcpl h₂') rfl ?_
  refine System.returns_instr (c := c₃) h₃ (hcpl h₃') rfl ?_
  refine System.returns_instr (c := c₄) h₄ (hcpl h₄') rfl ?_
  refine System.returns_instr (c := c₅) h₅ (hcpl h₅') rfl ?_
  exact System.returns_instr (c := c₆) h₆ (hcpl h₆') hiret (.back hback)

/-- The kernel enters a program at `0x8048000`, with the code at `0x40010C`. -/
theorem toUser_enters_sample :
    Returns (irqSystem sampleLink 0x18#16 0x800000#32).kernelStep (fun c => c.cpl = 0)
      (EntersUser (sampleKernel 0x8048000#32 0x83FFFFC#32))
      (sampleKernel 0x8048000#32 0x83FFFFC#32) :=
  toUser_enters ⟨_, rfl, _, rfl, _, rfl, _, rfl, _, rfl, _, rfl, _, rfl, trivial⟩ rfl rfl rfl

end Mp3Kernel
