import Mp3Kernel.Machine.Core

/-!
# Interrupts come back

A handler of interrupts that is entered through an interrupt gate, saves the registers and the
flags, calls a function, restores them and returns. No other interrupt can come before its end, and
it comes back to the state that was interrupted, but for the memory that the function changes.

## Main definitions

* `System`: a processor with its tables and the code of its handlers.
* `wrapper`: the code around the function that is called.
* `SameView`: the registers and a region of memory are the same.

## Main results

* `System.returns_wrapper`: the wrapper comes back.
* `System.returns_interrupt`: an interrupt comes back, at whatever privilege level.
-/

namespace X86

open ByteMemory Transition

/-! ### The wrapper -/

/-- The registers, the flags and a region of memory are the same. -/
structure SameView (A : Set (Ptr Unit)) (c c' : Core) : Prop where
  regs : c'.regs = c.regs
  eip : c'.eip = c.eip
  cs : c'.cs = c.cs
  ss : c'.ss = c.ss
  ds : c'.ds = c.ds
  eflags : c'.eflags = c.eflags
  mem : Set.EqOn c'.mem c.mem A

theorem SameView.refl (A : Set (Ptr Unit)) (c : Core) : SameView A c c :=
  ⟨rfl, rfl, rfl, rfl, rfl, rfl, Set.eqOn_refl ..⟩

theorem SameView.symm {A : Set (Ptr Unit)} {c c' : Core} (h : SameView A c c') :
    SameView A c' c :=
  ⟨h.regs.symm, h.eip.symm, h.cs.symm, h.ss.symm, h.ds.symm, h.eflags.symm, h.mem.symm⟩

theorem SameView.trans {A : Set (Ptr Unit)} {c c' c'' : Core} (h : SameView A c c')
    (h' : SameView A c' c'') : SameView A c c'' :=
  ⟨h'.regs.trans h.regs, h'.eip.trans h.eip, h'.cs.trans h.cs, h'.ss.trans h.ss, h'.ds.trans h.ds,
    h'.eflags.trans h.eflags, h'.mem.trans h.mem⟩

variable {F : Type}

/-- A processor: its tables, the code of level 0 with the address behind each instruction, and the
functions that this code calls. -/
structure System (F : Type) where
  /-- The tables. -/
  tables : Tables
  /-- The instruction at an address, and the address of the next one. -/
  fetch : BitVec 32 → Option (RingInstr F × BitVec 32)
  /-- The functions. -/
  impl : F → Core → Core

/-- The code around a function: `pushal`, `pushfl`, the call, `popfl`, `popal`, `iret`. -/
def wrapper (f : F) : List (RingInstr F) := [.pushal, .pushfl, .call f, .popfl, .popal, .iret]

namespace System

variable (S : System F)

/-- An instruction at level 0. -/
def kernelStep (c : Core) : Option Core := do
  let (instr, next) ← S.fetch c.eip
  instr.exec S.tables.segDpl S.impl next c

theorem kernelStep_of_none {S : System F} {c : Core} (h : S.fetch c.eip = none) :
    S.kernelStep c = none := by
  rw [kernelStep, h]
  rfl

/-- The instructions of a listing stand one behind the other from an address on. -/
def Placed : BitVec 32 → List (RingInstr F) → Prop
  | _, [] => True
  | a, i :: is => ∃ next, S.fetch a = some (i, next) ∧ Placed next is

/-- Level 0, with interrupts disabled. -/
def Masked (c : Core) : Prop := c.cpl = 0 ∧ c.interruptFlag = false

variable {S}

/-- One instruction on the way back. -/
theorem returns_instr {Q P : Core → Prop} {c c' : Core} {i : RingInstr F} {next : BitVec 32}
    (hfetch : S.fetch c.eip = some (i, next)) (hQ : Q c)
    (hexec : i.exec S.tables.segDpl S.impl next c = some c')
    (h : Returns S.kernelStep Q P c') : Returns S.kernelStep Q P c := by
  refine .step hQ ?_ h
  rw [kernelStep, hfetch]
  exact hexec

/-- The interrupt flag is among the flags that are pushed and popped. -/
theorem getLsbD_popped (e e' : BitVec 32) :
    (((e &&& ~~~unpushedFlags) &&& poppedFlags) ||| (e' &&& ~~~poppedFlags)).getLsbD 9 =
      e.getLsbD 9 := by
  simp [unpushedFlags, poppedFlags]

/-- **The wrapper comes back.** Entered at level 0 with interrupts disabled, it comes to its `iret`
with the registers and the stack of its entry. -/
theorem returns_wrapper {P : Core → Prop} {A : Set (Ptr Unit)} {f : F} {c : Core}
    {frame : List (BitVec 32)} (hcode : S.Placed c.eip (wrapper f)) (hmasked : Masked c)
    (hframe : c.Stack frame) (hlen : frame.length ≤ 5)
    (hf : Core.KeepsFrame 56 (c.regs .esp - 40#32) A (S.impl f))
    (hA : Disjoint A (below (c.regs .esp) 40))
    (hiret : ∀ d, d.regs = c.regs → Core.Behind c A frame [] d →
      ∃ d', d.iret S.tables.segDpl = some d' ∧ P d') : Returns S.kernelStep Masked P c := by
  obtain ⟨a₁, h₀, a₂, h₁, a₃, h₂, a₄, h₃, a₅, h₄, a₆, h₅, -⟩ := hcode
  have hmask {ws : List (BitVec 32)} {d : Core} (hd : Core.Behind c A frame ws d) : Masked d :=
    ⟨(congrArg rpl hd.cs).trans hmasked.1, hd.interruptFlag.trans hmasked.2⟩
  -- `pushal`, `pushfl` and the return address: ten words.
  have hsaved : Core.Behind c A frame (pushalOrder.map c.regs).reverse
      ((pushalOrder.map c.regs).foldl Core.push c) := by
    have hwords : 4 * (8 + 0 + frame.length) ≤ 2 ^ 32 := by omega
    have hfold : Core.Behind c A frame ((pushalOrder.map c.regs).reverse ++ [])
        ((pushalOrder.map c.regs).foldl Core.push c) :=
      (Core.Behind.entry hframe).foldl_push (Nat.le_of_ble_eq_true (n := 32) (m := 40) rfl) hA
        hwords
    rwa [List.append_nil] at hfold
  have h₁' := hsaved.setEip a₁
  set c₁ : Core := { (pushalOrder.map c.regs).foldl Core.push c with eip := a₁ }
  have h₂' := (h₁'.push (Nat.le_of_ble_eq_true (n := 36) (m := 40) rfl) hA
    (by show 4 * (8 + 1 + frame.length) ≤ 2 ^ 32; omega) (c₁.eflags &&& ~~~unpushedFlags)).setEip a₂
  set c₂ : Core := { c₁.push (c₁.eflags &&& ~~~unpushedFlags) with eip := a₂ }
  have h₃' := h₂'.push (Nat.le_of_ble_eq_true (n := 40) (m := 40) rfl) hA
    (by show 4 * (9 + 1 + frame.length) ≤ 2 ^ 32; omega) a₃
  obtain ⟨h₄', heip⟩ := h₃'.call hf h₃'.esp (by show 4 * (9 + frame.length) ≤ 56; omega)
  set c₃ := S.impl f (c₂.push a₃)
  have hfl : ((c₃.word 0 &&& poppedFlags) ||| (c₃.eflags &&& ~~~poppedFlags)).getLsbD 9 =
      c.interruptFlag := by
    rw [h₄'.stack.word rfl, ← h₁'.interruptFlag]
    exact getLsbD_popped ..
  have h₅' := (h₄'.popfl hfl).setEip a₄
  set c₄ : Core := { c₃ with
    eip := a₄
    regs := Function.update c₃.regs .esp (c₃.regs .esp + 4#32)
    eflags := (c₃.word 0 &&& poppedFlags) ||| (c₃.eflags &&& ~~~poppedFlags) }
  obtain ⟨h₆', hregs⟩ := h₅'.popal
  have h₇' := h₆'.setEip a₅
  obtain ⟨d, hd, hPd⟩ := hiret _ hregs h₇'
  refine returns_instr h₀ hmasked rfl (returns_instr (c := c₁) h₁ (hmask h₁') rfl ?_)
  refine returns_instr (c := c₂) h₂ (hmask h₂') rfl ?_
  refine returns_instr (c := c₃) (heip ▸ h₃) (hmask h₄') rfl ?_
  refine returns_instr (c := c₄) h₄ (hmask h₅') rfl (returns_instr h₅ (hmask h₇') hd (.back hPd))

/-! ### The entry -/

variable {A : Set (Ptr Unit)} {g : Gate} {c c₀ : Core}

/-- The machine with the stack on which an entry to level 0 pushes. -/
def onStack (t : Tables) (c : Core) : Core :=
  if 0 < c.cpl then { c with ss := t.ss0, regs := Function.update c.regs .esp t.esp0 } else c

theorem regs_onStack (t : Tables) (c : Core) {r : Reg} (hr : r ≠ .esp) :
    (onStack t c).regs r = c.regs r := by
  rw [onStack]
  split_ifs
  · exact Function.update_of_ne hr ..
  · rfl

theorem ds_onStack (t : Tables) (c : Core) : (onStack t c).ds = c.ds := by
  rw [onStack]
  split_ifs <;> rfl

theorem mem_onStack (t : Tables) (c : Core) : (onStack t c).mem = c.mem := by
  rw [onStack]
  split_ifs <;> rfl

theorem esp_onStack (t : Tables) (h : 0 < c.cpl) : (onStack t c).regs .esp = t.esp0 := by
  rw [onStack, if_pos h]
  show Function.update c.regs .esp t.esp0 .esp = t.esp0
  rw [Function.update_self]

/-- The words that an entry to level 0 leaves on the stack. -/
def entryFrame (c : Core) : List (BitVec 32) := (c.entryWords (decide (0 < c.cpl))).reverse

/-- **The entry** to level 0 through a gate. -/
structure Entered (t : Tables) (A : Set (Ptr Unit)) (g : Gate) (c c₀ : Core) : Prop where
  eip : c₀.eip = g.offset
  cpl : c₀.cpl = 0
  masked : g.trap = false → Masked c₀
  esp : c₀.regs .esp = (onStack t c).regs .esp - BitVec.ofNat 32 (4 * (entryFrame c).length)
  regs : ∀ r, r ≠ .esp → c₀.regs r = c.regs r
  stack : c₀.Stack (entryFrame c)
  ss : c₀.ss = (onStack t c).ss
  ds : c₀.ds = c.ds
  mem : Set.EqOn c₀.mem c.mem A

theorem length_entryFrame_le (c : Core) : (entryFrame c).length ≤ 5 := by
  rw [entryFrame, List.length_reverse, Core.entryWords]
  split_ifs
  · exact Nat.le_refl 5
  · exact Nat.le_of_ble_eq_true rfl

theorem regs_foldl_push (vs : List (BitVec 32)) (c : Core) {r : Reg} (hr : r ≠ .esp) :
    (vs.foldl Core.push c).regs r = c.regs r := by
  induction vs generalizing c with
  | nil => rfl
  | cons v vs ih => exact (ih (c.push v)).trans (Core.regs_push hr)

theorem entered (t : Tables) (hlevel : t.segDpl g.selector = some 0)
    (hA : Disjoint A (below ((onStack t c).regs .esp) 20)) :
    ∃ c₀, t.enter g c = some c₀ ∧ Entered t A g c c₀ := by
  have hlen := length_entryFrame_le c
  have hlen' : (c.entryWords (decide (0 < c.cpl))).length = (entryFrame c).length :=
    List.length_reverse.symm
  have hentry : Core.Behind (onStack t c) A [] [] (onStack t c) := .entry trivial
  have hbytes : 4 * ((entryFrame c).length + 0) ≤ 20 := by omega
  have hwords : 4 * ((entryFrame c).length + 0 + 0) ≤ 2 ^ 32 := by omega
  have hpushed : Core.Behind (onStack t c) A [] ((c.entryWords (decide (0 < c.cpl))).reverse ++ [])
      ((c.entryWords (decide (0 < c.cpl))).foldl Core.push (onStack t c)) :=
    hentry.foldl_push (by rwa [hlen']) hA (by rwa [hlen'])
  rw [List.append_nil] at hpushed
  have henter : t.enter g c = some
      { (c.entryWords (decide (0 < c.cpl))).foldl Core.push (onStack t c) with
        eip := g.offset
        cs := g.selector.extractLsb' 2 14 ++ 0#2
        eflags := g.flags c.eflags } := by
    rw [Tables.enter, hlevel, onStack]
    simp
  have hcpl : rpl (g.selector.extractLsb' 2 14 ++ 0#2) = 0 :=
    BitVec.setWidth_append_eq_right (a := g.selector.extractLsb' 2 14) (b := 0#2)
  refine ⟨_, henter, rfl, hcpl, fun htrap => ⟨hcpl, ?_⟩, hpushed.esp, fun r hr => ?_, ?_,
    hpushed.ss, hpushed.ds.trans (ds_onStack t c), ?_⟩
  · show (g.flags c.eflags).getLsbD 9 = false
    simp [Gate.flags, htrap, entryFlags, interruptBit]
  · exact (regs_foldl_push _ _ hr).trans (regs_onStack t c hr)
  · have hstack := hpushed.stack
    rwa [List.append_nil] at hstack
  · rw [← mem_onStack t c]
    exact hpushed.mem

/-! ### The return -/

/-- The number of bytes that an interrupt in the state `c` pushes, up to the return address of the
function. -/
def pushedBytes (c : Core) : ℕ := 4 * (entryFrame c).length + 40

/-- The bytes that an interrupt in the state `c` pushes. -/
def pushed (t : Tables) (c : Core) : Set (Ptr Unit) :=
  below ((onStack t c).regs .esp) (pushedBytes c)

/-- The stack pointer at the entry of the function. -/
def callStack (t : Tables) (c : Core) : BitVec 32 :=
  (onStack t c).regs .esp - BitVec.ofNat 32 (pushedBytes c)

/-- The gate of an interrupt enters the wrapper of a function that, called with the stack pointer
`sp`, leaves the memory `A` alone. -/
structure Handles (S : System F) (A : Set (Ptr Unit)) (sp : BitVec 32) (g : Gate) : Prop where
  level : S.tables.segDpl g.selector = some 0
  trap : g.trap = false
  code : ∃ f, S.Placed g.offset (wrapper f) ∧ Core.KeepsFrame 56 sp A (S.impl f)

/-- The data segment may be used at the privilege level. -/
def DataOk (t : Tables) (c : Core) : Prop := (t.segDpl c.ds).any (· < c.cpl) = false

theorem DataOk.congr {t : Tables} {c' : Core} (h : DataOk t c) (hcs : c'.cs = c.cs)
    (hds : c'.ds = c.ds) : DataOk t c' := by
  rwa [DataOk, Core.cpl, hcs, hds]

theorem dataOk_of_zero (t : Tables) (h : c.cpl = 0) : DataOk t c := by
  rw [DataOk, h]
  cases t.segDpl c.ds with
  | none => rfl
  | some dpl =>
    have hlt : ¬ dpl < 0 := BitVec.not_lt_zero
    exact decide_eq_false hlt

theorem setWidth_selector (s : BitVec 16) : (s.setWidth 32).setWidth 16 = s := by
  simp

/-- The words that an entry from another level than 0 leaves on the stack. -/
theorem entryFrame_of_pos (h : 0 < c.cpl) : entryFrame c =
    [c.eip, c.cs.setWidth 32, c.eflags, c.regs .esp, c.ss.setWidth 32] := by
  rw [entryFrame, decide_eq_true h]
  rfl

/-- **The return to another level.** With the words of an entry on the stack, `iret` comes back to
the state in which they were pushed. -/
theorem iret_of_pos {t : Tables} {d : Core} (h : 0 < c.cpl) (hdata : DataOk t c)
    (hcpl : d.cpl = 0) (hds : d.ds = c.ds) (hstack : d.Stack (entryFrame c))
    (hregs : ∀ r, r ≠ .esp → d.regs r = c.regs r) (hmem : Set.EqOn d.mem c.mem A) :
    ∃ d', d.iret t.segDpl = some d' ∧ SameView A c d' := by
  rw [entryFrame_of_pos h] at hstack
  have hw₀ : d.word 0 = c.eip := hstack.word rfl
  have hw₁ : d.word 1 = c.cs.setWidth 32 := hstack.word rfl
  have hw₂ : d.word 2 = c.eflags := hstack.word rfl
  have hw₃ : d.word 3 = c.regs .esp := hstack.word rfl
  have hw₄ : d.word 4 = c.ss.setWidth 32 := hstack.word rfl
  have hring : rpl c.cs ≠ 0 := (BitVec.pos_iff_ne_zero _).mp h
  have hpos : 0 < rpl c.cs := h
  have hregs' : Function.update d.regs .esp (c.regs .esp) = c.regs := by
    funext r
    by_cases hr : r = .esp
    · rw [hr, Function.update_self]
    · rw [Function.update_of_ne hr, hregs r hr]
  refine ⟨{ d with
    eip := c.eip, cs := c.cs, eflags := c.eflags, ss := c.ss
    regs := Function.update d.regs .esp (c.regs .esp) }, ?_, hregs', rfl, rfl, rfl, hds, rfl, hmem⟩
  rw [Core.iret, hw₀, hw₁, hw₂, hw₃, hw₄, setWidth_selector, setWidth_selector, hcpl]
  dsimp only
  rw [if_neg hring, if_pos hpos, if_neg]
  rw [hds]
  exact Bool.eq_false_iff.mp hdata

/-- **The return.** `iret` undoes the entry. -/
theorem Entered.iret {t : Tables} {d : Core} (h : Entered t A g c c₀) (hdata : DataOk t c)
    (hregs : d.regs = c₀.regs) (hd : Core.Behind c₀ A (entryFrame c) [] d) :
    ∃ d', d.iret t.segDpl = some d' ∧ SameView A c d' := by
  have hcpl : d.cpl = 0 := (congrArg rpl hd.cs).trans h.cpl
  have hmem : Set.EqOn d.mem c.mem A := hd.mem.trans h.mem
  have hds : d.ds = c.ds := hd.ds.trans h.ds
  have hothers (r : Reg) (hr : r ≠ .esp) : d.regs r = c.regs r :=
    (congrFun hregs r).trans (h.regs r hr)
  by_cases hlt : 0 < c.cpl
  · exact iret_of_pos hlt hdata hcpl hds hd.stack hothers hmem
  · have hframe : entryFrame c = [c.eip, c.cs.setWidth 32, c.eflags] := by
      rw [entryFrame, decide_eq_false hlt]
      rfl
    have hstack : d.Stack (entryFrame c) := hd.stack
    rw [hframe] at hstack
    have hw₀ : d.word 0 = c.eip := hstack.word rfl
    have hw₁ : d.word 1 = c.cs.setWidth 32 := hstack.word rfl
    have hw₂ : d.word 2 = c.eflags := hstack.word rfl
    have hesp : d.regs .esp + 12#32 = c.regs .esp := by
      rw [hregs, h.esp, hframe, onStack, if_neg hlt]
      exact BitVec.sub_add_cancel ..
    have hss : d.ss = c.ss := by rw [hd.ss, h.ss, onStack, if_neg hlt]
    have hring : rpl c.cs = 0 := not_not.mp (mt (BitVec.pos_iff_ne_zero _).mpr hlt)
    have hregs' : Function.update d.regs .esp (d.regs .esp + 12#32) = c.regs := by
      funext r
      by_cases hr : r = .esp
      · rw [hr, Function.update_self, hesp]
      · rw [Function.update_of_ne hr, hothers r hr]
    refine ⟨{ d with
      eip := c.eip, cs := c.cs, eflags := c.eflags
      regs := Function.update d.regs .esp (d.regs .esp + 12#32) }, ?_,
      hregs', rfl, rfl, hss, hds, rfl, hmem⟩
    rw [Core.iret, hw₀, hw₁, hw₂, setWidth_selector, hcpl]
    dsimp only
    rw [if_pos hring]

/-- An interrupt of another level than 0. -/
theorem stack_of_pos (t : Tables) (h : 0 < c.cpl) :
    pushed t c = below t.esp0 60 ∧ callStack t c = t.esp0 - 60#32 := by
  have hbytes : pushedBytes c = 60 := by
    rw [pushedBytes, entryFrame_of_pos h]
    rfl
  rw [pushed, callStack, hbytes, esp_onStack t h]
  exact ⟨rfl, rfl⟩

/-- An interrupt of level 0. -/
theorem stack_of_zero (t : Tables) (h : c.cpl = 0) :
    pushed t c = below (c.regs .esp) 52 ∧ callStack t c = c.regs .esp - 52#32 := by
  have hlt : ¬ 0 < c.cpl := h ▸ BitVec.lt_irrefl 0
  have hbytes : pushedBytes c = 52 := by
    rw [pushedBytes, entryFrame, decide_eq_false hlt]
    rfl
  rw [pushed, callStack, hbytes, onStack, if_neg hlt]
  exact ⟨rfl, rfl⟩

/-- **An interrupt comes back** to the state that it interrupted, at whatever privilege level, and
leaves a memory alone that its function leaves alone and that is not on the stack. -/
theorem returns_interrupt (hdata : DataOk S.tables c) (hA : Disjoint A (pushed S.tables c))
    (hg : S.Handles A (callStack S.tables c) g) :
    ∃ c₀, S.tables.enter g c = some c₀ ∧ Returns S.kernelStep Masked (SameView A c) c₀ := by
  obtain ⟨f, hcode, hf⟩ := hg.code
  have hlen := length_entryFrame_le c
  have hA₀ : Disjoint A (below ((onStack S.tables c).regs .esp) 20) :=
    hA.mono_right (below_mono (by rw [pushedBytes]; omega))
  obtain ⟨c₀, henter, h⟩ := entered S.tables hg.level hA₀
  have hsp : c₀.regs .esp - 40#32 = callStack S.tables c := by
    rw [h.esp, callStack, pushedBytes, BitVec.ofNat_add]
    exact BitVec.sub_sub ..
  have hmasked := h.masked hg.trap
  refine ⟨c₀, henter, returns_wrapper (A := A) (h.eip ▸ hcode) hmasked h.stack hlen ?_ ?_ ?_⟩
  · rwa [hsp]
  · rw [h.esp]
    exact hA.mono_right (below_subset (by rw [pushedBytes]))
  · exact fun d hregs hd => h.iret hdata hregs hd

/-! ### Programs -/

/-- The instructions of a program only see the registers and the memory `A`, and keep the
segments. -/
structure Confined (prog : Core → Core → Prop) (A : Set (Ptr Unit)) : Prop where
  cs : ∀ c c', prog c c' → c'.cs = c.cs
  ds : ∀ c c', prog c c' → c'.ds = c.ds
  view : ∀ c d c', prog c c' → SameView A c d → ∃ d', prog d d' ∧ SameView A c' d'

/-- **An interrupt of a program** comes back to what the program sees. -/
theorem Handles.returns {u : Core} (hg : S.Handles A (S.tables.esp0 - 60#32) g) (hlevel : u.cpl ≠ 0)
    (hdata : DataOk S.tables u) (hview : SameView A u c)
    (hA : Disjoint A (below S.tables.esp0 60)) :
    ∃ c₀, S.tables.enter g c = some c₀ ∧ Returns S.kernelStep Masked (SameView A u) c₀ := by
  have hcpl : c.cpl = u.cpl := congrArg rpl hview.cs
  have hpos : 0 < c.cpl := (BitVec.pos_iff_ne_zero _).mpr (hcpl ▸ hlevel)
  obtain ⟨hpushed, hcall⟩ := stack_of_pos S.tables hpos
  obtain ⟨c₀, henter, hback⟩ := returns_interrupt (S := S) (A := A) (g := g) (c := c)
    (hdata.congr hview.cs hview.ds) (by rwa [hpushed]) (by rwa [hcall])
  exact ⟨c₀, henter, hback.mono fun d hd => hview.trans hd⟩

end System

end X86
