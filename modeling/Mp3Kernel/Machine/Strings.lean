import Mp3Kernel.ByteMemory.Written
import Mp3Kernel.Machine.Cpu
import Mp3Kernel.Transition.Listing

/-!
# String instructions of x86

The machine with the carry flag, and listings with the string instructions `movsb`, `stosw` and
`stosl` repeated, unsigned comparison and the direction flag in both states.

## Main definitions

* `StringCpu`, `Op.carry`: the machine with the carry flag, and what the other instructions do to
  it.
* `StringOp`, `StringInstr`, `StringInstr.exec`: the instructions.

## Main results

* `StringInstr.reaches_ops`, `StringInstr.reaches_test_jz`, `StringInstr.reaches_rep`: the rules
  for blocks, tests and repeated instructions.
* `StringOp.iterate_stosl`, `StringOp.iterate_stosw`: what repeated stores write.
* `StringOp.iterate_movsb`, `StringOp.iterate_movsb_back`: what repeated moves write, upwards and
  downwards, where the ranges may overlap.
-/

namespace X86

open ByteMemory Transition

/-- The machine with the carry flag. -/
structure StringCpu extends Cpu where
  /-- The carry flag. -/
  cf : Bool

/-- The carry flag after an instruction. -/
def Op.carry : Op → Cpu → Bool → Bool
  | testl .., _, _ => false
  | testlImm .., _, _ => false
  | addl imm r, c, _ => BitVec.uaddOverflow (c.regs r) imm
  | subl imm r, c, _ => (c.regs r).ult imm
  | andl .., _, _ => false
  | shrl k r, c, cf => if k = 0 then cf else (c.regs r).getLsbD (k - 1)
  | movbFrom _, _, cf => cf
  | movbTo _, _, cf => cf
  | movl .., _, cf => cf
  | movwFromDs _, _, cf => cf
  | movwToEs _, _, cf => cf
  | cld, _, cf => cf

/-- The string instructions. -/
inductive StringOp
  /-- `movsb`. -/
  | movsb
  /-- `stosw`. -/
  | stosw
  /-- `stosl`. -/
  | stosl

/-- The size of an element. -/
def StringOp.size : StringOp → BitVec 32
  | movsb => 1#32
  | stosw => 2#32
  | stosl => 4#32

/-- The low half of a word, stored. -/
def writeHalf (m : Mem Unit) (p : Ptr Unit) (w : BitVec 32) : Mem Unit :=
  writeBytes m p [wordByte w 0, wordByte w 1]

/-- One element: it is stored, and the pointers advance in the direction of the flag. -/
def StringOp.effect (o : StringOp) (c : StringCpu) : StringCpu :=
  let d := if c.df then -o.size else o.size
  let dest := addr (c.regs .edi)
  match o with
  | movsb =>
    { c with
      mem := store c.mem dest (c.mem (addr (c.regs .esi)))
      regs :=
        Function.update (Function.update c.regs .esi (c.regs .esi + d)) .edi (c.regs .edi + d) }
  | stosw =>
    { c with
      mem := writeHalf c.mem dest (c.regs .eax)
      regs := Function.update c.regs .edi (c.regs .edi + d) }
  | stosl =>
    { c with
      mem := writeWord c.mem dest (c.regs .eax)
      regs := Function.update c.regs .edi (c.regs .edi + d) }

/-- Instructions. A label is a position in the listing. -/
inductive StringInstr
  /-- An instruction that goes on to the next one. -/
  | op (o : Op)
  /-- `std`. -/
  | std
  /-- `cmp r, r'`: the flags of `r' - r`. -/
  | cmpl (r r' : Reg)
  /-- `leal disp(base, index), r`. -/
  | leal (disp : BitVec 32) (base index r : Reg)
  /-- `jz label`. -/
  | jz (label : ℕ)
  /-- `jae label`. -/
  | jae (label : ℕ)
  /-- `jmp label`. -/
  | jmp (label : ℕ)
  /-- A string instruction repeated, one round of it in a step. -/
  | rep (o : StringOp)

/-- `Op.effect` on the machine with the carry flag. -/
def StringCpu.apply (c : StringCpu) (o : Op) : StringCpu :=
  { toCpu := o.effect c.toCpu, cf := o.carry c.toCpu c.cf }

/-- One round of a repeated string instruction. -/
def StringOp.round (o : StringOp) (c : StringCpu) : StringCpu :=
  let c' := o.effect c
  { c' with regs := Function.update c'.regs .ecx (c.regs .ecx - 1#32) }

/-- The effect of the instruction at position `i`, and the position of the next one. -/
def StringInstr.exec (i : ℕ) (c : StringCpu) : StringInstr → ℕ × StringCpu
  | op o => (i + 1, c.apply o)
  | std => (i + 1, { c with df := true })
  | cmpl r r' =>
    let m := c.toMachine.compare (c.regs r') (c.regs r)
    (i + 1, { c with toMachine := m, cf := (c.regs r').ult (c.regs r) })
  | leal disp base index r =>
    (i + 1, { c with regs := Function.update c.regs r (c.regs base + c.regs index + disp) })
  | jz label => (if c.zf then label else i + 1, c)
  | jae label => (if c.cf then i + 1 else label, c)
  | jmp label => (label, c)
  | rep o => if c.regs .ecx = 0#32 then (i + 1, c) else (i, o.round c)

theorem StringOp.ecx_round (o : StringOp) (c : StringCpu) :
    (o.round c).regs .ecx = c.regs .ecx - 1#32 := by
  simp only [round, Function.update_self]

theorem StringOp.regs_round (o : StringOp) (c : StringCpu) {r : Reg} (hr : r ≠ .ecx) :
    (o.round c).regs r = (o.effect c).regs r :=
  Function.update_of_ne hr ..

/-! ### The rules -/

namespace StringInstr

variable {code : List StringInstr} {i label : ℕ} {c : StringCpu} {Q : ℕ × StringCpu → Prop}

/-- What a block of instructions without jumps does. -/
def applies (ops : List Op) (c : StringCpu) : StringCpu := ops.foldl (fun c o => c.apply o) c

theorem reaches_ops {ops : List Op} (h : ops.map .op <+: code.drop i)
    (hnext : Reaches (CodeStep exec code) (i + ops.length, applies ops c) Q) :
    Reaches (CodeStep exec code) (i, c) Q :=
  CodeStep.reaches_block (fun _ _ _ => rfl) h hnext

/-- **The rule for a test** of a value, with a jump when it is zero. -/
theorem reaches_test_jz {o : Op} {v : BitVec 32} (htest : code[i]? = some (.op o))
    (hjz : code[i + 1]? = some (.jz label)) (hzf : (c.apply o).zf = (v == 0#32))
    (hzero : v = 0#32 → Reaches (CodeStep exec code) (label, c.apply o) Q)
    (hne : v ≠ 0#32 → Reaches (CodeStep exec code) (i + 2, c.apply o) Q) :
    Reaches (CodeStep exec code) (i, c) Q := by
  refine CodeStep.reaches_branch htest hjz rfl ?_ hzero hne
  rw [exec, hzf]
  exact congrArg (·, _) (if_congr beq_iff_eq rfl rfl)

theorem reaches_testl_jz {r : Reg} (htest : code[i]? = some (.op (.testl r r)))
    (hjz : code[i + 1]? = some (.jz label))
    (hzero : c.regs r = 0#32 → Reaches (CodeStep exec code) (label, c.apply (.testl r r)) Q)
    (hne : c.regs r ≠ 0#32 → Reaches (CodeStep exec code) (i + 2, c.apply (.testl r r)) Q) :
    Reaches (CodeStep exec code) (i, c) Q := by
  have hzf : (c.apply (.testl r r)).zf = (c.regs r == 0#32) :=
    congrArg (· == 0#32) (BitVec.and_self (x := c.regs r))
  exact reaches_test_jz htest hjz hzf hzero hne

/-- **The rule for a repeated string instruction.** -/
theorem reaches_rep {o : StringOp} (h : code[i]? = some (.rep o))
    (hnext : Reaches (CodeStep exec code) (i + 1, o.round^[(c.regs .ecx).toNat] c) Q) :
    Reaches (CodeStep exec code) (i, c) Q := by
  refine CodeStep.reaches_repeat (k := fun c => (c.regs .ecx).toNat) (f := o.round) h
    (fun c => ?_) (fun c hne => ?_) hnext
  · rw [exec]
    exact if_congr (BitVec.toNat_inj (y := 0#32)).symm rfl rfl
  · rw [o.ecx_round]
    bv_omega

end StringInstr

/-! ### Repeated stores -/

theorem wordByte_eq_ofBitVec (w : BitVec 32) (i : ℕ) :
    wordByte w i = UInt8.ofBitVec ((w >>> (8 * i)).setWidth 8) := by
  apply UInt8.toNat_inj.mp
  rw [wordByte, UInt8.toNat_ofNat', UInt8.toNat_ofBitVec, BitVec.toNat_setWidth,
    BitVec.toNat_ushiftRight, Nat.shiftRight_eq_div_pow, Nat.pow_mul]

theorem low8_eq_wordByte (w : BitVec 32) : low8 w = wordByte w 0 :=
  (wordByte_eq_ofBitVec w 0).symm

/-- `k` elements of `size` bytes have been stored upwards, each with the low bytes of `eax`. -/
structure Stored (size k : ℕ) (c c' : StringCpu) : Prop where
  df : c'.df = false
  edi : c'.regs .edi = c.regs .edi + BitVec.ofNat 32 (size * k)
  regs : ∀ r, r ≠ .edi → r ≠ .ecx → c'.regs r = c.regs r
  mem : Written c.mem c'.mem (addr (c.regs .edi)) (Set.Iio (size * k)) fun j =>
    wordByte (c.regs .eax) (j % size)

namespace Stored

variable {c c₁ c₂ : StringCpu} {size k : ℕ}

theorem zero (size : ℕ) (hdf : c.df = false) : Stored size 0 c c where
  df := hdf
  edi := (BitVec.add_zero _).symm
  regs _ _ _ := rfl
  mem := by
    rw [Nat.mul_zero]
    exact .zero ..

/-- One more element. The size of an element divides that of the address space. -/
theorem succ (hsize : size ∣ 2 ^ 32) (h : Stored size k c c₁) (h' : Stored size 1 c₁ c₂) :
    Stored size (k + 1) c c₂ where
  df := h'.df
  edi := by
    rw [h'.edi, h.edi, Nat.mul_one, BitVec.add_assoc, ← BitVec.ofNat_add, Nat.mul_succ]
  regs r hedi hecx := (h'.regs r hedi hecx).trans (h.regs r hedi hecx)
  mem := by
    have heax : c₁.regs .eax = c.regs .eax := h.regs .eax (by decide) (by decide)
    have hmem' := h'.mem
    rw [h.edi, addr_add, heax, Nat.mul_one] at hmem'
    have hlast := hmem'.of_shift (g := fun j => wordByte (c.regs .eax) (j % size)) fun j _ => by
      rw [Nat.mul_add_mod]
    rw [Nat.mul_succ, ← Set.Iio_union_Ico_eq_Iio (Nat.le_add_right (size * k) size)]
    refine h.mem.union hlast fun i _ j _ hij => ?_
    exact congrArg (wordByte (c.regs .eax)) ((Ptr.shift_eq_iff.mp hij).of_dvd hsize)

end Stored

namespace StringOp

variable {c c' : StringCpu} {size k : ℕ}

theorem stored_stosw (hdf : c.df = false) : Stored 2 1 c (stosw.round c) where
  df := hdf
  edi := by
    show c.regs .edi + (if c.df then -2#32 else 2#32) = _
    rw [hdf]
    rfl
  regs r hedi hecx := (stosw.regs_round c hecx).trans (Function.update_of_ne hedi ..)
  mem := by
    refine written_writeBytes c.mem (addr (c.regs .edi))
      (l := [wordByte (c.regs .eax) 0, wordByte (c.regs .eax) 1]) (Nat.le_of_ble_eq_true rfl)
      fun i hi => ?_
    match i, hi with
    | 0, _ => rfl
    | 1, _ => rfl

theorem stored_stosl (hdf : c.df = false) : Stored 4 1 c (stosl.round c) where
  df := hdf
  edi := by
    show c.regs .edi + (if c.df then -4#32 else 4#32) = _
    rw [hdf]
    rfl
  regs r hedi hecx := (stosl.regs_round c hecx).trans (Function.update_of_ne hedi ..)
  mem := (written_writeWord ..).congr fun i hi =>
    congrArg (wordByte (c.regs .eax)) (Nat.mod_eq_of_lt hi).symm

theorem stored_iterate {o : StringOp} (hsize : size ∣ 2 ^ 32)
    (ho : ∀ c : StringCpu, c.df = false → Stored size 1 c (o.round c)) (hdf : c.df = false)
    (k : ℕ) : Stored size k c (o.round^[k] c) := by
  induction k with
  | zero => exact .zero size hdf
  | succ k ih =>
    rw [Function.iterate_succ_apply']
    exact ih.succ hsize (ho _ ih.df)

/-! ### Repeated moves -/

variable {m : Mem Unit} {dest src : BitVec 32} {S : Set ℕ} {n : ℕ}

/-- One more byte moved, when its source is not among the bytes written. -/
theorem written_movsb (h : Written m c.mem (addr dest) S fun j => m ((addr src).shift j))
    (hS : S ⊆ Set.Iio (2 ^ 32)) (hk : k < 2 ^ 32) (hedi : c.regs .edi = dest + BitVec.ofNat 32 k)
    (hesi : c.regs .esi = src + BitVec.ofNat 32 k)
    (hunread : ∀ i ∈ S, (addr src).shift k ≠ (addr dest).shift i) :
    Written m (movsb.round c).mem (addr dest) (S ∪ {k}) fun j => m ((addr src).shift j) := by
  have hmem : (movsb.round c).mem =
      store c.mem ((addr dest).shift k) (m ((addr src).shift k)) := by
    rw [← h.of_notMem hunread, ← addr_add, ← addr_add, ← hedi, ← hesi]
    rfl
  rw [hmem]
  have hstore := written_store c.mem (addr dest) k fun j => m ((addr src).shift j)
  exact h.union_of_lt hstore hS (Set.singleton_subset_iff.mpr hk)

theorem movsb_round_edi (c : StringCpu) :
    (movsb.round c).regs .edi = c.regs .edi + if c.df then -1#32 else 1#32 := rfl

theorem movsb_round_esi (c : StringCpu) :
    (movsb.round c).regs .esi = c.regs .esi + if c.df then -1#32 else 1#32 := rfl

/-- **Moves upwards**, where no byte is overwritten before it is read. -/
theorem iterate_movsb (hdf : c.df = false) (hk : k ≤ 2 ^ 32)
    (hunread : ∀ i j, i < j → j < k →
      (addr (c.regs .esi)).shift j ≠ (addr (c.regs .edi)).shift i) :
    (movsb.round^[k] c).df = false ∧
      (movsb.round^[k] c).regs .edi = c.regs .edi + BitVec.ofNat 32 k ∧
      (movsb.round^[k] c).regs .esi = c.regs .esi + BitVec.ofNat 32 k ∧
      Written c.mem (movsb.round^[k] c).mem (addr (c.regs .edi)) (Set.Iio k) fun j =>
        c.mem ((addr (c.regs .esi)).shift j) := by
  induction k with
  | zero => exact ⟨hdf, (BitVec.add_zero _).symm, (BitVec.add_zero _).symm, .zero ..⟩
  | succ k ih =>
    obtain ⟨hdf', hedi, hesi, hmem⟩ :=
      ih (Nat.le_of_succ_le hk) fun i j hij hj => hunread i j hij (Nat.lt_succ_of_lt hj)
    rw [Function.iterate_succ_apply']
    set c₁ := movsb.round^[k] c
    refine ⟨hdf', ?_, ?_, ?_⟩
    · rw [movsb_round_edi, hdf', hedi, BitVec.add_assoc, BitVec.ofNat_add]
      rfl
    · rw [movsb_round_esi, hdf', hesi, BitVec.add_assoc, BitVec.ofNat_add]
      rfl
    · have hset : Set.Iio (k + 1) = Set.Iio k ∪ {k} :=
        Set.ext fun i => Nat.lt_succ_iff_lt_or_eq
      rw [hset]
      exact written_movsb hmem (Set.Iio_subset_Iio (by omega)) (by omega) hedi hesi
        fun i hi => hunread i k hi (Nat.lt_succ_self k)

/-- A pointer that comes to `a + n` in `k + 1` bytes. -/
theorem eq_add_of_add_eq {p a : BitVec 32} (hk : k < n)
    (h : p + BitVec.ofNat 32 (k + 1) = a + BitVec.ofNat 32 n) :
    p = a + BitVec.ofNat 32 (n - (k + 1)) := by
  obtain ⟨i, rfl⟩ := Nat.exists_eq_add_of_le' (Nat.succ_le_of_lt hk)
  rw [BitVec.ofNat_add i, ← BitVec.add_assoc, BitVec.add_left_inj] at h
  rwa [Nat.add_sub_cancel]

/-- **Moves downwards**, from the last byte of the ranges on. -/
theorem iterate_movsb_back (hdf : c.df = true) (hn : n ≤ 2 ^ 32) (hk : k ≤ n)
    (hedi : c.regs .edi + 1#32 = dest + BitVec.ofNat 32 n)
    (hesi : c.regs .esi + 1#32 = src + BitVec.ofNat 32 n)
    (hunread : ∀ i j, j < i → i < n → (addr src).shift j ≠ (addr dest).shift i) :
    (movsb.round^[k] c).df = true ∧
      (movsb.round^[k] c).regs .edi + BitVec.ofNat 32 (k + 1) = dest + BitVec.ofNat 32 n ∧
      (movsb.round^[k] c).regs .esi + BitVec.ofNat 32 (k + 1) = src + BitVec.ofNat 32 n ∧
      Written c.mem (movsb.round^[k] c).mem (addr dest) (Set.Ico (n - k) n) fun j =>
        c.mem ((addr src).shift j) := by
  induction k with
  | zero =>
    refine ⟨hdf, hedi, hesi, ?_⟩
    rw [Nat.sub_zero, Set.Ico_self]
    exact .empty ..
  | succ k ih =>
    obtain ⟨hdf', hedi', hesi', hmem⟩ := ih (Nat.le_of_succ_le hk)
    have hback (p : BitVec 32) :
        p + -1#32 + BitVec.ofNat 32 (k + 1 + 1) = p + BitVec.ofNat 32 (k + 1) := by
      rw [Nat.add_comm (k + 1), BitVec.ofNat_add 1, ← BitVec.add_assoc, BitVec.add_assoc p]
      congr 1
      exact BitVec.add_zero p
    rw [Function.iterate_succ_apply']
    set c₁ := movsb.round^[k] c
    refine ⟨hdf', ?_, ?_, ?_⟩
    · rw [movsb_round_edi, hdf', if_pos rfl, hback, hedi']
    · rw [movsb_round_esi, hdf', if_pos rfl, hback, hesi']
    · have hset : Set.Ico (n - (k + 1)) n = Set.Ico (n - k) n ∪ {n - (k + 1)} := by
        ext i
        simp only [Set.mem_Ico, Set.mem_union, Set.mem_singleton_iff]
        omega
      have hsub : Set.Ico (n - k) n ⊆ Set.Iio (2 ^ 32) := fun i hi => hi.2.trans_le hn
      rw [hset]
      refine written_movsb hmem hsub (by omega) (eq_add_of_add_eq hk hedi')
        (eq_add_of_add_eq hk hesi') fun i hi => hunread i _ ?_ hi.2
      have := hi.1
      omega

end StringOp

end X86
