import Mp3Kernel.Machine.Strings

/-!
# The assembly of `memmove`

`memmove` compares the addresses: it moves the bytes upwards when the source is not below the
destination, and downwards from the last byte when it is. The direction flag is set for the way
down, and it stays set.

## Main definitions

* `Memmove.listing`, `Memmove.start`.

## Main results

* `memmove_moves`: on ranges that may overlap, every run ends with the destination holding what the
  source held before, nothing else changed, and the direction flag as the comparison left it.

Source: `lib.c`, lines 486–513.
-/

namespace Mp3Kernel

open ByteMemory X86 Transition

namespace Memmove

/-- The label `.memmove_go`. -/
def go : ℕ := 8

/-- The instructions of `memmove`. -/
def listing : List StringInstr :=
  [ .op (.movwFromDs .edx),
    .op (.movwToEs .edx),
    .op .cld,
    .cmpl .edi .esi,
    .jae go,
    .leal (-1#32) .esi .ecx .esi,
    .leal (-1#32) .edi .ecx .edi,
    .std,
    -- `.memmove_go`
    .rep .movsb ]

/-- The registers that the compiler loads. -/
def start (dest src n : BitVec 32) (cpu : StringCpu) : StringCpu :=
  { cpu with regs := fun r => match r with
      | .edi => dest
      | .esi => src
      | .ecx => n
      | r => cpu.regs r }

end Memmove

/-- Addresses of two ranges that do not wrap are ordered like the positions in them. -/
theorem shift_ne_shift {src dest : BitVec 32} {i j n : ℕ} (hs : src.toNat + n ≤ 2 ^ 32)
    (hd : dest.toNat + n ≤ 2 ^ 32) (hi : i < n) (hj : j < n)
    (hne : src.toNat + j ≠ dest.toNat + i) : (addr src).shift j ≠ (addr dest).shift i := by
  intro he
  have hoff := congrArg (fun p => p.off.toNat) he
  change (src + BitVec.ofNat 32 j).toNat = (dest + BitVec.ofNat 32 i).toNat at hoff
  rw [BitVec.toNat_add, BitVec.toNat_add, BitVec.toNat_ofNat, BitVec.toNat_ofNat] at hoff
  omega

/-- The byte of a range at `base + index - 1` is the last one. -/
theorem lea_add_one (base index : BitVec 32) :
    base + index + -1#32 + 1#32 = base + BitVec.ofNat 32 index.toNat := by
  rw [BitVec.ofNat_toNat, BitVec.setWidth_eq, BitVec.add_assoc _ (-1#32)]
  exact BitVec.add_zero _

namespace Memmove

/-- Behind the listing, with the bytes of the source moved. -/
def Moved (m : Mem Unit) (dest src : BitVec 32) (n : ℕ) (df : Bool) (st : ℕ × StringCpu) : Prop :=
  st.1 = listing.length ∧ st.2.df = df ∧
    Written m st.2.mem (addr dest) (Set.Iio n) fun j => m ((addr src).shift j)

variable {dest src n : BitVec 32} {c : StringCpu}

/-- Upwards, when the source is not below the destination. -/
theorem reaches_up (hd : dest.toNat + n.toNat ≤ 2 ^ 32) (hs : src.toNat + n.toNat ≤ 2 ^ 32)
    (hle : dest.toNat ≤ src.toNat) (hdf : c.df = false) (hedi : c.regs .edi = dest)
    (hesi : c.regs .esi = src) (hecx : c.regs .ecx = n) :
    Reaches (CodeStep StringInstr.exec listing) (go, c) (Moved c.mem dest src n.toNat false) := by
  have hunread (i j : ℕ) (hij : i < j) (hj : j < n.toNat) :
      (addr (c.regs .esi)).shift j ≠ (addr (c.regs .edi)).shift i := by
    rw [hesi, hedi]
    exact shift_ne_shift hs hd (hij.trans hj) hj (by omega)
  obtain ⟨hdf', -, -, hmem⟩ := StringOp.iterate_movsb hdf n.isLt.le hunread
  rw [hedi, hesi] at hmem
  refine StringInstr.reaches_rep (o := .movsb) rfl (.refl ?_)
  rw [hecx]
  exact ⟨rfl, hdf', hmem⟩

/-- Downwards from the last byte, when the source is below the destination. -/
theorem reaches_down (hd : dest.toNat + n.toNat ≤ 2 ^ 32) (hs : src.toNat + n.toNat ≤ 2 ^ 32)
    (hlt : src.toNat < dest.toNat) (hdf : c.df = true)
    (hedi : c.regs .edi + 1#32 = dest + BitVec.ofNat 32 n.toNat)
    (hesi : c.regs .esi + 1#32 = src + BitVec.ofNat 32 n.toNat) (hecx : c.regs .ecx = n) :
    Reaches (CodeStep StringInstr.exec listing) (go, c) (Moved c.mem dest src n.toNat true) := by
  have hunread (i j : ℕ) (hji : j < i) (hi : i < n.toNat) :
      (addr src).shift j ≠ (addr dest).shift i :=
    shift_ne_shift hs hd hi (hji.trans hi) (by omega)
  obtain ⟨hdf', -, -, hmem⟩ :=
    StringOp.iterate_movsb_back hdf n.isLt.le (Nat.le_refl _) hedi hesi hunread
  have hset : Set.Ico (n.toNat - n.toNat) n.toNat = Set.Iio n.toNat := by
    rw [Nat.sub_self]
    exact Set.ext fun i => and_iff_right (Nat.zero_le i)
  rw [hset] at hmem
  refine StringInstr.reaches_rep (o := .movsb) rfl (.refl ?_)
  rw [hecx]
  exact ⟨rfl, hdf', hmem⟩

end Memmove

/-- **The assembly of `memmove` moves.** The ranges may overlap, but do not wrap around the address
space. -/
theorem memmove_moves {dest src n : BitVec 32} (cpu : StringCpu)
    (hd : dest.toNat + n.toNat ≤ 2 ^ 32) (hs : src.toNat + n.toNat ≤ 2 ^ 32) :
    Ends StringInstr.exec Memmove.listing (Memmove.start dest src n cpu) fun t =>
      (∀ k < n.toNat, t.mem ((addr dest).shift k) = cpu.mem ((addr src).shift k)) ∧
        Set.EqOn t.mem cpu.mem ((addr dest).span n.toNat)ᶜ ∧ t.df = src.ult dest := by
  suffices hreach : Reaches (CodeStep StringInstr.exec Memmove.listing)
      (0, Memmove.start dest src n cpu)
      (Memmove.Moved cpu.mem dest src n.toNat (src.ult dest)) by
    refine CodeStep.ends_of_reaches (hreach.mono fun t ht => ?_)
    obtain ⟨hbytes, hframe⟩ := written_Iio_iff.mp ht.2.2
    exact ⟨ht.1, hbytes, hframe, ht.2.1⟩
  have hblock : [Op.movwFromDs .edx, .movwToEs .edx, .cld].map .op <+: Memmove.listing.drop 0 :=
    ⟨_, rfl⟩
  refine StringInstr.reaches_ops hblock ?_
  refine CodeStep.reaches_instr (i := 3) (e := .cmpl .edi .esi) rfl ?_
  refine CodeStep.reaches_instr (i := 4) (e := .jae Memmove.go) rfl ?_
  change Reaches _ (if src.ult dest then 5 else Memmove.go, _) _
  cases hcf : src.ult dest with
  | false =>
    rw [BitVec.ult_eq_decide, decide_eq_false_iff_not] at hcf
    exact Memmove.reaches_up hd hs (Nat.le_of_not_lt hcf) rfl rfl rfl rfl
  | true =>
    rw [BitVec.ult_eq_decide, decide_eq_true_iff] at hcf
    refine CodeStep.reaches_instr (i := 5) (e := .leal (-1#32) .esi .ecx .esi) rfl ?_
    refine CodeStep.reaches_instr (i := 6) (e := .leal (-1#32) .edi .ecx .edi) rfl ?_
    refine CodeStep.reaches_instr (i := 7) (e := .std) rfl ?_
    exact Memmove.reaches_down hd hs hcf rfl (lea_add_one dest n) (lea_add_one src n) rfl

/-- A machine in which every byte of memory is the low byte of its address. -/
def memmoveCpu : StringCpu where
  regs _ := 0#32
  zf := false
  sf := false
  ovf := false
  mem p := UInt8.ofNat p.off.toNat
  ds := 0x18#16
  es := 0#16
  df := false
  cf := false

/-- Three bytes moved up by one address: two of them are overwritten after they are read. -/
theorem memmove_moves_up_one :
    Ends StringInstr.exec Memmove.listing (Memmove.start 0x1001#32 0x1000#32 3#32 memmoveCpu)
      fun t =>
        (∀ k < (3#32).toNat,
          t.mem ((addr 0x1001#32).shift k) = memmoveCpu.mem ((addr 0x1000#32).shift k)) ∧
          Set.EqOn t.mem memmoveCpu.mem ((addr 0x1001#32).span (3#32).toNat)ᶜ ∧
            t.df = (0x1000#32).ult 0x1001#32 :=
  memmove_moves memmoveCpu (by decide) (by decide)

end Mp3Kernel
