import Mp3Kernel.Lib.Memcpy
import Mp3Kernel.Machine.Strings

/-!
# The assembly of `memset`

The listings of `memset`, `memset_word` and `memset_dword`, run from the registers that the compiler
loads: the address in `edi`, the count in `ecx` and the value in `eax`. `memset` multiplies a byte
into a double word, and stores single bytes up to an aligned address, then double words, then the
rest.

The counts of `memset_word` and `memset_dword` are numbers of words and of double words, although
their comments speak of bytes.

## Main definitions

* `memsetPattern`, `Memset.listing`, `memsetElements`: the value that `memset` loads, and the
  listings.

## Main results

* `memset_fills`: a run of `memset` ends with every byte of the range set, and nothing else changed.
* `memset_elements_fill`: the same for the other two, with the bytes of their elements.

Source: `lib.c`, lines 358–438.
-/

namespace Mp3Kernel

open ByteMemory X86 Transition

/-- `c &= 0xFF` and `c << 24 | c << 16 | c << 8 | c`. -/
def memsetPattern (c : BitVec 32) : BitVec 32 :=
  let c := c &&& 0xFF#32
  c <<< 24 ||| c <<< 16 ||| c <<< 8 ||| c

/-- The bytes of the pattern. -/
theorem wordByte_memsetPattern (c : BitVec 32) {i : ℕ} (hi : i < 4) :
    wordByte (memsetPattern c) i = low8 c := by
  rw [wordByte_eq_ofBitVec]
  refine congrArg UInt8.ofBitVec (BitVec.eq_of_getLsbD_eq fun j hj => ?_)
  have hmask (k : ℕ) : (0xFF#32).getLsbD k = decide (k < 8) := by
    have hones : 0xFF#32 = (BitVec.allOnes 8).setWidth 32 := rfl
    rw [hones, BitVec.getLsbD_setWidth, BitVec.getLsbD_allOnes, ← Bool.decide_and]
    exact decide_eq_decide.mpr (by omega)
  simp only [memsetPattern, BitVec.getLsbD_setWidth, BitVec.getLsbD_ushiftRight, BitVec.getLsbD_or,
    BitVec.getLsbD_shiftLeft, BitVec.getLsbD_and, hmask]
  match i, hi with
  | 0, _ => grind
  | 1, _ => grind
  | 2, _ => grind
  | 3, _ => grind

namespace Memset

/-- The label `.memset_top`. -/
def top : ℕ := 0

/-- The label `.memset_aligned`. -/
def aligned : ℕ := 8

/-- The position of `rep stosl`. -/
def rep : ℕ := 14

/-- The label `.memset_bottom`. -/
def bottom : ℕ := 15

/-- The label `.memset_done`. -/
def done : ℕ := 21

/-- The instructions of `memset`. -/
def listing : List StringInstr :=
  [ -- `.memset_top`
    .op (.testl .ecx .ecx),
    .jz done,
    .op (.testlImm 3#32 .edi),
    .jz aligned,
    .op (.movbTo .edi),
    .op (.addl 1#32 .edi),
    .op (.subl 1#32 .ecx),
    .jmp top,
    -- `.memset_aligned`
    .op (.movwFromDs .edx),
    .op (.movwToEs .edx),
    .op (.movl .ecx .edx),
    .op (.shrl 2 .ecx),
    .op (.andl 3#32 .edx),
    .op .cld,
    .rep .stosl,
    -- `.memset_bottom`
    .op (.testl .edx .edx),
    .jz done,
    .op (.movbTo .edi),
    .op (.addl 1#32 .edi),
    .op (.subl 1#32 .edx),
    .jmp bottom ]

/-- The block of both byte loops: one byte stored, with the count in `r`. -/
def storeByte (r : Reg) : List Op := [.movbTo .edi, .addl 1#32 .edi, .subl 1#32 r]

/-- The block in front of `rep stosl`. -/
def prepare : List Op :=
  [.movwFromDs .edx, .movwToEs .edx, .movl .ecx .edx, .shrl 2 .ecx, .andl 3#32 .edx, .cld]

/-- The registers that the compiler loads. -/
def start (s c n : BitVec 32) (cpu : StringCpu) : StringCpu :=
  { cpu with regs := fun r => match r with
      | .eax => memsetPattern c
      | .edi => s
      | .ecx => n
      | r => cpu.regs r }

/-! ### The loops -/

/-- The first `k` bytes are set to `b`, and `edi` points behind them. -/
structure Filling (m₀ : Mem Unit) (s : BitVec 32) (b : UInt8) (k : ℕ) (c : StringCpu) : Prop where
  edi : c.regs .edi = s + BitVec.ofNat 32 k
  eax : ∀ i < 4, wordByte (c.regs .eax) i = b
  mem : Written m₀ c.mem (addr s) (Set.Iio k) fun _ => b

section Loops

variable {m₀ : Mem Unit} {s : BitVec 32} {b : UInt8} {k n N : ℕ} {c : StringCpu}
  {st : ℕ × StringCpu}

/-- A range behind the bytes that are set. -/
theorem Filling.append {c' : StringCpu} (h : Filling m₀ s b k c)
    (hedi : c'.regs .edi = c.regs .edi + BitVec.ofNat 32 n) (heax : c'.regs .eax = c.regs .eax)
    (hmem : Written c.mem c'.mem (addr (c.regs .edi)) (Set.Iio n) fun _ => b) :
    Filling m₀ s b (k + n) c' where
  edi := by
    rw [hedi, h.edi, BitVec.add_assoc, ← BitVec.ofNat_add]
  eax i hi := heax ▸ h.eax i hi
  mem := by
    rw [h.edi, addr_add] at hmem
    rw [← Set.Iio_union_Ico_eq_Iio (Nat.le_add_right k n)]
    exact h.mem.union (hmem.of_shift fun _ _ => rfl) fun _ _ _ _ _ => rfl

theorem Filling.storeByte {r : Reg} (hr : r = .ecx ∨ r = .edx) (h : Filling m₀ s b k c) :
    Filling m₀ s b (k + 1) (StringInstr.applies (storeByte r) c) ∧
      (StringInstr.applies (storeByte r) c).regs r = c.regs r - 1#32 := by
  have hb : low8 (c.regs .eax) = b := (low8_eq_wordByte _).trans (h.eax 0 (by omega))
  have hmem : Written c.mem (store c.mem (addr (c.regs .edi)) (low8 (c.regs .eax)))
      (addr (c.regs .edi)) (Set.Iio 1) fun _ => b := by
    have hstore := written_store c.mem (addr (c.regs .edi)) 0 fun _ => b
    have hone : Set.Iio 1 = ({0} : Set ℕ) := Set.ext fun i => Nat.lt_one_iff
    rw [Ptr.shift_zero] at hstore
    rw [hb, hone]
    exact hstore
  rcases hr with rfl | rfl
  · exact ⟨h.append rfl rfl hmem, rfl⟩
  · exact ⟨h.append rfl rfl hmem, rfl⟩

/-- Behind the listing, with the whole range set. -/
def Done (m₀ : Mem Unit) (s : BitVec 32) (b : UInt8) (N : ℕ) (st : ℕ × StringCpu) : Prop :=
  st.1 = listing.length ∧ Filling m₀ s b N st.2

/-- At `.memset_bottom`, with `n` bytes left. -/
structure AtBottom (m₀ : Mem Unit) (s : BitVec 32) (b : UInt8) (N n : ℕ) (st : ℕ × StringCpu) :
    Prop where
  pos : st.1 = bottom
  count : (st.2.regs .edx).toNat = n
  filling : ∃ k, k + n = N ∧ Filling m₀ s b k st.2

/-- At `.memset_top`, with `n` bytes left. -/
structure AtTop (m₀ : Mem Unit) (s : BitVec 32) (b : UInt8) (N n : ℕ) (st : ℕ × StringCpu) :
    Prop where
  pos : st.1 = top
  count : (st.2.regs .ecx).toNat = n
  filling : ∃ k, k + n = N ∧ Filling m₀ s b k st.2

theorem reaches_bottom (h : AtBottom m₀ s b N n st) :
    Reaches (CodeStep StringInstr.exec listing) st (Done m₀ s b N) := by
  refine Reaches.loop ?_ ?_ h
  · rintro ⟨_, c⟩ ⟨rfl, hn, k, rfl, hk⟩
    have h0 : c.regs .edx = 0#32 := BitVec.eq_of_toNat_eq hn
    refine StringInstr.reaches_testl_jz rfl rfl (fun _ => ?_) fun hne => absurd h0 hne
    exact .refl ⟨rfl, hk.edi, hk.eax, hk.mem⟩
  · rintro n ⟨_, c⟩ ⟨rfl, hn, k, rfl, hk⟩
    have hne := Memcpy.ne_zero_of_toNat hn
    refine StringInstr.reaches_testl_jz rfl rfl (fun h => absurd h hne) fun _ => ?_
    have hblock : (storeByte .edx).map .op <+: listing.drop (bottom + 2) := ⟨_, rfl⟩
    have htest : Filling m₀ s b k (c.apply (.testl .edx .edx)) := ⟨hk.edi, hk.eax, hk.mem⟩
    obtain ⟨hnext, hcount⟩ := htest.storeByte (r := .edx) (.inr rfl)
    refine StringInstr.reaches_ops hblock (CodeStep.reaches_instr (e := .jmp bottom) rfl ?_)
    refine .refl (.inr ⟨rfl, ?_, k + 1, by omega, hnext⟩)
    exact (congrArg BitVec.toNat hcount).trans (Memcpy.toNat_sub_one hn)

/-- `.memset_aligned` splits the count into double words and single bytes. -/
theorem reaches_aligned (hk : Filling m₀ s b k c) (hN : k + (c.regs .ecx).toNat = N) :
    Reaches (CodeStep StringInstr.exec listing) (aligned, c) (Done m₀ s b N) := by
  have hblock : prepare.map .op <+: listing.drop aligned := ⟨_, rfl⟩
  refine StringInstr.reaches_ops hblock (StringInstr.reaches_rep (o := .stosl) rfl ?_)
  set c₁ := StringInstr.applies prepare c
  have hecx : (c₁.regs .ecx).toNat = (c.regs .ecx).toNat / 4 := by
    show (c.regs .ecx >>> 2).toNat = _
    rw [BitVec.toNat_ushiftRight, Nat.shiftRight_eq_div_pow]
  have hedx : (c₁.regs .edx).toNat = (c.regs .ecx).toNat % 4 := by
    show (c.regs .ecx &&& 3#32).toNat = _
    rw [BitVec.toNat_and]
    exact Nat.and_two_pow_sub_one_eq_mod _ 2
  have hstored := StringOp.stored_iterate (o := .stosl) (c := c₁) (by decide)
    (fun c => StringOp.stored_stosl) rfl (c₁.regs .ecx).toNat
  rw [hecx] at hstored ⊢
  refine reaches_bottom ⟨rfl, rfl, k + 4 * ((c.regs .ecx).toNat / 4), ?_, ?_⟩
  · rw [hstored.regs .edx (by decide) (by decide), hedx]
    omega
  · refine hk.append hstored.edi (hstored.regs .eax (by decide) (by decide)) ?_
    exact hstored.mem.congr fun i _ => hk.eax (i % 4) (Nat.mod_lt i (by decide))

theorem reaches_top (h : AtTop m₀ s b N n st) :
    Reaches (CodeStep StringInstr.exec listing) st (Done m₀ s b N) := by
  refine Reaches.loop ?_ ?_ h
  · rintro ⟨_, c⟩ ⟨rfl, hn, k, rfl, hk⟩
    have h0 : c.regs .ecx = 0#32 := BitVec.eq_of_toNat_eq hn
    refine StringInstr.reaches_testl_jz rfl rfl (fun _ => ?_) fun hne => absurd h0 hne
    exact .refl ⟨rfl, hk.edi, hk.eax, hk.mem⟩
  · rintro n ⟨_, c⟩ ⟨rfl, hn, k, rfl, hk⟩
    have hne := Memcpy.ne_zero_of_toNat hn
    refine StringInstr.reaches_testl_jz rfl rfl (fun h => absurd h hne) fun _ => ?_
    -- Whichever address is aligned, the double words and the bytes end at the same place.
    refine StringInstr.reaches_test_jz (o := .testlImm 3#32 .edi) (v := c.regs .edi &&& 3#32)
      rfl rfl rfl (fun _ => ?_) fun _ => ?_
    · have hreach := reaches_aligned (N := k + (n + 1))
        (c := (c.apply (.testl .ecx .ecx)).apply (.testlImm 3#32 .edi))
        ⟨hk.edi, hk.eax, hk.mem⟩ (congrArg (k + ·) hn)
      exact hreach.mono fun _ => .inl
    · have hblock : (storeByte .ecx).map .op <+: listing.drop (top + 2 + 2) := ⟨_, rfl⟩
      have htest : Filling m₀ s b k
          ((c.apply (.testl .ecx .ecx)).apply (.testlImm 3#32 .edi)) := ⟨hk.edi, hk.eax, hk.mem⟩
      obtain ⟨hnext, hcount⟩ := htest.storeByte (r := .ecx) (.inl rfl)
      refine StringInstr.reaches_ops hblock (CodeStep.reaches_instr (e := .jmp top) rfl ?_)
      refine .refl (.inr ⟨rfl, ?_, k + 1, by omega, hnext⟩)
      exact (congrArg BitVec.toNat hcount).trans (Memcpy.toNat_sub_one hn)

end Loops

end Memset

/-- **The assembly of `memset` fills.** For every address, value and count, every run comes to the
end of the listing, with the low byte of the value in every byte of the range and nothing else
changed. -/
theorem memset_fills (s c n : BitVec 32) (cpu : StringCpu) :
    Ends StringInstr.exec Memset.listing (Memset.start s c n cpu) fun t =>
      (∀ k < n.toNat, t.mem ((addr s).shift k) = low8 c) ∧
        Set.EqOn t.mem cpu.mem ((addr s).span n.toNat)ᶜ := by
  have hfill : Memset.Filling cpu.mem s (low8 c) 0 (Memset.start s c n cpu) :=
    ⟨(BitVec.add_zero s).symm, fun _ hi => wordByte_memsetPattern c hi, .zero ..⟩
  have htop : Memset.AtTop cpu.mem s (low8 c) n.toNat n.toNat (0, Memset.start s c n cpu) :=
    ⟨rfl, rfl, 0, Nat.zero_add _, hfill⟩
  have hreach := Memset.reaches_top htop
  exact CodeStep.ends_of_reaches (hreach.mono fun t ht => ⟨ht.1, written_Iio_iff.mp ht.2.mem⟩)

/-! ### `memset_word` and `memset_dword` -/

/-- The listing of `memset_word` and of `memset_dword`, with the instruction that is repeated. -/
def memsetElements (o : StringOp) : List StringInstr :=
  [.op (.movwFromDs .edx), .op (.movwToEs .edx), .op .cld, .rep o]

/-- The instructions of `memset_word`. -/
def memsetWord : List StringInstr := memsetElements .stosw

/-- The instructions of `memset_dword`. -/
def memsetDword : List StringInstr := memsetElements .stosl

/-- The registers that the compiler loads for them. -/
def memsetElementsStart (s c n : BitVec 32) (cpu : StringCpu) : StringCpu :=
  { cpu with regs := fun r => match r with
      | .eax => c
      | .edi => s
      | .ecx => n
      | r => cpu.regs r }

/-- One listing of `n` elements of `size` bytes. -/
def FillsElements (code : List StringInstr) (size : ℕ) : Prop :=
  ∀ (s c n : BitVec 32) (cpu : StringCpu),
    Ends StringInstr.exec code (memsetElementsStart s c n cpu) fun t =>
      (∀ k < size * n.toNat, t.mem ((addr s).shift k) = wordByte c (k % size)) ∧
        Set.EqOn t.mem cpu.mem ((addr s).span (size * n.toNat))ᶜ

theorem fillsElements {o : StringOp} {size : ℕ} (hsize : size ∣ 2 ^ 32)
    (ho : ∀ c : StringCpu, c.df = false → Stored size 1 c (o.round c)) :
    FillsElements (memsetElements o) size := by
  intro s c n cpu
  have hblock : [Op.movwFromDs .edx, .movwToEs .edx, .cld].map .op <+: (memsetElements o).drop 0 :=
    ⟨_, rfl⟩
  refine CodeStep.ends_of_reaches (StringInstr.reaches_ops hblock ?_)
  set c₁ := StringInstr.applies _ (memsetElementsStart s c n cpu)
  have hstored := StringOp.stored_iterate (c := c₁) hsize ho rfl n.toNat
  exact StringInstr.reaches_rep (o := o) rfl (.refl ⟨rfl, written_Iio_iff.mp hstored.mem⟩)

/-- **The assembly of `memset_word` and `memset_dword` fills** `n` elements, not `n` bytes: the
low two bytes of the value `n` times, or its four bytes. -/
theorem memset_elements_fill : FillsElements memsetWord 2 ∧ FillsElements memsetDword 4 :=
  ⟨fillsElements (by decide) fun _ => StringOp.stored_stosw,
    fillsElements (by decide) fun _ => StringOp.stored_stosl⟩

end Mp3Kernel
