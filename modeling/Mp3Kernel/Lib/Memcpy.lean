import Mp3Kernel.Lib.Strings
import Mp3Kernel.Machine.Cpu

/-!
# The assembly of `memcpy`

The listing of `memcpy`, run on the machine from the registers that the compiler loads: the
destination in `edi`, the source in `esi` and the count in `ecx`. The three loops of the listing are
those of the functions in `Lib.Strings`, and a complete run leaves the memory that `memcpy` leaves.

## Main definitions

* `Memcpy.listing`.

## Main results

* `Memcpy.reaches_done`: the listing does what the function `memcpy` does, on every machine.
* `memcpy_listing_copies`: on ranges that do not meet, it ends with the range copied and nothing
  else changed.

Source: `lib.c`, lines 440–484.
-/

namespace Mp3Kernel

open ByteMemory X86 Transition

namespace Memcpy

/-- The label `.memcpy_top`. -/
def top : ℕ := 0

/-- The label `.memcpy_aligned`. -/
def aligned : ℕ := 10

/-- The position of `rep movsl`. -/
def rep : ℕ := 16

/-- The label `.memcpy_bottom`. -/
def bottom : ℕ := 17

/-- The label `.memcpy_done`. -/
def done : ℕ := 25

/-- The instructions of `memcpy`. -/
def listing : List Move :=
  [ -- `.memcpy_top`
    .op (.testl .ecx .ecx),
    .jz done,
    .op (.testlImm 3#32 .edi),
    .jz aligned,
    .op (.movbFrom .esi),
    .op (.movbTo .edi),
    .op (.addl 1#32 .edi),
    .op (.addl 1#32 .esi),
    .op (.subl 1#32 .ecx),
    .jmp top,
    -- `.memcpy_aligned`
    .op (.movwFromDs .edx),
    .op (.movwToEs .edx),
    .op (.movl .ecx .edx),
    .op (.shrl 2 .ecx),
    .op (.andl 3#32 .edx),
    .op .cld,
    .repMovsl,
    -- `.memcpy_bottom`
    .op (.testl .edx .edx),
    .jz done,
    .op (.movbFrom .esi),
    .op (.movbTo .edi),
    .op (.addl 1#32 .edi),
    .op (.addl 1#32 .esi),
    .op (.subl 1#32 .edx),
    .jmp bottom ]

/-- The block of both byte loops: one byte copied, with the count in `r`. -/
def copyByte (r : Reg) : List Op :=
  [.movbFrom .esi, .movbTo .edi, .addl 1#32 .edi, .addl 1#32 .esi, .subl 1#32 r]

/-- The block in front of `rep movsl`: the segments, the two counts and the direction. -/
def prepare : List Op :=
  [.movwFromDs .edx, .movwToEs .edx, .movl .ecx .edx, .shrl 2 .ecx, .andl 3#32 .edx, .cld]

/-! ### The blocks -/

variable {c : Cpu}

theorem effects_copyByte {r : Reg} (hr : r = .ecx ∨ r = .edx) :
    (effects (copyByte r) c).regs r = c.regs r - 1#32 ∧
      (effects (copyByte r) c).regs .edi = c.regs .edi + 1#32 ∧
      (effects (copyByte r) c).regs .esi = c.regs .esi + 1#32 ∧
      (effects (copyByte r) c).mem =
        store c.mem (addr (c.regs .edi)) (c.mem (addr (c.regs .esi))) := by
  have hmem : store c.mem (addr (c.regs .edi))
        (low8 (setLow8 (c.regs .eax) (c.mem (addr (c.regs .esi))))) =
      store c.mem (addr (c.regs .edi)) (c.mem (addr (c.regs .esi))) := by
    rw [low8_setLow8]
  rcases hr with rfl | rfl
  · exact ⟨rfl, rfl, rfl, hmem⟩
  · exact ⟨rfl, rfl, rfl, hmem⟩

theorem effects_prepare : (effects prepare c).regs .ecx = c.regs .ecx >>> 2 ∧
    (effects prepare c).regs .edx = c.regs .ecx &&& 3#32 ∧
    (effects prepare c).regs .edi = c.regs .edi ∧ (effects prepare c).regs .esi = c.regs .esi ∧
    (effects prepare c).df = false ∧ (effects prepare c).mem = c.mem :=
  ⟨rfl, rfl, rfl, rfl, rfl, rfl⟩

/-! ### The loops

Each loop has its invariant: what the function in `Lib.Strings` makes of the memory, the pointers
and the count of a round is the memory at the end. -/

/-- The count that is left after one of `n + 1`. -/
theorem toNat_sub_one {v : BitVec 32} {n : ℕ} (h : v.toNat = n + 1) : (v - 1#32).toNat = n := by
  have hle : 1#32 ≤ v := by
    rw [BitVec.le_def, h]
    exact Nat.le_add_left 1 n
  rw [BitVec.toNat_sub_of_le hle, h]
  rfl

theorem ne_zero_of_toNat {v : BitVec 32} {n : ℕ} (h : v.toNat = n + 1) : v ≠ 0#32 := by
  rintro rfl
  cases h

/-- The state behind the listing, with the memory `m'`. -/
def DoneWith (m' : Mem Unit) (s : ℕ × Cpu) : Prop := s.1 = done ∧ s.2.mem = m'

/-- At `.memcpy_bottom`, with `n` bytes left. -/
structure AtBottom (m' : Mem Unit) (n : ℕ) (s : ℕ × Cpu) : Prop where
  pos : s.1 = bottom
  count : (s.2.regs .edx).toNat = n
  mem : copyBytes s.2.mem n (addr (s.2.regs .edi)) (addr (s.2.regs .esi)) = m'

/-- At `rep movsl`, with `n` double words left. -/
structure AtRep (m' : Mem Unit) (n : ℕ) (s : ℕ × Cpu) : Prop where
  pos : s.1 = rep
  forward : s.2.df = false
  count : (s.2.regs .ecx).toNat = n
  mem : copyBytes (repMovsl s.2.mem n (addr (s.2.regs .edi)) (addr (s.2.regs .esi)))
    (s.2.regs .edx).toNat ((addr (s.2.regs .edi)).shift (4 * n))
    ((addr (s.2.regs .esi)).shift (4 * n)) = m'

/-- At `.memcpy_top`, with `n` bytes left. -/
structure AtTop (m' : Mem Unit) (n : ℕ) (s : ℕ × Cpu) : Prop where
  pos : s.1 = top
  count : (s.2.regs .ecx).toNat = n
  mem : memcpyTop s.2.mem n (addr (s.2.regs .edi)) (addr (s.2.regs .esi)) = m'

variable {m' : Mem Unit} {n : ℕ} {s : ℕ × Cpu}

theorem reaches_bottom (h : AtBottom m' n s) :
    Reaches (CodeStep Move.exec listing) s (DoneWith m') := by
  refine Reaches.loop ?_ ?_ h
  · rintro ⟨_, c⟩ ⟨rfl, hn, hmem⟩
    have h0 : c.regs .edx = 0#32 := BitVec.eq_of_toNat_eq hn
    refine Move.reaches_testl_jz rfl rfl (fun _ => ?_) fun hne => absurd h0 hne
    exact .refl ⟨rfl, hmem⟩
  · rintro n ⟨_, c⟩ ⟨rfl, hn, hmem⟩
    refine Move.reaches_testl_jz rfl rfl (fun h => absurd h (ne_zero_of_toNat hn)) fun _ => ?_
    obtain ⟨hcount, hdest, hsrc, hstore⟩ :=
      effects_copyByte (c := (Op.testl .edx .edx).effect c) (r := .edx) (.inr rfl)
    have hblock : (copyByte .edx).map .op <+: listing.drop (bottom + 2) := ⟨_, rfl⟩
    refine Move.reaches_ops hblock (Move.reaches_jmp rfl (.refl (.inr ⟨rfl, ?_, ?_⟩)))
    · rw [hcount]
      exact toNat_sub_one hn
    · rw [hdest, hsrc, hstore]
      exact hmem

/-- `rep movsl` goes on to `.memcpy_bottom`. -/
theorem reaches_rep (h : AtRep m' n s) : Reaches (CodeStep Move.exec listing) s (DoneWith m') := by
  refine Reaches.loop ?_ ?_ h
  · rintro ⟨_, c⟩ ⟨rfl, -, hn, hmem⟩
    refine Move.reaches_rep_zero rfl (BitVec.eq_of_toNat_eq hn) (reaches_bottom ⟨rfl, rfl, ?_⟩)
    rwa [Nat.mul_zero, Ptr.shift_zero, Ptr.shift_zero] at hmem
  · rintro n ⟨_, c⟩ ⟨rfl, hdf, hn, hmem⟩
    obtain ⟨hstore, hdest, hsrc, -, hrest, hdf'⟩ := Cpu.movsl_of_forward hdf
    have hstep : 4 * (n + 1) = 4 + 4 * n := Nat.add_comm ..
    rw [hstep, ← Ptr.shift_shift, ← Ptr.shift_shift] at hmem
    refine Move.reaches_rep rfl (ne_zero_of_toNat hn)
      (.refl (.inr ⟨rfl, hdf', toNat_sub_one hn, ?_⟩))
    show copyBytes (repMovsl c.movsl.mem n (addr (c.movsl.regs .edi)) (addr (c.movsl.regs .esi)))
      (c.movsl.regs .edx).toNat ((addr (c.movsl.regs .edi)).shift (4 * n))
      ((addr (c.movsl.regs .esi)).shift (4 * n)) = m'
    rw [hstore, hdest, hsrc, hrest]
    exact hmem

/-- `.memcpy_aligned` splits the count into double words and single bytes. -/
theorem reaches_aligned {c : Cpu} (hmem : memcpyAligned c.mem (c.regs .ecx).toNat
    (addr (c.regs .edi)) (addr (c.regs .esi)) = m') :
    Reaches (CodeStep Move.exec listing) (aligned, c) (DoneWith m') := by
  obtain ⟨hwords, hbytes, hdest, hsrc, hdf, hstore⟩ := effects_prepare (c := c)
  have hdiv : (c.regs .ecx >>> 2).toNat = (c.regs .ecx).toNat / 4 := by
    rw [BitVec.toNat_ushiftRight, Nat.shiftRight_eq_div_pow]
  have hmod : (c.regs .ecx &&& 3#32).toNat = (c.regs .ecx).toNat % 4 := by
    rw [BitVec.toNat_and]
    exact Nat.and_two_pow_sub_one_eq_mod _ 2
  have hblock : prepare.map .op <+: listing.drop aligned := ⟨_, rfl⟩
  refine Move.reaches_ops hblock (reaches_rep ⟨rfl, hdf, rfl, ?_⟩)
  show copyBytes (repMovsl (effects prepare c).mem ((effects prepare c).regs .ecx).toNat
    (addr ((effects prepare c).regs .edi)) (addr ((effects prepare c).regs .esi)))
    ((effects prepare c).regs .edx).toNat _ _ = m'
  rw [hstore, hdest, hsrc, hwords, hbytes, hdiv, hmod]
  exact hmem

/-- The mask of the test for an aligned destination. -/
theorem and_three_eq_zero_iff (v : BitVec 32) :
    v &&& 3#32 = 0#32 ↔ (addr v).off.toNat % 4 = 0 := by
  rw [← BitVec.toNat_inj, BitVec.toNat_and]
  exact Eq.congr (Nat.and_two_pow_sub_one_eq_mod _ 2) rfl

theorem reaches_top (h : AtTop m' n s) : Reaches (CodeStep Move.exec listing) s (DoneWith m') := by
  refine Reaches.loop ?_ ?_ h
  · rintro ⟨_, c⟩ ⟨rfl, hn, hmem⟩
    have h0 : c.regs .ecx = 0#32 := BitVec.eq_of_toNat_eq hn
    refine Move.reaches_testl_jz rfl rfl (fun _ => ?_) fun hne => absurd h0 hne
    exact .refl ⟨rfl, hmem⟩
  · rintro n ⟨_, c⟩ ⟨rfl, hn, hmem⟩
    dsimp only at hn hmem
    refine Move.reaches_testl_jz rfl rfl (fun h => absurd h (ne_zero_of_toNat hn)) fun _ => ?_
    refine Move.reaches_testlImm_jz rfl rfl (fun hal => ?_) fun hal => ?_
    · have hmod : (addr (c.regs .edi)).off.toNat % 4 = 0 := (and_three_eq_zero_iff _).mp hal
      rw [memcpyTop, if_pos hmod, ← hn] at hmem
      refine Reaches.mono (P := DoneWith m') (reaches_aligned ?_) fun _ => .inl
      exact hmem
    · have hmod : ¬(addr (c.regs .edi)).off.toNat % 4 = 0 := fun h =>
        hal ((and_three_eq_zero_iff _).mpr h)
      rw [memcpyTop, if_neg hmod] at hmem
      obtain ⟨hcount, hdest, hsrc, hstore⟩ := effects_copyByte (r := .ecx) (.inl rfl)
        (c := (Op.testlImm 3#32 .edi).effect ((Op.testl .ecx .ecx).effect c))
      have hblock : (copyByte .ecx).map .op <+: listing.drop (top + 2 + 2) := ⟨_, rfl⟩
      refine Move.reaches_ops hblock (Move.reaches_jmp rfl (.refl (.inr ⟨rfl, ?_, ?_⟩)))
      · rw [hcount]
        exact toNat_sub_one hn
      · rw [hdest, hsrc, hstore]
        exact hmem

/-- **The listing is the function.** On every machine, it comes to its end with the memory that
`memcpy` leaves. -/
theorem reaches_done (c : Cpu) : Reaches (CodeStep Move.exec listing) (top, c) (DoneWith
    (memcpy c.mem (addr (c.regs .edi)) (addr (c.regs .esi)) (c.regs .ecx).toNat)) :=
  reaches_top ⟨rfl, rfl, rfl⟩

theorem stuck_of_doneWith (h : DoneWith m' s) : Stuck (CodeStep Move.exec listing) s := by
  obtain ⟨pos, c⟩ := s
  obtain ⟨rfl, -⟩ := h
  exact CodeStep.stuck_length c

end Memcpy

variable {c : Cpu}

/-- **The assembly copies.** On ranges that do not meet, for every alignment of both, every run
comes to the end of the listing, where the destination holds what the source held and nothing else
is changed. -/
theorem memcpy_listing_copies
    (hd : Disjoint ((addr (c.regs .esi)).span (c.regs .ecx).toNat)
      ((addr (c.regs .edi)).span (c.regs .ecx).toNat)) :
    ∃ as t, Run (CodeStep Move.exec Memcpy.listing) (Memcpy.top, c) as t ∧
      (t.1 = Memcpy.done ∧
        Copied c.mem t.2.mem (addr (c.regs .edi)) (addr (c.regs .esi)) (c.regs .ecx).toNat) ∧
      ∀ bs u, Run (CodeStep Move.exec Memcpy.listing) (Memcpy.top, c) bs u →
        ∃ cs, bs ++ cs = as ∧ Run (CodeStep Move.exec Memcpy.listing) u cs t := by
  have hn : (c.regs .ecx).toNat ≤ 2 ^ 32 := (c.regs .ecx).isLt.le
  obtain ⟨as, t, hrun, ⟨hpos, hmem⟩, hall⟩ :=
    (Memcpy.reaches_done c).complete CodeStep.deterministic fun _ => Memcpy.stuck_of_doneWith
  refine ⟨as, t, hrun, ⟨hpos, ?_⟩, hall⟩
  rw [hmem]
  exact copied_memcpy hn hd

/-- A machine about to copy nine bytes to an odd address. -/
def memcpyCall : Cpu where
  regs := fun r => match r with
    | .edi => 0x1001#32
    | .esi => 0x2002#32
    | .ecx => 9#32
    | _ => 0#32
  zf := false
  sf := false
  ovf := false
  mem := fun p => UInt8.ofNat p.off.toNat
  ds := 0x18#16
  es := 0#16
  df := true

theorem memcpy_listing_copies_nine :
    ∃ as t, Run (CodeStep Move.exec Memcpy.listing) (Memcpy.top, memcpyCall) as t ∧
      (t.1 = Memcpy.done ∧ Copied memcpyCall.mem t.2.mem (addr 0x1001#32) (addr 0x2002#32) 9) ∧
      ∀ bs u, Run (CodeStep Move.exec Memcpy.listing) (Memcpy.top, memcpyCall) bs u →
        ∃ cs, bs ++ cs = as ∧ Run (CodeStep Move.exec Memcpy.listing) u cs t :=
  memcpy_listing_copies (c := memcpyCall)
    (Ptr.disjoint_span_shift (p := addr 0x1001#32) (i := 0) (j := 0x1001) (n := 9) (k := 9)
      (by decide) (by decide)).symm

end Mp3Kernel
