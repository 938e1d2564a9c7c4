import Mathlib.Data.Nat.ModEq
import Mathlib.Order.Interval.Set.LinearOrder
import Mp3Kernel.ByteMemory.CString

/-!
# Writes at a set of positions

`Written m m' p S f` says that `m'` is `m` with the bytes at the positions `S` behind `p` replaced
by those of `f`. Two writes compose in either order, so that a loop that goes upwards and one that
goes downwards have the same rule.

## Main definitions

* `Written`.

## Main results

* `Written.union`: the composition of two writes.
* `written_store`, `written_writeBytes`, `written_writeWord`: single writes.
* `written_Iio_iff`, `Written.of_shift`: the write of a range, and of a part of one.
-/

namespace ByteMemory

variable {β : Type} {m m₁ m₂ m' : Mem β} {p : Ptr β} {S T : Set ℕ} {f g : ℕ → UInt8}

/-- Positions are addresses modulo the size of the address space. -/
theorem Ptr.shift_eq_iff {i j : ℕ} : p.shift i = p.shift j ↔ i ≡ j [MOD 2 ^ 32] := by
  rw [Ptr.ext_iff, Nat.ModEq]
  show p.blk = p.blk ∧ p.off + BitVec.ofNat 32 i = p.off + BitVec.ofNat 32 j ↔ _
  rw [and_iff_right rfl, BitVec.add_right_inj, ← BitVec.toNat_inj, BitVec.toNat_ofNat,
    BitVec.toNat_ofNat]

/-- `m'` is `m` with the byte `f k` at each position `k ∈ S` behind `p`. -/
structure Written (m m' : Mem β) (p : Ptr β) (S : Set ℕ) (f : ℕ → UInt8) : Prop where
  /-- The bytes written. -/
  written : ∀ k ∈ S, m' (p.shift k) = f k
  /-- Nothing else changes. -/
  eqOn : Set.EqOn m' m (p.shift '' S)ᶜ

namespace Written

theorem empty (m : Mem β) (p : Ptr β) (f : ℕ → UInt8) : Written m m p ∅ f :=
  ⟨fun _ h => absurd h (Set.notMem_empty _), Set.eqOn_refl ..⟩

/-- **Writes compose**, where they agree on the bytes that both write. -/
theorem union (h : Written m m₁ p S f) (h' : Written m₁ m₂ p T f)
    (hf : ∀ j ∈ S, ∀ k ∈ T, p.shift j = p.shift k → f j = f k) : Written m m₂ p (S ∪ T) f where
  written k hk := by
    by_cases hT : p.shift k ∈ p.shift '' T
    · obtain ⟨j, hj, he⟩ := hT
      rw [← he, h'.written j hj]
      rcases hk with hk | hk
      · exact (hf k hk j hj he.symm).symm
      · rw [← h'.written j hj, he, h'.written k hk]
    · rw [h'.eqOn hT]
      rcases hk with hk | hk
      · exact h.written k hk
      · exact absurd (Set.mem_image_of_mem _ hk) hT
  eqOn q hq := by
    rw [Set.image_union, Set.compl_union] at hq
    rw [h'.eqOn hq.2, h.eqOn hq.1]

/-- Positions of one range are different addresses. -/
theorem union_of_lt (h : Written m m₁ p S f) (h' : Written m₁ m₂ p T f) (hS : S ⊆ Set.Iio (2 ^ 32))
    (hT : T ⊆ Set.Iio (2 ^ 32)) : Written m m₂ p (S ∪ T) f :=
  h.union h' fun j hj k hk he => by rw [(Ptr.shift_inj (hS hj) (hT hk)).mp he]

theorem congr (h : Written m m' p S f) (hfg : ∀ k ∈ S, f k = g k) : Written m m' p S g :=
  ⟨fun k hk => (h.written k hk).trans (hfg k hk), h.eqOn⟩

/-- A byte at none of the positions is as before. -/
theorem of_notMem (h : Written m m' p S f) {q : Ptr β} (hq : ∀ k ∈ S, q ≠ p.shift k) :
    m' q = m q := by
  refine h.eqOn fun hin => ?_
  obtain ⟨k, hk, he⟩ := hin
  exact hq k hk he.symm

end Written

/-! ### Ranges -/

theorem image_shift_Iio (p : Ptr β) (n : ℕ) : p.shift '' Set.Iio n = p.span n := by
  ext q
  constructor
  · rintro ⟨j, hj, rfl⟩
    exact Ptr.shift_mem_span hj
  · intro hq
    obtain ⟨i, hi, -, rfl⟩ := Ptr.exists_shift_of_mem_span hq
    exact ⟨i, hi, rfl⟩

/-- The write of the `n` bytes from `p` on. -/
theorem written_Iio_iff {n : ℕ} : Written m m' p (Set.Iio n) f ↔
    (∀ k < n, m' (p.shift k) = f k) ∧ Set.EqOn m' m (p.span n)ᶜ := by
  rw [← image_shift_Iio]
  exact ⟨fun h => ⟨h.written, h.eqOn⟩, fun h => ⟨h.1, h.2⟩⟩

theorem Written.zero (m : Mem β) (p : Ptr β) (f : ℕ → UInt8) : Written m m p (Set.Iio 0) f :=
  written_Iio_iff.mpr ⟨fun k hk => absurd hk (Nat.not_lt_zero k), Set.eqOn_refl ..⟩

/-- A write behind `p.shift k` is one behind `p`. -/
theorem Written.of_shift {k n : ℕ} (h : Written m m' (p.shift k) (Set.Iio n) f)
    (hf : ∀ j < n, f j = g (k + j)) : Written m m' p (Set.Ico k (k + n)) g where
  written j hj := by
    obtain ⟨i, rfl⟩ := Nat.exists_eq_add_of_le hj.1
    have hi : i < n := Nat.lt_of_add_lt_add_left hj.2
    rw [← hf i hi, ← h.written i hi, Ptr.shift_shift]
  eqOn q hq := h.eqOn fun hin => hq <| by
    obtain ⟨j, hj, rfl⟩ := hin
    exact ⟨k + j, ⟨Nat.le_add_right .., Nat.add_lt_add_left hj k⟩, (Ptr.shift_shift ..).symm⟩

/-! ### Single writes -/

variable [DecidableEq β]

theorem written_store (m : Mem β) (p : Ptr β) (k : ℕ) (f : ℕ → UInt8) :
    Written m (store m (p.shift k) (f k)) p {k} f where
  written j hj := by
    rw [Set.mem_singleton_iff.mp hj, store_self]
  eqOn := by
    rw [Set.image_singleton]
    exact store_eqOn fun hin => hin rfl

theorem written_writeBytes (m : Mem β) (p : Ptr β) {l : List UInt8} {f : ℕ → UInt8}
    (hl : l.length ≤ 2 ^ 32) (hf : ∀ (i : ℕ) (hi : i < l.length), f i = l[i]) :
    Written m (writeBytes m p l) p (Set.Iio l.length) f := by
  refine written_Iio_iff.mpr ⟨fun i hi => ?_, writeBytes_eqOn ..⟩
  rw [hf i hi]
  exact writeBytes_shift m p l hl hi

theorem written_writeWord (m : Mem β) (p : Ptr β) (w : BitVec 32) :
    Written m (writeWord m p w) p (Set.Iio 4) (wordByte w) := by
  refine written_writeBytes m p (l := wordBytes w) (by rw [length_wordBytes]; omega) fun i hi => ?_
  rw [length_wordBytes] at hi
  match i, hi with
  | 0, _ => rfl
  | 1, _ => rfl
  | 2, _ => rfl
  | 3, _ => rfl

end ByteMemory
