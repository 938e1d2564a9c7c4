import Mathlib.Algebra.Group.Nat.Defs

/-!
# Bit fields

A record of bit fields as a list, the first field in the lowest bits, and the number that it packs
into.

## Main definitions

* `Fields`, `Fields.width`, `Fields.pack`.

## Main results

* `Fields.extract_pack`, `Fields.extract_pack_two`: a field, and two fields next to each other, are
  read back from the number.
* `setWidth_masked`: a field selected by a mask and a shift.
-/

namespace BitFields

/-- Bit fields, each with its width. -/
abbrev Fields := List (Σ n : ℕ, BitVec n)

namespace Fields

/-- The number of bits. -/
def width : Fields → ℕ
  | [] => 0
  | f :: l => f.1 + width l

/-- The number that the fields pack into. -/
def pack : Fields → ℕ
  | [] => 0
  | f :: l => f.2.toNat + 2 ^ f.1 * pack l

theorem pack_append (l l' : Fields) : pack (l ++ l') = pack l + 2 ^ width l * pack l' := by
  induction l with
  | nil => simp [pack, width]
  | cons f l ih =>
    rw [List.cons_append, pack, pack, ih, width, Nat.pow_add, Nat.mul_add, Nat.mul_assoc,
      Nat.add_assoc]

theorem pack_lt (l : Fields) : pack l < 2 ^ width l := by
  induction l with
  | nil => exact Nat.one_pos
  | cons f l ih =>
    rw [width, Nat.pow_add, pack]
    have hf := f.2.isLt
    have hmul : 2 ^ f.1 * (pack l + 1) ≤ 2 ^ f.1 * 2 ^ width l := Nat.mul_le_mul_left _ ih
    rw [Nat.mul_succ] at hmul
    omega

/-- What stands behind the first fields, modulo the width of some more. -/
theorem extract_pack_append (l l' l'' : Fields) {w : ℕ} (hw : width (l ++ l' ++ l'') ≤ w) :
    (BitVec.ofNat w (pack (l ++ l' ++ l''))).extractLsb' (width l) (width l') =
      BitVec.ofNat (width l') (pack l') := by
  have hlt : pack (l ++ l' ++ l'') < 2 ^ w :=
    Nat.lt_of_lt_of_le (pack_lt _) (Nat.pow_le_pow_right Nat.two_pos hw)
  apply BitVec.eq_of_toNat_eq
  rw [BitVec.extractLsb'_toNat, BitVec.toNat_ofNat, BitVec.toNat_ofNat, Nat.mod_eq_of_lt hlt,
    List.append_assoc, pack_append, pack_append, Nat.shiftRight_eq_div_pow,
    Nat.add_mul_div_left _ _ (Nat.two_pow_pos _), Nat.div_eq_of_lt (pack_lt l), Nat.zero_add,
    Nat.add_mul_mod_self_left]

/-- **A field** is read back. -/
theorem extract_pack {w n : ℕ} (l : Fields) (i : ℕ) (x : BitVec n)
    (hi : l = l.take i ++ [⟨n, x⟩] ++ l.drop (i + 1)) (hw : width l ≤ w) :
    (BitVec.ofNat w (pack l)).extractLsb' (width (l.take i)) n = x := by
  have h := extract_pack_append (l.take i) [⟨n, x⟩] (l.drop (i + 1)) (hi ▸ hw)
  rw [← hi] at h
  refine Eq.trans h (BitVec.eq_of_toNat_eq ?_)
  show (x.toNat + 2 ^ n * 0) % 2 ^ n = x.toNat
  rw [Nat.mul_zero, Nat.add_zero, Nat.mod_eq_of_lt x.isLt]

/-- **Two fields** next to each other are read back as one. -/
theorem extract_pack_two {w n k : ℕ} (l : Fields) (i : ℕ) (x : BitVec n) (y : BitVec k)
    (hi : l = l.take i ++ [⟨n, x⟩, ⟨k, y⟩] ++ l.drop (i + 2)) (hw : width l ≤ w) :
    (BitVec.ofNat w (pack l)).extractLsb' (width (l.take i)) (k + n) = y ++ x := by
  have h := extract_pack_append (l.take i) [⟨n, x⟩, ⟨k, y⟩] (l.drop (i + 2)) (hi ▸ hw)
  have hwidth : width [⟨n, x⟩, ⟨k, y⟩] = k + n := Nat.add_comm ..
  rw [← hi, hwidth] at h
  refine Eq.trans h (BitVec.eq_of_toNat_eq ?_)
  have hx := x.isLt
  have hlt : pack [⟨n, x⟩, ⟨k, y⟩] < 2 ^ (k + n) := hwidth ▸ pack_lt _
  rw [BitVec.toNat_ofNat, Nat.mod_eq_of_lt hlt, BitVec.toNat_append,
    ← Nat.shiftLeft_add_eq_or_of_lt hx, Nat.shiftLeft_eq, Nat.mul_comm, Nat.add_comm]
  rfl

end Fields

/-! ### Masks -/

/-- The bits that a mask selects and a shift moves to the lowest ones are those of a field. -/
theorem setWidth_masked {w n s : ℕ} (a mask : BitVec w)
    (hmask : mask = (BitVec.allOnes n).setWidth w <<< s) (hw : s + n ≤ w) :
    ((a &&& mask) >>> s).setWidth n = a.extractLsb' s n := by
  refine BitVec.eq_of_getLsbD_eq fun i hi => ?_
  subst hmask
  have hs : s + i < w := by omega
  have hi' : s + i - s = i := by omega
  simp [hi, hs, hi', show i < w by omega]

end BitFields
