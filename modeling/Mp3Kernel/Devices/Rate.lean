import Mathlib.Algebra.Order.Group.Nat
import Mathlib.Algebra.Ring.Int.Defs
import Mp3Kernel.Transition.While

/-!
# The rate of the real-time clock

`getRate` turns a frequency into the rate of the clock by halving it until it is 2. A number whose
binary form begins with 10 comes to 2, and so does every power of two. One whose form begins with 11
comes to 3 and then to 1 and 0, where the loop stays.

## Main definitions

* `getRate`: the function, as far as it comes in a number of rounds.
* `MeetsRate`: it ends, and with the rate of the frequency when this is a power of two.

## Main results

* `exists_getRate_iff`: when the loop ends.
* `meetsRate_iff`: when the function does what it should.

Source: `RTC.c`, lines 55–71.
-/

namespace Mp3Kernel

open Transition

/-- The check of `getRate`. -/
def RateRejects (freq : BitVec 32) : Prop := freq.toInt < 2 ∨ 1024 < freq.toInt

instance : DecidablePred RateRejects := fun _ => inferInstanceAs (Decidable (_ ∨ _))

/-- One round of the loop of `getRate`, on `freq` and `ret`. -/
def getRateRound (s : BitVec 32 × BitVec 32) : BitVec 32 × BitVec 32 :=
  (s.1.sdiv 2#32, s.2 - 1#32)

/-- `int32_t getRate(int32_t freq)`, when the loop ends before `fuel` rounds. -/
def getRate (fuel : ℕ) (freq : BitVec 32) : Option (BitVec 32) :=
  if RateRejects freq then some (-1#32)
  else (whileLoop (fun s => s.1 ≠ 2#32) getRateRound fuel (freq, 0x0F#32)).map Prod.snd

/-- The function ends, and the rate of a frequency that it accepts and that is a power of two is the
one of this frequency. -/
def MeetsRate (freq : BitVec 32) : Prop :=
  (∃ fuel r, getRate fuel freq = some r) ∧
    ∀ fuel r j, getRate fuel freq = some r → ¬ RateRejects freq → freq.toInt = 2 ^ j →
      32768 / 2 ^ (r.toInt - 1).toNat = freq.toInt

/-! ### The loop -/

variable {freq r : BitVec 32} {fuel f : ℕ}

/-- `freq` and `ret` after `k` rounds. -/
theorem iterate_getRateRound (hf : freq.toInt = f) (k : ℕ) :
    (getRateRound^[k] (freq, 0x0F#32)).1.toInt = (f / 2 ^ k : ℕ) ∧
      (getRateRound^[k] (freq, 0x0F#32)).2 = 0x0F#32 - BitVec.ofNat 32 k := by
  induction k with
  | zero =>
    refine ⟨?_, rfl⟩
    rw [Nat.pow_zero, Nat.div_one]
    exact hf
  | succ k ih =>
    obtain ⟨hfreq, hret⟩ := ih
    rw [Function.iterate_succ_apply']
    refine ⟨?_, ?_⟩
    · rw [getRateRound, BitVec.toInt_sdiv_of_ne_or_ne _ _ (.inr (by decide)), hfreq, Nat.pow_succ,
        ← Nat.div_div_eq_div_mul]
      rfl
    · rw [getRateRound, hret, BitVec.sub_sub, BitVec.ofNat_add]

theorem iterate_getRateRound_eq_two_iff (hf : freq.toInt = f) (k : ℕ) :
    (getRateRound^[k] (freq, 0x0F#32)).1 = 2#32 ↔ f / 2 ^ k = 2 := by
  rw [← BitVec.toInt_inj, (iterate_getRateRound hf k).1]
  exact Int.ofNat_inj

/-- Halving comes to 2 for the numbers whose two leading bits are 10. -/
theorem div_two_pow_eq_two_iff {k : ℕ} : f / 2 ^ k = 2 ↔ 2 * 2 ^ k ≤ f ∧ f < 3 * 2 ^ k := by
  have hpos : 0 < 2 ^ k := Nat.two_pow_pos k
  rw [Nat.div_eq_iff hpos]
  omega

/-- **The loop ends** exactly for these numbers. -/
theorem exists_getRate_iff (hf : freq.toInt = f) (hacc : ¬ RateRejects freq) :
    (∃ fuel r, getRate fuel freq = some r) ↔ ∃ k, 2 * 2 ^ k ≤ f ∧ f < 3 * 2 ^ k := by
  have hloop : (∃ fuel r, getRate fuel freq = some r) ↔
      ∃ fuel s, whileLoop (fun s => s.1 ≠ 2#32) getRateRound fuel (freq, 0x0F#32) = some s := by
    simp only [getRate, if_neg hacc, Option.map_eq_some_iff]
    refine exists_congr fun fuel => ⟨?_, ?_⟩
    · rintro ⟨-, s, h, -⟩
      exact ⟨s, h⟩
    · rintro ⟨s, h⟩
      exact ⟨_, s, h, rfl⟩
  rw [hloop, exists_whileLoop_iff]
  refine exists_congr fun k => ?_
  rw [not_not, iterate_getRateRound_eq_two_iff hf, div_two_pow_eq_two_iff]

/-- What is returned for a number that is accepted. -/
theorem eq_of_getRate (hf : freq.toInt = f) (hacc : ¬ RateRejects freq)
    (h : getRate fuel freq = some r) : ∃ n, f / 2 ^ n = 2 ∧ r = 0x0F#32 - BitVec.ofNat 32 n := by
  rw [getRate, if_neg hacc] at h
  obtain ⟨s, hs, rfl⟩ := Option.map_eq_some_iff.mp h
  obtain ⟨n, -, rfl, hend, -⟩ := whileLoop_eq_some_iff.mp hs
  refine ⟨n, (iterate_getRateRound_eq_two_iff hf n).mp (not_not.mp hend), ?_⟩
  exact (iterate_getRateRound hf n).2

/-- **The rate of a power of two.** -/
theorem rate_of_pow_two {j : ℕ} (hf : freq.toInt = (2 ^ j : ℕ)) (hacc : ¬ RateRejects freq)
    (h : getRate fuel freq = some r) : 32768 / 2 ^ (r.toInt - 1).toNat = freq.toInt := by
  obtain ⟨n, hn, rfl⟩ := eq_of_getRate hf hacc h
  obtain ⟨hle, -⟩ := div_two_pow_eq_two_iff.mp hn
  have hj : j ≤ 10 := by
    have hmax : 2 ^ j ≤ 2 ^ 10 := by
      rw [RateRejects, hf] at hacc
      omega
    exact (Nat.pow_le_pow_iff_right (by omega)).mp hmax
  have hnj : j = n + 1 := by
    have hlow : n ≤ j := (Nat.pow_le_pow_iff_right (a := 2) (by omega)).mp (by omega)
    rw [Nat.pow_div hlow (by omega)] at hn
    have hone : j - n = 1 := Nat.pow_right_injective le_rfl (hn.trans (Nat.pow_one 2).symm)
    omega
  have hrate : (0x0F#32 - BitVec.ofNat 32 n).toInt - 1 = (14 - n : ℕ) := by
    rw [BitVec.toInt_eq_toNat_cond]
    have hsub : (0x0F#32 - BitVec.ofNat 32 n).toNat = 15 - n := by bv_omega
    rw [hsub, if_pos (by omega)]
    omega
  rw [hf, hrate, Int.toNat_natCast, hnj]
  have hdiv : 2 ^ 15 / 2 ^ (14 - n) = 2 ^ (15 - (14 - n)) := Nat.pow_div (by omega) (by omega)
  have hsum : 15 - (14 - n) = n + 1 := by omega
  rw [hsum] at hdiv
  rw [← hdiv, Int.natCast_ediv, Int.natCast_pow, Int.natCast_pow]
  rfl

/-- **The function does what it should** for the numbers that it rejects and for those whose two
leading bits are 10. -/
theorem meetsRate_iff (freq : BitVec 32) : MeetsRate freq ↔
    RateRejects freq ∨ ∃ k, 2 * 2 ^ k ≤ freq.toNat ∧ freq.toNat < 3 * 2 ^ k := by
  by_cases hrej : RateRejects freq
  · refine iff_of_true ⟨⟨0, -1#32, if_pos hrej⟩, fun _ _ _ _ hacc => absurd hrej hacc⟩ (.inl hrej)
  · have hf : freq.toInt = freq.toNat := by
      rw [RateRejects, BitVec.toInt_eq_toNat_cond] at hrej
      rw [BitVec.toInt_eq_toNat_cond]
      have hlt := freq.isLt
      split_ifs at hrej ⊢ with h
      · rfl
      · omega
    rw [MeetsRate, exists_getRate_iff hf hrej, or_iff_right hrej]
    refine and_iff_left fun fuel r j h _ hj => rate_of_pow_two (j := j) ?_ hrej h
    rw [hj]
    exact (Int.natCast_pow 2 j).symm

/-- The rate that `rtc_init` sets. -/
example : getRate 10 1024#32 = some 6#32 := by decide

/-- For the frequency 3 the loop does not end. -/
theorem not_exists_getRate_three : ¬ RateRejects 3#32 ∧ ¬ ∃ fuel r, getRate fuel 3#32 = some r := by
  have hrej : ¬ RateRejects 3#32 := by decide
  refine ⟨hrej, fun h => ?_⟩
  obtain ⟨k, hle, hlt⟩ := (exists_getRate_iff (f := 3) rfl hrej).mp h
  have hpos : 0 < 2 ^ k := Nat.two_pow_pos k
  omega

end Mp3Kernel
