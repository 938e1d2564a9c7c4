import Mathlib.Data.Nat.Digits.Lemmas

/-!
# Numerals

A numeral is a list of letters, the most significant digit first. A letter stands for a digit by a
function `val`, and a digit is written by a function `digit`.

## Main definitions

* `value`: the number that a list of letters stands for.
* `IsNumeral`: the list is the numeral of a number, without leading zeros.
* `IsSignedNumeral`: the list is the numeral of an integer, with a sign in front of a negative one.
* `numeral`: the list of the digits of a number, written.

## Main results

* `isNumeral_numeral`: it is the numeral.
* `length_numeral_le`: how long it is.
* `value_replicate_append`: leading zeros do not change the value.
-/

namespace Numerals

variable {α : Type} (digit : ℕ → α) (val : α → ℕ) (b : ℕ)

/-- The number that a list of letters stands for in base `b`. -/
def value (l : List α) : ℕ := l.foldl (fun a c => a * b + val c) 0

/-- The list is the numeral of `n` in base `b`: its letters are digits, it stands for `n`, and only
the numeral of one digit begins with zero. -/
structure IsNumeral (n : ℕ) (l : List α) : Prop where
  ne_nil : l ≠ []
  val_lt : ∀ c ∈ l, val c < b
  value_eq : value val b l = n
  head_ne : ∀ c l', l = c :: l' → val c = 0 → l' = []

/-- The list is the numeral of an integer in base `b`. A negative one has the letter `sign` in
front. -/
inductive IsSignedNumeral (sign : α) : ℤ → List α → Prop
  | natCast {n : ℕ} {l : List α} (h : IsNumeral val b n l) : IsSignedNumeral sign n l
  | neg {n : ℕ} {l : List α} (hn : 0 < n) (h : IsNumeral val b n l) :
    IsSignedNumeral sign (-n) (sign :: l)

/-- The digits of `n` in base `b`, written. -/
def numeral (n : ℕ) : List α := if n = 0 then [digit 0] else (b.digits n).reverse.map digit

variable {digit val b} {n k : ℕ} {z : α}

/-- Leading zeros do not change the value. -/
theorem value_replicate_append (hz : val z = 0) (k : ℕ) (l : List α) :
    value val b (List.replicate k z ++ l) = value val b l := by
  induction k with
  | zero => rfl
  | succ k ih =>
    rw [List.replicate_succ, List.cons_append, value, List.foldl_cons, Nat.zero_mul, Nat.zero_add,
      hz]
    exact ih

theorem numeral_of_ne_zero (h : n ≠ 0) : numeral digit b n = (b.digits n).reverse.map digit :=
  if_neg h

/-- The value of a written list of digits, the least significant first. -/
theorem value_map_reverse (hval : ∀ d < b, val (digit d) = d) {ds : List ℕ}
    (hds : ∀ d ∈ ds, d < b) :
    value val b (ds.reverse.map digit) = Nat.ofDigits b ds := by
  induction ds with
  | nil => rfl
  | cons d ds ih =>
    have ih' := ih fun e he => hds e (List.mem_cons_of_mem d he)
    rw [value] at ih'
    rw [value, List.reverse_cons, List.map_append, List.foldl_append, ih', List.map_singleton,
      List.foldl_cons, List.foldl_nil, hval d (hds d (List.mem_cons_self ..)), Nat.ofDigits_cons,
      Nat.add_comm, Nat.mul_comm]

/-- **The digits written are the numeral.** -/
theorem isNumeral_numeral (hb : 1 < b) (hval : ∀ d < b, val (digit d) = d) (n : ℕ) :
    IsNumeral val b n (numeral digit b n) := by
  have h0 : val (digit 0) = 0 := hval 0 (by omega)
  by_cases hn : n = 0
  · rw [numeral, if_pos hn]
    refine ⟨List.cons_ne_nil _ _, fun c hc => ?_, ?_, fun c l' h _ => (List.cons.inj h).2.symm⟩
    · rw [List.mem_singleton.mp hc, h0]
      omega
    · rw [hn, value, List.foldl_cons, List.foldl_nil, h0, Nat.zero_mul]
  · have hne : b.digits n ≠ [] := Nat.digits_ne_nil_iff_ne_zero.mpr hn
    rw [numeral_of_ne_zero hn]
    refine ⟨?_, fun c hc => ?_, ?_, fun c l' h hc => ?_⟩
    · simpa using hne
    · obtain ⟨d, hd, rfl⟩ := List.mem_map.mp hc
      have hlt := Nat.digits_lt_base hb (List.mem_reverse.mp hd)
      rwa [hval d hlt]
    · rw [value_map_reverse hval fun d hd => Nat.digits_lt_base hb hd, Nat.ofDigits_digits]
    · -- The first letter writes the last digit, which is not zero.
      have hlast := Nat.getLast_digit_ne_zero b hn
      have hsplit := List.dropLast_append_getLast hne
      rw [← hsplit, List.reverse_append, List.reverse_singleton, List.map_append,
        List.map_singleton] at h
      obtain ⟨rfl, -⟩ := List.cons.inj h
      rw [hval _ (Nat.digits_lt_base hb (List.getLast_mem hne))] at hc
      exact absurd hc hlast

theorem length_numeral_le (hb : 1 < b) (hk : 0 < k) (h : n < b ^ k) :
    (numeral digit b n).length ≤ k := by
  rw [numeral]
  split_ifs
  · exact hk
  · rw [List.length_map, List.length_reverse]
    exact (Nat.digits_length_le_iff hb n).mpr h

end Numerals
