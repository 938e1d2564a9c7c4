import Mathlib.Data.Nat.Find
import Mathlib.Logic.Function.Iterate

/-!
# While loops

A loop with a condition and a body on a state type. `whileLoop` runs it for a number of rounds, and
is `none` when the loop is not at its end then: a loop ends when some number of rounds is enough.

## Main definitions

* `whileLoop`.

## Main results

* `whileLoop_eq_some_iff`: the state at the end is the first iterate of the body at which the
  condition fails.
* `exists_whileLoop_iff`: the loop ends exactly when the condition fails at some iterate.
-/

namespace Transition

variable {σ : Type} (cond : σ → Prop) [DecidablePred cond] (body : σ → σ)

/-- `while (cond(s)) s = body(s)`, when it ends before `fuel` rounds. -/
def whileLoop : ℕ → σ → Option σ
  | 0, _ => none
  | fuel + 1, s => if cond s then whileLoop fuel (body s) else some s

variable {cond body} {fuel : ℕ} {s t : σ}

/-- **The end of a loop** is the first iterate of the body at which the condition fails. -/
theorem whileLoop_eq_some_iff : whileLoop cond body fuel s = some t ↔
    ∃ n < fuel, body^[n] s = t ∧ ¬ cond t ∧ ∀ k < n, cond (body^[k] s) := by
  induction fuel generalizing s with
  | zero => simp [whileLoop]
  | succ fuel ih =>
    rw [whileLoop]
    by_cases hs : cond s
    · rw [if_pos hs, ih]
      constructor
      · rintro ⟨n, hn, ht, hend, hrounds⟩
        refine ⟨n + 1, Nat.succ_lt_succ hn, ht, hend, fun k hk => ?_⟩
        cases k with
        | zero => exact hs
        | succ k => exact hrounds k (Nat.lt_of_succ_lt_succ hk)
      · rintro ⟨n, hn, ht, hend, hrounds⟩
        cases n with
        | zero => exact absurd (ht ▸ hs) hend
        | succ n =>
          exact ⟨n, Nat.lt_of_succ_lt_succ hn, ht, hend,
            fun k hk => hrounds (k + 1) (Nat.succ_lt_succ hk)⟩
    · rw [if_neg hs]
      constructor
      · rintro ⟨⟩
        exact ⟨0, Nat.succ_pos fuel, rfl, hs, fun k hk => absurd hk (Nat.not_lt_zero k)⟩
      · rintro ⟨n, -, rfl, -, hrounds⟩
        cases n with
        | zero => rfl
        | succ n => exact absurd (hrounds 0 (Nat.succ_pos n)) hs

/-- **A loop ends** exactly when the condition fails at some iterate. -/
theorem exists_whileLoop_iff :
    (∃ fuel t, whileLoop cond body fuel s = some t) ↔ ∃ n, ¬ cond (body^[n] s) := by
  constructor
  · rintro ⟨fuel, t, h⟩
    obtain ⟨n, -, rfl, hend, -⟩ := whileLoop_eq_some_iff.mp h
    exact ⟨n, hend⟩
  · intro h
    refine ⟨Nat.find h + 1, body^[Nat.find h] s, whileLoop_eq_some_iff.mpr ?_⟩
    exact ⟨Nat.find h, Nat.lt_succ_self _, rfl, Nat.find_spec h,
      fun k hk => not_not.mp (Nat.find_min h hk)⟩

end Transition
