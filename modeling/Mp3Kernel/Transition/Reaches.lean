import Mathlib.Data.Nat.Notation
import Mp3Kernel.Transition.Run

/-!
# Runs that reach a postcondition

`Reaches step s Q` says that some run from `s` ends in a state with the property `Q`. In a
deterministic system in which these states are stuck, every run that cannot be continued ends in
one, so that the rules here are those of total correctness.

## Main definitions

* `Reaches`.

## Main results

* `Reaches.head`, `Reaches.trans`, `Reaches.mono`: one step, composition, consequence.
* `Reaches.loop`: a loop whose body lowers a counter.
* `Reaches.complete`: the complete runs of a deterministic system.
-/

namespace Transition

variable {σ α : Type}

/-- Some run from `s` ends in a state with the property `Q`. -/
def Reaches (step : σ → α → σ → Prop) (s : σ) (Q : σ → Prop) : Prop :=
  ∃ as t, Run step s as t ∧ Q t

namespace Reaches

variable {step : σ → α → σ → Prop} {s t : σ} {a : α} {P Q : σ → Prop}

theorem refl (h : Q s) : Reaches step s Q :=
  ⟨[], s, .nil s, h⟩

/-- **The rule for a step.** -/
theorem head (hs : step s a t) (h : Reaches step t Q) : Reaches step s Q := by
  obtain ⟨as, u, hrun, hu⟩ := h
  exact ⟨a :: as, u, .cons hs hrun, hu⟩

/-- **The rule of composition.** -/
theorem trans (h : Reaches step s P) (hP : ∀ t, P t → Reaches step t Q) : Reaches step s Q := by
  obtain ⟨as, t, hrun, ht⟩ := h
  obtain ⟨bs, u, hrun', hu⟩ := hP t ht
  exact ⟨as ++ bs, u, hrun.append hrun', hu⟩

/-- **The rule of consequence.** -/
theorem mono (h : Reaches step s P) (hPQ : ∀ t, P t → Q t) : Reaches step s Q :=
  h.trans fun t ht => refl (hPQ t ht)

/-- **The rule for loops.** A body that lowers the counter of the invariant, or leaves the loop for
`Q`, comes to `Q`. -/
theorem loop {I : ℕ → σ → Prop} (hzero : ∀ s, I 0 s → Reaches step s Q)
    (hsucc : ∀ n s, I (n + 1) s → Reaches step s fun t => Q t ∨ I n t) {n : ℕ} (h : I n s) :
    Reaches step s Q := by
  induction n generalizing s with
  | zero => exact hzero s h
  | succ n ih => exact (hsucc n s h).trans fun t ht => ht.elim refl ih

/-- **Total correctness.** Where there is at most one step from each state and none from those with
`Q`, every run is a beginning of one that ends in a state with `Q`. -/
theorem complete (hdet : ∀ s a t b u, step s a t → step s b u → a = b ∧ t = u)
    (hQ : ∀ t, Q t → Stuck step t) (h : Reaches step s Q) :
    ∃ as t, Run step s as t ∧ Q t ∧
      ∀ bs u, Run step s bs u → ∃ cs, bs ++ cs = as ∧ Run step u cs t := by
  obtain ⟨as, t, hrun, ht⟩ := h
  exact ⟨as, t, hrun, ht, fun bs u hrun' => hrun.exists_append_of_stuck hdet (hQ t ht) hrun'⟩

end Reaches

end Transition
