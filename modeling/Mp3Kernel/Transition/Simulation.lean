import Mp3Kernel.Transition.Run

/-!
# Simulation with stuttering steps

A system in which some actions are actions of another system, and the others leave the related
state of the other system as it is.

## Main definitions

* `Returns`: the steps of a function come back to a state with a property.

## Main results

* `Run.simulates`: a run of the one is a run of the other, without the actions that stutter.
-/

namespace Transition

variable {σ τ α β : Type}

/-- **Simulation.** A step with an action of the other system is a step of it, and any other step
leaves the related state as it is. -/
theorem Run.simulates {step : σ → α → σ → Prop} {step' : τ → β → τ → Prop} {f : α → Option β}
    {R : σ → τ → Prop}
    (hsome : ∀ s a s' t b, R s t → step s a s' → f a = some b → ∃ t', step' t b t' ∧ R s' t')
    (hnone : ∀ s a s' t, R s t → step s a s' → f a = none → R s' t) {s s' : σ} {t : τ}
    {as : List α} (h : Run step s as s') (hR : R s t) :
    ∃ t', Run step' t (as.filterMap f) t' ∧ R s' t' := by
  induction h generalizing t with
  | nil s => exact ⟨t, .nil t, hR⟩
  | @cons s s₁ s' a as hs _ ih =>
    cases hf : f a with
    | none =>
      rw [List.filterMap_cons_none hf]
      exact ih (hnone s a s₁ t hR hs hf)
    | some b =>
      obtain ⟨t₁, hs', hR₁⟩ := hsome s a s₁ t b hR hs hf
      obtain ⟨t', hrun, hR'⟩ := ih hR₁
      rw [List.filterMap_cons_some hf]
      exact ⟨t', .cons hs' hrun, hR'⟩

/-- The steps of a function lead from `s` to a state with `P`, and pass only states with `Q` on the
way. -/
inductive Returns (step : σ → Option σ) (Q P : σ → Prop) : σ → Prop
  | back {s : σ} : P s → Returns step Q P s
  | step {s s' : σ} : Q s → step s = some s' → Returns step Q P s' → Returns step Q P s

theorem Returns.mono {step : σ → Option σ} {Q P P' : σ → Prop} {s : σ} (h : Returns step Q P s)
    (hP : ∀ s, P s → P' s) : Returns step Q P' s := by
  induction h with
  | back h => exact .back (hP _ h)
  | step hQ hs _ ih => exact .step hQ hs ih

end Transition
