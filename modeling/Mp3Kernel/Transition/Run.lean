/-!
# Runs of a labelled transition system

A transition system is a relation `step s a t`: action `a` can take state `s` to state `t`. A run
is a finite sequence of steps with its actions.

## Main definitions

* `Run step s as t`: the actions `as` can take `s` to `t`.
* `Guarded ok step`: the steps of `step` whose source and action satisfy `ok`.
* `Ensured step post`: the steps of `step` that have the property `post`.
* `Stuck step s`: no step leads out of `s`.

## Main results

* `Run.invariant`: what every step preserves holds after every run; `Run.fold_invariant`: the same
  with a value computed from the actions so far.
* `Run.append`, `Run.mono`: runs compose, and grow with the step relation.
* `Run.strengthen`: an invariant under which every step has a further property;
  `Run.ensured_iff_guarded`: a condition under which it has.
* `Run.exists_append_of_stuck`, `Run.eq_of_stuck`: in a deterministic system every run is a
  beginning of a complete one, and there is one complete run.
-/

namespace Transition

variable {σ α : Type}

/-- The actions of the list, one after the other, can take `s` to the last state. -/
inductive Run (step : σ → α → σ → Prop) : σ → List α → σ → Prop
  | nil (s : σ) : Run step s [] s
  | cons {s t u : σ} {a : α} {as : List α} :
      step s a t → Run step t as u → Run step s (a :: as) u

/-- The steps whose source and action satisfy `ok`. -/
def Guarded (ok : σ → α → Prop) (step : σ → α → σ → Prop) (s : σ) (a : α) (t : σ) : Prop :=
  ok s a ∧ step s a t

/-- The steps that have a further property. -/
def Ensured (step post : σ → α → σ → Prop) (s : σ) (a : α) (t : σ) : Prop :=
  step s a t ∧ post s a t

/-- No step leads out of the state. -/
def Stuck (step : σ → α → σ → Prop) (s : σ) : Prop := ∀ a t, ¬ step s a t

namespace Run

variable {step step' post : σ → α → σ → Prop} {s t u : σ} {as bs : List α} {a : α}

theorem single (h : step s a t) : Run step s [a] t :=
  .cons h (.nil t)

theorem append (h : Run step s as t) (h' : Run step t bs u) : Run step s (as ++ bs) u := by
  induction h with
  | nil => exact h'
  | cons hs _ ih => exact .cons hs (ih h')

theorem mono (hle : ∀ s a t, step s a t → step' s a t) (h : Run step s as t) :
    Run step' s as t := by
  induction h with
  | nil => exact .nil _
  | cons hs _ ih => exact .cons (hle _ _ _ hs) ih

/-- **The invariant rule.** What every step preserves holds after every run. -/
theorem invariant {P : σ → Prop} (hstep : ∀ s a t, P s → step s a t → P t)
    (h : Run step s as t) (hs : P s) : P t := by
  induction h with
  | nil => exact hs
  | cons h _ ih => exact ih (hstep _ _ _ hs h)

/-- **The invariant rule with a ghost value** that the actions of the run determine. -/
theorem fold_invariant {γ : Type} {P : σ → γ → Prop} {f : γ → α → γ} {g : γ}
    (hstep : ∀ s a t g, P s g → step s a t → P t (f g a)) (h : Run step s as t) (hs : P s g) :
    P t (as.foldl f g) := by
  induction h generalizing g with
  | nil => exact hs
  | cons h _ ih => exact ih (hstep _ _ _ _ hs h)

/-- **The invariant rule with the actions so far.** -/
theorem trace_invariant {P : σ → List α → Prop}
    (hstep : ∀ s a t as, P s as → step s a t → P t (as ++ [a])) (h : Run step s as t)
    (hs : P s bs) : P t (bs ++ as) := by
  induction h generalizing bs with
  | nil =>
    rw [List.append_nil]
    exact hs
  | cons h _ ih =>
    rw [List.append_cons]
    exact ih (hstep _ _ _ _ hs h)

/-- **The rule for properties of steps.** Where an invariant gives every step a further property,
the steps of a run have it. -/
theorem strengthen {P : σ → Prop} (hstep : ∀ s a t, P s → step s a t → post s a t ∧ P t)
    (h : Run step s as t) (hs : P s) : Run (Ensured step post) s as t := by
  induction h with
  | nil => exact .nil _
  | cons h _ ih =>
    obtain ⟨h', ht⟩ := hstep _ _ _ hs h
    exact .cons ⟨h, h'⟩ (ih ht)

/-- **The rule for conditions of steps.** Where a condition on its source and action decides whether
a step has the further property, it does so for runs. -/
theorem ensured_iff_guarded {ok : σ → α → Prop}
    (hstep : ∀ s a t, step s a t → (post s a t ↔ ok s a)) :
    Run (Ensured step post) s as t ↔ Run (Guarded ok step) s as t := by
  constructor
  · exact mono fun s a t h => ⟨(hstep s a t h.1).mp h.2, h.1⟩
  · exact mono fun s a t h => ⟨h.2, (hstep s a t h.2).mpr h.1⟩

/-- **Deterministic systems.** Every run is a beginning of one that cannot be continued. -/
theorem exists_append_of_stuck (hdet : ∀ s a t b u, step s a t → step s b u → a = b ∧ t = u)
    (h : Run step s as t) (ht : Stuck step t) (h' : Run step s bs u) :
    ∃ cs, bs ++ cs = as ∧ Run step u cs t := by
  induction h' generalizing as with
  | nil => exact ⟨as, rfl, h⟩
  | cons hs' _ ih =>
    cases h with
    | nil => exact absurd hs' (ht _ _)
    | cons hs hrun =>
      obtain ⟨rfl, rfl⟩ := hdet _ _ _ _ _ hs hs'
      obtain ⟨cs, rfl, hcs⟩ := ih hrun
      exact ⟨cs, rfl, hcs⟩

/-- Two runs from one state that cannot be continued are the same. -/
theorem eq_of_stuck (hdet : ∀ s a t b u, step s a t → step s b u → a = b ∧ t = u)
    (h : Run step s as t) (ht : Stuck step t) (h' : Run step s bs u) (hu : Stuck step u) :
    as = bs ∧ t = u := by
  obtain ⟨cs, rfl, hcs⟩ := h.exists_append_of_stuck hdet ht h'
  cases hcs with
  | nil => exact ⟨List.append_nil bs, rfl⟩
  | cons hs _ => exact absurd hs (hu _ _)

end Run

end Transition
