import Mathlib.Data.List.Induction

/-!
# Deterministic systems

A deterministic system is a function of the state and the input, and its run a fold. Rules for such
folds: a property of the states after every prefix of the inputs, the value that a loop over
`0, …, n - 1` leaves in one observable of the state, and a run that may fail.

## Main results

* `forall_prefix_iff`: a property that each further input keeps exactly when it meets a condition
  holds throughout exactly when every input meets its condition.
* `foldl_range_keeps`: an observable that no iteration changes.
* `foldl_range_sets`: an observable that one iteration sets, from a value that the iterations before
  it leave alone.
* `foldlM_eq_some`, `exists_foldlM`: a run whose steps may fail does not fail, when an invariant
  keeps the steps from failing; `foldlM_invariant`: what holds after a run that has not failed.
-/

namespace Transition

/-! ### Every prefix -/

section Prefix

variable {α : Type} {P : List α → Prop} {ok : List α → α → Prop}

/-- **The prefix rule.** `P` is a property of the inputs so far, and `ok p a` the condition under
which the input `a` keeps it after the inputs `p`. -/
theorem forall_prefix_iff {l : List α} (h0 : P [])
    (hstep : ∀ p a, p ++ [a] <+: l → P p → (P (p ++ [a]) ↔ ok p a)) :
    (∀ p, p <+: l → P p) ↔ ∀ p a, p ++ [a] <+: l → ok p a := by
  constructor
  · intro h p a hp
    exact (hstep p a hp (h p ((List.prefix_append p [a]).trans hp))).mp (h _ hp)
  · intro h p
    induction p using List.reverseRecOn with
    | nil => exact fun _ => h0
    | append_singleton p a ih =>
      intro hp
      exact (hstep p a hp (ih ((List.prefix_append p [a]).trans hp))).mpr (h p a hp)

end Prefix

/-! ### Loops -/

section Loop

variable {σ υ : Type} {f : σ → ℕ → σ} {v w : σ → υ} {n m : ℕ}

/-- No iteration changes the observable. -/
theorem foldl_range_keeps (h : ∀ s, ∀ k < n, v (f s k) = v s) (s : σ) :
    v ((List.range n).foldl f s) = v s := by
  induction n with
  | zero => rfl
  | succ n ih =>
    rw [List.range_succ, List.foldl_append]
    exact (h _ n (Nat.lt_succ_self n)).trans (ih fun s k hk => h s k (Nat.lt_succ_of_lt hk))

/-- **The loop rule.** Iteration `m` sets the observable `v` to the value of `w`, which the
iterations before it leave alone, and the later ones do not change it. -/
theorem foldl_range_sets (hm : m < n) (hset : ∀ s, v (f s m) = w s)
    (hbefore : ∀ s, ∀ k < m, w (f s k) = w s)
    (hafter : ∀ s k, m < k → k < n → v (f s k) = v s) (s : σ) :
    v ((List.range n).foldl f s) = w s := by
  induction n with
  | zero => exact absurd hm (Nat.not_lt_zero m)
  | succ n ih =>
    rw [List.range_succ, List.foldl_append]
    rcases Nat.lt_succ_iff_lt_or_eq.mp hm with hlt | rfl
    · exact (hafter _ n hlt (Nat.lt_succ_self n)).trans
        (ih hlt fun s k hk hk' => hafter s k hk (Nat.lt_succ_of_lt hk'))
    · exact (hset _).trans (foldl_range_keeps hbefore s)

end Loop

/-! ### Runs that may fail -/

section Failing

variable {σ α : Type} {f : σ → α → σ} {g : σ → α → Option σ} {I : σ → Prop}

/-- **The rule for runs that may fail.** Where the invariant holds, a step of `g` is one of `f` and
keeps the invariant. -/
theorem foldlM_eq_some {l : List α} (hstep : ∀ s, ∀ a ∈ l, I s → g s a = some (f s a) ∧ I (f s a))
    {s : σ} (hs : I s) : l.foldlM g s = some (l.foldl f s) ∧ I (l.foldl f s) := by
  induction l generalizing s with
  | nil => exact ⟨rfl, hs⟩
  | cons a l ih =>
    obtain ⟨hg, hI⟩ := hstep s a List.mem_cons_self hs
    rw [List.foldlM_cons, hg]
    exact ih (fun s a ha => hstep s a (List.mem_cons_of_mem _ ha)) hI

/-- The same for a loop in which no step can fail. -/
theorem foldlM_range_eq_some {f : σ → ℕ → σ} {g : σ → ℕ → Option σ} {n : ℕ}
    (hstep : ∀ s, ∀ k < n, g s k = some (f s k)) (s : σ) :
    (List.range n).foldlM g s = some ((List.range n).foldl f s) :=
  (foldlM_eq_some (I := fun _ => True)
    (fun s k hk _ => ⟨hstep s k (List.mem_range.mp hk), trivial⟩) trivial).1

/-- A run none of whose steps fails where the invariant holds does not fail, and keeps it. -/
theorem exists_foldlM {l : List α} {s : σ}
    (hstep : ∀ a ∈ l, ∀ s, I s → ∃ s', g s a = some s' ∧ I s') (hs : I s) :
    ∃ s', l.foldlM g s = some s' ∧ I s' := by
  induction l generalizing s with
  | nil => exact ⟨s, rfl, hs⟩
  | cons a l ih =>
    obtain ⟨s₁, h₁, hI₁⟩ := hstep a List.mem_cons_self s hs
    obtain ⟨s₂, h₂, hI₂⟩ := ih (fun b hb => hstep b (List.mem_cons_of_mem a hb)) hI₁
    refine ⟨s₂, ?_, hI₂⟩
    rw [List.foldlM_cons, h₁]
    exact h₂

/-- What every step keeps holds after a run that does not fail. -/
theorem foldlM_invariant (hstep : ∀ s a s', I s → g s a = some s' → I s') {l : List α} {s s' : σ}
    (h : l.foldlM g s = some s') (hs : I s) : I s' := by
  induction l generalizing s with
  | nil =>
    cases h
    exact hs
  | cons a l ih =>
    obtain ⟨s₁, h₁, h₂⟩ := Option.bind_eq_some_iff.mp h
    exact ih h₂ (hstep s a s₁ hs h₁)

end Failing

end Transition
