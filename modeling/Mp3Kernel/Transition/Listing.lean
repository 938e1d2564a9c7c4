import Mathlib.Logic.Function.Iterate
import Mp3Kernel.Transition.Reaches

/-!
# Listings of instructions

Code as a list of instructions. The function `exec` says what an instruction does to the state, and
which position is next; a run is at its end behind the last instruction.

## Main definitions

* `CodeStep`: one step of a listing.
* `Ends`: every run comes to the end with a postcondition.

## Main results

* `CodeStep.deterministic`, `CodeStep.stuck_length`.
* `CodeStep.reaches_instr`, `CodeStep.reaches_block`, `CodeStep.reaches_branch`,
  `CodeStep.reaches_repeat`: the rules for one instruction, for a block without jumps, for a test
  with a jump, and for an instruction that repeats itself.
-/

namespace Transition

variable {ι κ α : Type}

/-- One step of a listing. -/
def CodeStep (exec : ℕ → κ → ι → ℕ × κ) (code : List ι) (s : ℕ × κ) (_ : Unit) (t : ℕ × κ) :
    Prop :=
  code[s.1]?.map (exec s.1 s.2) = some t

/-- **Total correctness of a listing.** Every run from the first instruction is a beginning of one
that comes to the end, in a state with `P`. -/
def Ends (exec : ℕ → κ → ι → ℕ × κ) (code : List ι) (c : κ) (P : κ → Prop) : Prop :=
  ∃ as t, Run (CodeStep exec code) (0, c) as (code.length, t) ∧ P t ∧
    ∀ bs u, Run (CodeStep exec code) (0, c) bs u →
      ∃ cs, bs ++ cs = as ∧ Run (CodeStep exec code) u cs (code.length, t)

namespace CodeStep

variable {exec : ℕ → κ → ι → ℕ × κ} {code : List ι} {i : ℕ} {c : κ} {e : ι}
  {Q : ℕ × κ → Prop}

theorem deterministic (s : ℕ × κ) (a : Unit) (t : ℕ × κ) (b : Unit) (u : ℕ × κ)
    (h : CodeStep exec code s a t) (h' : CodeStep exec code s b u) : a = b ∧ t = u :=
  ⟨rfl, Option.some.inj (h.symm.trans h')⟩

/-- Behind the last instruction there is no step. -/
theorem stuck_length (c : κ) : Stuck (CodeStep exec code) (code.length, c) := by
  intro a t h
  rw [CodeStep, List.getElem?_eq_none (Nat.le_refl _)] at h
  cases h

/-- **The rule for an instruction.** -/
theorem reaches_instr (h : code[i]? = some e)
    (hnext : Reaches (CodeStep exec code) (exec i c e) Q) :
    Reaches (CodeStep exec code) (i, c) Q := by
  refine .head (a := ()) ?_ hnext
  rw [CodeStep, h]
  rfl

/-- **The rule for a block** of instructions each of which goes on to the next one. -/
theorem reaches_block {emb : α → ι} {f : κ → α → κ}
    (hexec : ∀ i c o, exec i c (emb o) = (i + 1, f c o)) {ops : List α}
    (h : ops.map emb <+: code.drop i)
    (hnext : Reaches (CodeStep exec code) (i + ops.length, ops.foldl f c) Q) :
    Reaches (CodeStep exec code) (i, c) Q := by
  induction ops generalizing i c with
  | nil => exact hnext
  | cons o ops ih =>
    obtain ⟨l, hl⟩ := h
    have hget : code[i]? = some (emb o) := by
      rw [← List.head?_drop, ← hl]
      rfl
    have hrest : ops.map emb <+: code.drop (i + 1) := by
      refine ⟨l, ?_⟩
      rw [← List.tail_drop, ← hl]
      rfl
    refine reaches_instr hget ?_
    rw [hexec]
    rw [List.length_cons, Nat.add_comm ops.length, ← Nat.add_assoc] at hnext
    exact ih hrest hnext

/-- **The rule for a branch**: a test, and a jump that looks at what has been tested. -/
theorem reaches_branch {p : Prop} [Decidable p] {label : ℕ} {c' : κ} {e' : ι}
    (htest : code[i]? = some e) (hjump : code[i + 1]? = some e') (hexec : exec i c e = (i + 1, c'))
    (hexec' : exec (i + 1) c' e' = (if p then label else i + 2, c'))
    (hthen : p → Reaches (CodeStep exec code) (label, c') Q)
    (helse : ¬ p → Reaches (CodeStep exec code) (i + 2, c') Q) :
    Reaches (CodeStep exec code) (i, c) Q := by
  refine reaches_instr htest (hexec ▸ reaches_instr hjump ?_)
  rw [hexec']
  by_cases hp : p
  · rw [if_pos hp]
    exact hthen hp
  · rw [if_neg hp]
    exact helse hp

/-- **The rule for repetition.** The instruction runs its body as often as the counter says. -/
theorem reaches_repeat {k : κ → ℕ} {f : κ → κ} (h : code[i]? = some e)
    (hexec : ∀ c, exec i c e = if k c = 0 then (i + 1, c) else (i, f c))
    (hcount : ∀ c, k c ≠ 0 → k (f c) + 1 = k c)
    (hnext : Reaches (CodeStep exec code) (i + 1, f^[k c] c) Q) :
    Reaches (CodeStep exec code) (i, c) Q := by
  generalize hn : k c = n at hnext
  induction n generalizing c with
  | zero =>
    refine reaches_instr h ?_
    rw [hexec, if_pos hn]
    exact hnext
  | succ n ih =>
    have hne : k c ≠ 0 := by omega
    have hbody := hcount c hne
    refine reaches_instr h ?_
    rw [hexec, if_neg hne]
    exact ih (by omega) hnext

theorem ends_of_reaches {P : κ → Prop}
    (h : Reaches (CodeStep exec code) (0, c) fun s => s.1 = code.length ∧ P s.2) :
    Ends exec code c P := by
  obtain ⟨as, ⟨pos, t⟩, hrun, ⟨rfl, ht⟩, hall⟩ := h.complete deterministic fun s hs => by
    obtain ⟨pos, c'⟩ := s
    obtain ⟨rfl, -⟩ := hs
    exact stuck_length c'
  exact ⟨as, t, hrun, ht, hall⟩

end CodeStep

end Transition
