import Mathlib.Logic.Basic

/-!
# Splice.Lib.WhileLoop

`while` loops over a state, with a bound on their iterations: `run` gives the state in which
the condition fails, if the loop gets there.

`run_countdown` is the rule for total correctness.  Its invariant counts the iterations that
are left, so a proof of it is a proof that the loop ends, and of when.
-/

namespace WhileLoop

variable {σ : Type} {cond : σ → Bool} {body : σ → σ} {s : σ}

/-- `while (cond) body`, in at most so many iterations. -/
def run (cond : σ → Bool) (body : σ → σ) : Nat → σ → Option σ
  | 0, s => if cond s then none else some s
  | bound + 1, s => if cond s then run cond body bound (body s) else some s

/-- A loop ends where its condition fails. -/
theorem run_of_not (h : ¬ cond s) (bound : Nat) : run cond body bound s = some s := by
  cases bound with
  | zero => rw [run, if_neg h]
  | succ bound => rw [run, if_neg h]

theorem run_succ (h : cond s) (bound : Nat) :
    run cond body (bound + 1) s = run cond body bound (body s) := by
  rw [run, if_pos h]

/-- A loop whose invariant counts down ends in a state where the count is zero, as soon as
the bound leaves it that many iterations. -/
theorem run_countdown {I : Nat → σ → Prop} (hstop : ∀ s, I 0 s → ¬ cond s)
    (hstep : ∀ left s, I (left + 1) s → cond s ∧ I left (body s)) {left : Nat} (h : I left s) :
    ∃ s', I 0 s' ∧ ∀ bound, left ≤ bound → run cond body bound s = some s' := by
  induction left generalizing s with
  | zero => exact ⟨s, h, fun bound _ => run_of_not (hstop s h) bound⟩
  | succ left ih =>
      obtain ⟨hcond, hbody⟩ := hstep left s h
      obtain ⟨s', hs', hrun⟩ := ih hbody
      refine ⟨s', hs', fun bound hbound => ?_⟩
      obtain ⟨rest, rfl⟩ := Nat.exists_eq_add_of_le' (Nat.zero_lt_of_lt hbound)
      rw [run_succ hcond]
      exact hrun rest (Nat.le_of_succ_le_succ hbound)

end WhileLoop
