import Mathlib.Data.Option.Basic
import Mathlib.Order.Basic

/-!
# Loops with a bound on their rounds

`while (cond) body`, run for at most `fuel` rounds. A loop that is not over by then is
`none`, and so is one whose body fails. `whileLoop_rule` is the rule of total correctness:
an invariant that the body keeps and a variant that it lowers show that the loop ends
within as many rounds as the variant says, with the invariant and without the condition.
-/

namespace Equic.Foundation

variable {σ : Type*} (cond : σ → Bool) (body : σ → Option σ)

/-- `while (cond) body`, with at most `fuel` rounds. -/
def whileLoop : ℕ → σ → Option σ
  | 0, s => if cond s then none else some s
  | fuel + 1, s => if cond s then (body s).bind (whileLoop fuel) else some s

variable {cond body}

theorem whileLoop_of_not {s : σ} (h : cond s = false) (fuel : ℕ) :
    whileLoop cond body fuel s = some s := by
  cases fuel with
  | zero => simp [whileLoop, h]
  | succ fuel => simp [whileLoop, h]

theorem whileLoop_succ_of_cond {s : σ} (h : cond s = true) (fuel : ℕ) :
    whileLoop cond body (fuel + 1) s = (body s).bind (whileLoop cond body fuel) := by
  simp [whileLoop, h]

/-- What the body keeps a loop that is over has kept. -/
theorem whileLoop_invariant {I : σ → Prop} (hbody : ∀ s s', I s → body s = some s' → I s')
    {fuel : ℕ} {s t : σ} (hs : I s) (h : whileLoop cond body fuel s = some t) : I t := by
  induction fuel generalizing s with
  | zero =>
    obtain ⟨-, rfl⟩ : ¬ cond s = true ∧ s = t := by simpa [whileLoop] using h
    exact hs
  | succ fuel ih =>
    cases hcond : cond s with
    | false =>
      rw [whileLoop_of_not hcond] at h
      exact Option.some.inj h ▸ hs
    | true =>
      rw [whileLoop_succ_of_cond hcond] at h
      obtain ⟨s', hs', h⟩ := Option.bind_eq_some_iff.mp h
      exact ih (hbody s s' hs hs') h

/-- **Total correctness of a loop.** -/
theorem whileLoop_rule {I : σ → Prop} (variant : σ → ℕ)
    (hbody : ∀ s, I s → cond s = true → ∃ s', body s = some s' ∧ I s' ∧ variant s' < variant s)
    {fuel : ℕ} {s : σ} (hs : I s) (hfuel : variant s ≤ fuel) :
    ∃ t, whileLoop cond body fuel s = some t ∧ I t ∧ cond t = false := by
  induction fuel generalizing s with
  | zero =>
    -- the variant is exhausted, so the body cannot run
    cases hcond : cond s with
    | false => exact ⟨s, whileLoop_of_not hcond 0, hs, hcond⟩
    | true =>
      obtain ⟨s', -, -, hlt⟩ := hbody s hs hcond
      omega
  | succ fuel ih =>
    cases hcond : cond s with
    | false => exact ⟨s, whileLoop_of_not hcond _, hs, hcond⟩
    | true =>
      obtain ⟨s', hstep, hs', hlt⟩ := hbody s hs hcond
      obtain ⟨t, ht, hI, hdone⟩ := ih hs' (by omega)
      refine ⟨t, ?_, hI, hdone⟩
      rw [whileLoop_succ_of_cond hcond, hstep]
      exact ht

end Equic.Foundation
