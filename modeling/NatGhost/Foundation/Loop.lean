import Mathlib.Data.Nat.Notation
import Mathlib.Tactic.SplitIfs
import Mathlib.Tactic.TypeStar

/-!
# Loops that may not end

A `while` loop with a bound on the number of its rounds: `whileLoop cond body fuel s` is the state
in which the loop ends, or `none` if it has not ended within `fuel` rounds. `Returns` hides the
bound.

There is one rule for each answer to the question whether a loop ends. `returns_of_variant` takes an
invariant and a number that decreases in every round, and gives the state at the end; `not_returns`
takes an invariant that keeps the condition true.
-/

namespace NatGhost

variable {σ : Type*} (cond : σ → Bool) (body : σ → σ)

/-- `while (cond) body`, at most `fuel` rounds of it. -/
def whileLoop : ℕ → σ → Option σ
  | 0, _ => none
  | fuel + 1, s => if cond s then whileLoop fuel (body s) else some s

/-- The loop started in `s` ends, in state `t`. -/
def Returns (s t : σ) : Prop := ∃ fuel, whileLoop cond body fuel s = some t

variable {cond body} {s t : σ}

theorem returns_of_not (h : cond s = false) : Returns cond body s s := by
  refine ⟨1, ?_⟩
  rw [whileLoop, h]
  exact if_neg Bool.false_ne_true

theorem Returns.step (h : cond s = true) (hrest : Returns cond body (body s) t) :
    Returns cond body s t := by
  obtain ⟨fuel, hfuel⟩ := hrest
  refine ⟨fuel + 1, ?_⟩
  rw [whileLoop, if_pos h, hfuel]

variable (cond body) in
/-- **Total correctness.** An invariant that every round keeps while a number decreases holds at the
end, where the condition is false. -/
theorem returns_of_variant (I : σ → Prop) (variant : σ → ℕ) (hs : I s)
    (hbody : ∀ s, I s → cond s = true → I (body s) ∧ variant (body s) < variant s) :
    ∃ t, Returns cond body s t ∧ I t ∧ cond t = false := by
  induction hn : variant s using Nat.strongRecOn generalizing s with
  | ind n ih =>
    cases hcond : cond s with
    | false => exact ⟨s, returns_of_not hcond, hs, hcond⟩
    | true =>
      obtain ⟨hnext, hlt⟩ := hbody s hs hcond
      obtain ⟨t, ht, hend⟩ := ih _ (hn ▸ hlt) hnext rfl
      exact ⟨t, ht.step hcond, hend⟩

/-- **Divergence.** A loop whose condition stays true does not end. -/
theorem not_returns (I : σ → Prop) (hs : I s) (hcond : ∀ s, I s → cond s = true)
    (hbody : ∀ s, I s → I (body s)) : ¬Returns cond body s t := by
  rintro ⟨fuel, hfuel⟩
  induction fuel generalizing s with
  | zero => exact absurd hfuel nofun
  | succ fuel ih =>
    rw [whileLoop, if_pos (hcond s hs)] at hfuel
    exact ih (hbody s hs) hfuel

end NatGhost
