import Mathlib.Data.Nat.Notation
import Mathlib.Tactic.Linarith

/-!
# Nearly equal ranges

The numbers below `N` are sent to `c` places by `p ↦ p * c / N`. The numbers sent to one place are
consecutive (`mul_div_eq_iff`): place `b` gets those from `rangeStart N c b` on, up to the start of
the next place. If there are no more places than numbers, every place gets some, and no two places
differ by more than one in how many they get.
-/

namespace NatGhost

/-- `b * N / c`, rounded up. -/
def rangeStart (N c b : ℕ) : ℕ := (b * N + (c - 1)) / c

variable {N c a b p : ℕ}

theorem rangeStart_le_iff (hc : 0 < c) : rangeStart N c b ≤ p ↔ b * N ≤ p * c := by
  rw [← Nat.lt_succ_iff, rangeStart, Nat.div_lt_iff_lt_mul hc, Nat.succ_mul]
  omega

/-- **The numbers sent to one place.** -/
theorem mul_div_eq_iff (hN : 0 < N) (hc : 0 < c) :
    p * c / N = b ↔ rangeStart N c b ≤ p ∧ p < rangeStart N c (b + 1) := by
  rw [← Nat.not_le, rangeStart_le_iff hc, rangeStart_le_iff hc, Nat.not_le, Nat.succ_mul]
  constructor
  · rintro rfl
    have hle := Nat.div_mul_le_self (p * c) N
    have hlt := Nat.lt_div_mul_add hN (a := p * c)
    exact ⟨hle, hlt⟩
  · rintro ⟨hle, hlt⟩
    refine Nat.le_antisymm ?_ ((Nat.le_div_iff_mul_le hN).mpr hle)
    exact Nat.lt_succ_iff.mp ((Nat.div_lt_iff_lt_mul hN).mpr (by rwa [Nat.succ_mul]))

theorem le_rangeStart_mul (hc : 0 < c) : b * N ≤ rangeStart N c b * c :=
  (rangeStart_le_iff hc).mp le_rfl

theorem rangeStart_mul_lt (hc : 0 < c) : rangeStart N c b * c < b * N + c := by
  have hle := Nat.div_mul_le_self (b * N + (c - 1)) c
  rw [rangeStart]
  omega

theorem rangeStart_le (hc : 0 < c) (hb : b ≤ c) : rangeStart N c b ≤ N := by
  rw [rangeStart_le_iff hc, Nat.mul_comm N]
  exact Nat.mul_le_mul_right N hb

theorem rangeStart_lt_succ (hc : 0 < c) (hN : c ≤ N) :
    rangeStart N c b < rangeStart N c (b + 1) := by
  have hend := le_rangeStart_mul (N := N) (b := b + 1) hc
  have hstart := rangeStart_mul_lt (N := N) (b := b) hc
  rw [Nat.succ_mul] at hend
  exact Nat.lt_of_mul_lt_mul_right (a := c) (by omega)

/-- **No two places differ by more than one number.** -/
theorem rangeStart_sub_le (hc : 0 < c) (a b : ℕ) :
    rangeStart N c (a + 1) - rangeStart N c a ≤ rangeStart N c (b + 1) - rangeStart N c b + 1 := by
  have ha := rangeStart_mul_lt (N := N) (b := a + 1) hc
  have ha' := le_rangeStart_mul (N := N) (b := a) hc
  have hb := le_rangeStart_mul (N := N) (b := b + 1) hc
  have hb' := rangeStart_mul_lt (N := N) (b := b) hc
  rw [Nat.succ_mul] at ha hb
  have hlt : (rangeStart N c (a + 1) + rangeStart N c b) * c
      < (rangeStart N c (b + 1) + rangeStart N c a + 2) * c := by
    rw [Nat.add_mul, Nat.add_mul, Nat.add_mul]
    omega
  have := Nat.lt_of_mul_lt_mul_right hlt
  omega

end NatGhost
