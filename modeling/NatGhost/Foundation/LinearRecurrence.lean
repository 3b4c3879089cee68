import Mathlib.RingTheory.PowerSeries.Basic
import Mathlib.Tactic.LinearCombination

/-!
# Shortest linear recurrences

A linear recurrence of length `L` for the first `N` terms of a sequence is a connection series `C`
with constant term 1 and no coefficient beyond `L`, such that the coefficients of `C * S` vanish
from `L` up to `N`. Writing the recurrence as a product is what makes the theory short: extending,
combining and comparing recurrences are statements about coefficients of products of three series.

## Massey's two facts

* If `C` fails at term `N`, a recurrence of length `L'` that holds there too satisfies
  `N + 1 ≤ L + L'`: the coefficient of `C' * C * S` at `N` would otherwise be the discrepancy
  in one order of multiplication and zero in the other (`Generates.add_le`).
* A failure of `C` at `N` is repaired by a shifted multiple of an earlier series `B` that failed at
  `m`, and the length this takes is exactly that bound (`MasseyState.repair`).

`MasseyState` is what has to be remembered between terms.
-/

namespace NatGhost

open PowerSeries Finset

section

variable {R : Type*} [CommRing R]

/-- `C` is a recurrence of length `L` for the first `N` terms of `S`. -/
structure Generates (C S : R⟦X⟧) (L N : ℕ) : Prop where
  /-- The recurrence determines the next term. -/
  constant : coeff 0 C = 1
  /-- It looks back at most `L` terms. -/
  support : ∀ j, L < j → coeff j C = 0
  /-- It holds as soon as there are `L` terms to look back at. -/
  vanish : ∀ i, L ≤ i → i < N → coeff i (C * S) = 0

/-- A recurrence of least length. -/
structure Shortest (C S : R⟦X⟧) (L N : ℕ) : Prop extends Generates C S L N where
  least : ∀ C' L', Generates C' S L' N → L ≤ L'

variable {C C' B S S' : R⟦X⟧} {L L' M N : ℕ}

theorem Generates.mono (h : Generates C S L N) (hM : M ≤ N) : Generates C S L M :=
  ⟨h.constant, h.support, fun i hi hiM ↦ h.vanish i hi (lt_of_lt_of_le hiM hM)⟩

theorem Generates.succ (h : Generates C S L N) (hN : coeff N (C * S) = 0) :
    Generates C S L (N + 1) := by
  refine ⟨h.constant, h.support, fun i hi hiN ↦ ?_⟩
  rcases Nat.lt_or_ge i N with hlt | hge
  · exact h.vanish i hi hlt
  · obtain rfl : i = N := by omega
    exact hN

theorem coeff_mul_of_support (h : ∀ j, L < j → coeff j C = 0) {i : ℕ} (hi : L ≤ i) :
    coeff i (C * S) = ∑ j ∈ range (L + 1), coeff j C * coeff (i - j) S := by
  rw [coeff_mul, Nat.sum_antidiagonal_eq_sum_range_succ fun j k ↦ coeff j C * coeff k S]
  refine (sum_subset (range_subset_range.mpr (by omega)) fun j _ hj ↦ ?_).symm
  rw [mem_range, Nat.not_lt] at hj
  rw [h j hj, zero_mul]

theorem Generates.congr (h : Generates C S L N) (hS : ∀ i < N, coeff i S = coeff i S') :
    Generates C S' L N := by
  refine ⟨h.constant, h.support, fun i hi hiN ↦ ?_⟩
  rw [← h.vanish i hi hiN, coeff_mul, coeff_mul]
  refine sum_congr rfl fun p hp ↦ ?_
  rw [hS p.2 (lt_of_lt_of_le (Nat.antidiagonal.snd_lt hp) hiN)]

theorem Shortest.congr (h : Shortest C S L N) (hS : ∀ i < N, coeff i S = coeff i S') :
    Shortest C S' L N :=
  ⟨h.toGenerates.congr hS, fun C' L' h' ↦
    h.least C' L' (h'.congr fun i hi ↦ (hS i hi).symm)⟩

theorem Shortest.length_le (h : Shortest C S L N) : L ≤ N :=
  h.least 1 N ⟨coeff_zero_one, fun j hj ↦ by rw [coeff_one, if_neg (by omega)],
    fun _ hi hiN ↦ absurd hiN (Nat.not_lt.mpr hi)⟩

/-- **The lower bound.** A recurrence that fails at `N` and one that holds there have lengths that
add up to at least `N + 1`. -/
theorem Generates.add_le (h : Generates C S L N) (hN : coeff N (C * S) ≠ 0)
    (h' : Generates C' S L' (N + 1)) : N + 1 ≤ L + L' := by
  by_contra hlt
  -- the coefficient of `C' * C * S` at `N`, taken apart in both ways
  have hleft : coeff N (C' * (C * S)) = coeff N (C * S) := by
    rw [coeff_mul_of_support h'.support (by omega), sum_range_succ', h'.constant, one_mul,
      Nat.sub_zero]
    rw [sum_eq_zero fun j hj ↦ ?_, zero_add]
    rw [mem_range] at hj
    rw [h.vanish (N - (j + 1)) (by omega) (by omega), mul_zero]
  have hright : coeff N (C * (C' * S)) = 0 := by
    rw [coeff_mul_of_support h.support (by omega)]
    refine sum_eq_zero fun j hj ↦ ?_
    rw [mem_range] at hj
    rw [h'.vanish (N - j) (by omega) (by omega), mul_zero]
  rw [mul_left_comm, hleft] at hright
  exact hN hright

/-! ## Massey's state -/

/-- What is remembered between terms: a shortest recurrence `C`, of length `l`, for the first `N`
terms, and the series `B` from before the length last changed, at term `m`. Before any change `m` is
`-1`. -/
structure MasseyState (S C B : R⟦X⟧) (l : ℕ) (m : ℤ) (N : ℕ) : Prop where
  shortest : Shortest C S l N
  length_le : l ≤ N
  change_lt : m < N
  /-- The length before the change was `m + 1 - l`. -/
  length_le_change : l ≤ m + 1
  support : ∀ j : ℕ, m + 1 - l < j → coeff j B = 0
  vanish : ∀ t : ℕ, m + 1 - l ≤ t → t < m → coeff t (B * S) = 0
  /-- The change was forced. -/
  fail : ∀ t : ℕ, t = m → coeff t (B * S) ≠ 0

variable {l l' k : ℕ} {m : ℤ} {u : R}

theorem MasseyState.init (S : R⟦X⟧) : MasseyState S 1 1 0 (-1) 0 where
  shortest := ⟨⟨coeff_zero_one, fun j hj ↦ by rw [coeff_one, if_neg (by omega)],
    fun i _ hi ↦ absurd hi (Nat.not_lt_zero i)⟩, fun _ L' _ ↦ Nat.zero_le L'⟩
  length_le := le_rfl
  change_lt := by decide
  length_le_change := by decide
  support := fun j hj ↦ by rw [coeff_one, if_neg (by omega)]
  vanish := fun t _ ht ↦ by omega
  fail := fun t ht ↦ by omega

namespace MasseyState

variable (h : MasseyState S C B l m N)

include h

theorem keep (hN : coeff N (C * S) = 0) : MasseyState S C B l m (N + 1) where
  shortest := ⟨h.shortest.toGenerates.succ hN, fun C' L' h' ↦
    h.shortest.least C' L' (h'.mono (Nat.le_succ N))⟩
  length_le := h.length_le.trans (Nat.le_succ N)
  change_lt := h.change_lt.trans (by exact_mod_cast Nat.lt_succ_self N)
  length_le_change := h.length_le_change
  support := h.support
  vanish := h.vanish
  fail := h.fail

/-- **Repair.** A term that is not predicted is brought in by a multiple of the earlier series,
shifted so that its failure meets this one. -/
theorem repair (hk : (k : ℤ) = N - m)
    (hu : ∀ t : ℕ, t = m → coeff N (C * S) = u * coeff t (B * S)) (hl : l ≤ l')
    (hl' : N + 1 ≤ l + l') : Generates (C - u • (X ^ k * B)) S l' (N + 1) := by
  have hlt := h.change_lt
  have hchange := h.length_le_change
  refine ⟨?_, fun j hj ↦ ?_, fun t ht htN ↦ ?_⟩
  · have hzero : coeff 0 (X ^ k * B) = 0 := by rw [coeff_X_pow_mul', if_neg (by omega)]
    rw [map_sub, coeff_smul, hzero, smul_zero, sub_zero, h.shortest.constant]
  · rw [map_sub, coeff_smul, h.shortest.support j (by omega), coeff_X_pow_mul', if_pos (by omega),
      h.support (j - k) (by omega), smul_zero, sub_zero]
  · -- the shifted product vanishes up to its own failure, which lands on `N`
    rw [sub_mul, smul_mul_assoc, mul_assoc, map_sub, coeff_smul, coeff_X_pow_mul',
      if_pos (by omega), smul_eq_mul]
    rcases Nat.lt_or_ge t N with hlt' | hge
    · rw [h.shortest.vanish t (by omega) hlt', h.vanish (t - k) (by omega) (by omega), mul_zero,
        sub_zero]
    · obtain rfl : t = N := by omega
      rw [hu (t - k) (by omega), sub_self]

theorem le_of_generates (hN : coeff N (C * S) ≠ 0) (h' : Generates C' S L' (N + 1)) :
    l ≤ L' ∧ N + 1 ≤ l + L' :=
  ⟨h.shortest.least C' L' (h'.mono (Nat.le_succ N)), h.shortest.toGenerates.add_le hN h'⟩

theorem same_length (hk : (k : ℤ) = N - m) (hN : coeff N (C * S) ≠ 0)
    (hu : ∀ t : ℕ, t = m → coeff N (C * S) = u * coeff t (B * S)) (hl : N < 2 * l) :
    MasseyState S (C - u • (X ^ k * B)) B l m (N + 1) where
  shortest := ⟨h.repair hk hu le_rfl (by omega), fun _ _ h' ↦ (h.le_of_generates hN h').1⟩
  length_le := h.length_le.trans (Nat.le_succ N)
  change_lt := h.change_lt.trans (by exact_mod_cast Nat.lt_succ_self N)
  length_le_change := h.length_le_change
  support := h.support
  vanish := h.vanish
  fail := h.fail

theorem new_length (hk : (k : ℤ) = N - m) (hN : coeff N (C * S) ≠ 0)
    (hu : ∀ t : ℕ, t = m → coeff N (C * S) = u * coeff t (B * S)) (hl : 2 * l ≤ N) :
    MasseyState S (C - u • (X ^ k * B)) C (N + 1 - l) N (N + 1) where
  shortest := ⟨h.repair hk hu (by omega) (by omega), fun _ _ h' ↦ by
    have := (h.le_of_generates hN h').2
    omega⟩
  length_le := Nat.sub_le _ _
  change_lt := by exact_mod_cast Nat.lt_succ_self N
  length_le_change := by omega
  support := fun j hj ↦ h.shortest.support j (by omega)
  vanish := fun t ht htN ↦ h.shortest.vanish t (by omega) (by omega)
  fail := fun t ht ↦ by
    obtain rfl : t = N := by omega
    exact hN

end MasseyState

end

/-! ## Over a field

The failures have quotients, so there is a state for every number of terms, and the length it gives
is not changed by any of the next terms up to twice that length.
-/

section

variable {K : Type*} [Field K] {C B S : K⟦X⟧} {l M N : ℕ} {m : ℤ}

namespace MasseyState

theorem exists_shift (h : MasseyState S C B l m N) :
    ∃ (k : ℕ) (u : K), (k : ℤ) = N - m ∧
      ∀ t : ℕ, t = m → coeff N (C * S) = u * coeff t (B * S) := by
  have hlt := h.change_lt
  refine ⟨(N - m).toNat, coeff N (C * S) * (coeff m.toNat (B * S))⁻¹, by omega, fun t ht ↦ ?_⟩
  have hm : m.toNat = t := by omega
  rw [hm, inv_mul_cancel_right₀ (h.fail t ht)]

theorem exists_succ_of_lt (h : MasseyState S C B l m N) (hl : N < 2 * l) :
    ∃ C', MasseyState S C' B l m (N + 1) := by
  by_cases hN : coeff N (C * S) = 0
  · exact ⟨C, h.keep hN⟩
  · obtain ⟨k, u, hk, hu⟩ := h.exists_shift
    exact ⟨_, h.same_length hk hN hu hl⟩

theorem exists_succ (h : MasseyState S C B l m N) :
    ∃ C' B' l' m', MasseyState S C' B' l' m' (N + 1) := by
  by_cases hN : coeff N (C * S) = 0
  · exact ⟨C, B, l, m, h.keep hN⟩
  · obtain ⟨k, u, hk, hu⟩ := h.exists_shift
    rcases Nat.lt_or_ge N (2 * l) with hlt | hge
    · exact ⟨_, B, l, m, h.same_length hk hN hu hlt⟩
    · exact ⟨_, C, _, N, h.new_length hk hN hu hge⟩

end MasseyState

theorem exists_masseyState (S : K⟦X⟧) (N : ℕ) : ∃ C B l m, MasseyState S C B l m N := by
  induction N with
  | zero => exact ⟨1, 1, 0, -1, .init S⟩
  | succ N ih =>
    obtain ⟨C, B, l, m, h⟩ := ih
    exact h.exists_succ

/-- **Terms that cannot refute the length.** A sequence whose first `N` terms need length `l` has a
recurrence of that length for all terms up to `2 * l`, whatever they are. -/
theorem Shortest.exists_generates (h : Shortest C S l N) (hM : N ≤ M) (hl : M ≤ 2 * l) :
    ∃ C', Generates C' S l M := by
  obtain ⟨C₀, B, l₀, m, h₀⟩ := exists_masseyState S N
  obtain rfl : l = l₀ :=
    (h.least C₀ l₀ h₀.shortest.toGenerates).antisymm (h₀.shortest.least C l h.toGenerates)
  have hstate : ∃ C', MasseyState S C' B l m M := by
    induction M, hM using Nat.le_induction with
    | base => exact ⟨C₀, h₀⟩
    | succ M _ ih =>
      obtain ⟨C', h'⟩ := ih (Nat.le_of_succ_le hl)
      exact h'.exists_succ_of_lt hl
  obtain ⟨C', h'⟩ := hstate
  exact ⟨C', h'.shortest.toGenerates⟩

end

/-! ## One more term -/

section

variable {R : Type*} [CommRing R] {C C' S : R⟦X⟧} {L L' l l' M N : ℕ}

/-- **A recurrence cannot be left late.** If two recurrences hold for as many terms as their lengths
add up to, the one holds as far as the other does. -/
theorem Generates.extend (h : Generates C S L N) (h' : Generates C' S L' M) (hN : L + L' ≤ N)
    (hM : N ≤ M) : Generates C S L M := by
  induction M, hM using Nat.le_induction with
  | base => exact h
  | succ M hM ih =>
    have hrest := ih (h'.mono (Nat.le_succ M))
    refine hrest.succ ?_
    by_contra hfail
    have hlengths := hrest.add_le hfail h'
    omega

theorem Generates.unique {S' : R⟦X⟧} (h : Generates C S L N) (h' : Generates C S' L N)
    (hS : ∀ i < L, coeff i S = coeff i S') {i : ℕ} (hi : i < N) : coeff i S = coeff i S' := by
  induction i using Nat.strong_induction_on with
  | _ i ih =>
    rcases Nat.lt_or_ge i L with hlt | hge
    · exact hS i hlt
    · have hterm := h.vanish i hge hi
      have hterm' := h'.vanish i hge hi
      rw [coeff_mul_of_support h.support hge, sum_range_succ', h.constant, one_mul,
        Nat.sub_zero] at hterm hterm'
      have hold : ∑ j ∈ range L, coeff (j + 1) C * coeff (i - (j + 1)) S
          = ∑ j ∈ range L, coeff (j + 1) C * coeff (i - (j + 1)) S' := by
        refine sum_congr rfl fun j hj ↦ ?_
        rw [mem_range] at hj
        rw [ih (i - (j + 1)) (by omega) (by omega)]
      rw [hold] at hterm
      exact add_left_cancel (hterm.trans hterm'.symm)

theorem Shortest.length_unique (h : Shortest C S l N) (h' : Shortest C' S l' N) : l = l' :=
  (h.least C' l' h'.toGenerates).antisymm (h'.least C l h.toGenerates)

theorem Shortest.length_mono (h : Shortest C S l N) (h' : Shortest C' S l' M) (hM : N ≤ M) :
    l ≤ l' := h.least C' l' (h'.toGenerates.mono hM)

end

/-! ## How the length grows -/

section

variable {K : Type*} [Field K] {C C' S : K⟦X⟧} {l l' N : ℕ}

/-- The length stays if the next term is as the recurrence has it, or if the length is more than
half the number of terms. -/
theorem Shortest.length_succ_of_stay (h : Shortest C S l N) (h' : Shortest C' S l' (N + 1))
    (hstay : coeff N (C * S) = 0 ∨ N < 2 * l) : l' = l := by
  refine Nat.le_antisymm ?_ (h.length_mono h' (Nat.le_succ N))
  rcases hstay with hzero | hlong
  · exact h'.least C l (h.toGenerates.succ hzero)
  · obtain ⟨C'', hC''⟩ := h.exists_generates (Nat.le_succ N) hlong
    exact h'.least C'' l hC''

theorem Shortest.length_succ_of_change (h : Shortest C S l N) (h' : Shortest C' S l' (N + 1))
    (hfail : coeff N (C * S) ≠ 0) (hl : 2 * l ≤ N) : l' = N + 1 - l := by
  have hge := h.toGenerates.add_le hfail h'.toGenerates
  obtain ⟨C₀, B, l₀, m, h₀⟩ := exists_masseyState S N
  obtain rfl : l = l₀ := h.length_unique h₀.shortest
  -- another recurrence of this length fails there as well
  have hfail₀ : coeff N (C₀ * S) ≠ 0 := fun hzero ↦ by
    have hlengths := h.toGenerates.add_le hfail (h₀.shortest.toGenerates.succ hzero)
    omega
  obtain ⟨k, u, hk, hu⟩ := h₀.exists_shift
  have hle := h'.least _ _ (h₀.new_length hk hfail₀ hu hl).shortest.toGenerates
  omega

end

end NatGhost
