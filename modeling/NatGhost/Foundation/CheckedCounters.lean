import Mathlib.Algebra.BigOperators.Ring.Finset
import Mathlib.Algebra.Group.Action.Defs
import Mathlib.Algebra.Order.BigOperators.Group.List
import Mathlib.Algebra.Order.Group.Nat
import Mathlib.Algebra.Ring.Int.Defs
import Mathlib.Data.List.GetD
import NatGhost.Foundation.CountTables

/-!
# A vector of `int` counters without overflow

`Foundation.IntCounters` gives a counter that overflows the value it wraps around to. Here an
overflow has no value: `checkInt` is an `int` expression, and `none` if its value does not fit.
A vector of counters is incremented at one index after the other, and an index outside the vector
has no value either (`tallyCounters`). So the result says at once that all indices were in bounds
and that no counter overflowed (`tallyCounters_eq_some_iff`), and then the counters add up to the
number of increments.

The last section is about counters of which no two differ by more than one: they are equal exactly
if their number divides their sum.
-/

namespace NatGhost

/-! ## Values of type `int` -/

/-- The value of an `int` expression, if it has one. -/
def checkInt (z : ℤ) : Option ℤ := if -2 ^ 31 ≤ z ∧ z < 2 ^ 31 then some z else none

theorem checkInt_eq_some_iff {z w : ℤ} :
    checkInt z = some w ↔ (-2 ^ 31 ≤ z ∧ z < 2 ^ 31) ∧ z = w := by
  rw [checkInt]
  split_ifs with h
  · exact (Option.some_inj).trans (and_iff_right h).symm
  · exact iff_of_false id fun h' ↦ h h'.1

/-! ## Counters -/

/-- `++counters[i];` -/
def bumpCounter (counters : List ℤ) (i : ℤ) : Option (List ℤ) :=
  if 0 ≤ i ∧ i < counters.length then
    (checkInt (counters.getD i.toNat 0 + 1)).map (counters.set i.toNat)
  else none

/-- `std::vector<int> counters(n, 0); for (auto i : indices) ++counters[i];` -/
def tallyCounters (n : ℕ) (indices : List ℤ) : Option (List ℤ) :=
  indices.foldlM bumpCounter (List.replicate n 0)

def occurrences (n : ℕ) (indices : List ℤ) : List ℤ :=
  (List.range n).map fun i : ℕ ↦ (indices.count (i : ℤ) : ℤ)

section

variable {n : ℕ} {indices counters : List ℤ} {i : ℤ}

@[simp] theorem length_occurrences (n : ℕ) (indices : List ℤ) :
    (occurrences n indices).length = n := by
  rw [occurrences, List.length_map, List.length_range]

theorem getElem_occurrences {k : ℕ} (hk : k < (occurrences n indices).length) :
    (occurrences n indices)[k] = indices.count (k : ℤ) := by
  simp only [occurrences, List.getElem_map, List.getElem_range]

theorem mem_occurrences {c : ℤ} :
    c ∈ occurrences n indices ↔ ∃ k < n, (indices.count (k : ℤ) : ℤ) = c := by
  rw [occurrences, List.mem_map]
  simp only [List.mem_range]

theorem max?_occurrences_eq_some_iff {c : ℤ} : (occurrences n indices).max? = some c
    ↔ ∃ i < n, (∀ k < n, indices.count (k : ℤ) ≤ indices.count (i : ℤ)) ∧
      (indices.count (i : ℤ) : ℤ) = c := by
  rw [List.max?_eq_some_iff, mem_occurrences]
  constructor
  · rintro ⟨⟨i, hi, rfl⟩, hle⟩
    exact ⟨i, hi, fun k hk ↦ by exact_mod_cast hle _ (mem_occurrences.mpr ⟨k, hk, rfl⟩), rfl⟩
  · rintro ⟨i, hi, hle, rfl⟩
    refine ⟨⟨i, hi, rfl⟩, fun c hc ↦ ?_⟩
    obtain ⟨k, hk, rfl⟩ := mem_occurrences.mp hc
    exact_mod_cast hle k hk

theorem min?_occurrences_eq_some_iff {c : ℤ} : (occurrences n indices).min? = some c
    ↔ ∃ i < n, (∀ k < n, indices.count (i : ℤ) ≤ indices.count (k : ℤ)) ∧
      (indices.count (i : ℤ) : ℤ) = c := by
  rw [List.min?_eq_some_iff, mem_occurrences]
  constructor
  · rintro ⟨⟨i, hi, rfl⟩, hle⟩
    exact ⟨i, hi, fun k hk ↦ by exact_mod_cast hle _ (mem_occurrences.mpr ⟨k, hk, rfl⟩), rfl⟩
  · rintro ⟨i, hi, hle, rfl⟩
    refine ⟨⟨i, hi, rfl⟩, fun c hc ↦ ?_⟩
    obtain ⟨k, hk, rfl⟩ := mem_occurrences.mp hc
    exact_mod_cast hle k hk

theorem set_occurrences (n : ℕ) (indices : List ℤ) (k : ℕ) :
    (occurrences n indices).set k (indices.count (k : ℤ) + 1)
      = occurrences n (indices ++ [(k : ℤ)]) := by
  refine List.ext_getElem ?_ fun j hj hj' ↦ ?_
  · rw [List.length_set, length_occurrences, length_occurrences]
  · rw [List.getElem_set, getElem_occurrences hj', List.count_append, List.count_singleton]
    by_cases hjk : k = j
    · subst hjk
      rw [if_pos rfl, if_pos (beq_self_eq_true _), Nat.cast_add, Nat.cast_one]
    · rw [if_neg hjk, getElem_occurrences, if_neg, Nat.add_zero]
      rw [beq_iff_eq, Nat.cast_inj]
      exact hjk

theorem bumpCounter_occurrences_eq_some_iff :
    bumpCounter (occurrences n indices) i = some counters
      ↔ (0 ≤ i ∧ i < n) ∧ indices.count i + 1 < 2 ^ 31
        ∧ occurrences n (indices ++ [i]) = counters := by
  rw [bumpCounter, length_occurrences]
  by_cases hi : 0 ≤ i ∧ i < n
  · obtain ⟨k, rfl⟩ := Int.eq_ofNat_of_zero_le hi.1
    have hk : k < n := by exact_mod_cast hi.2
    have hget : (occurrences n indices).getD k 0 = indices.count (k : ℤ) := by
      rw [List.getD_eq_getElem _ _ ((length_occurrences n indices).symm ▸ hk), getElem_occurrences]
    rw [if_pos hi, Int.toNat_natCast, hget, Option.map_eq_some_iff, and_iff_right hi,
      ← set_occurrences]
    simp only [checkInt_eq_some_iff]
    constructor
    · rintro ⟨c, ⟨hfits, rfl⟩, hset⟩
      exact ⟨by omega, hset⟩
    · rintro ⟨hfits, hset⟩
      exact ⟨_, ⟨⟨by omega, by omega⟩, rfl⟩, hset⟩
  · rw [if_neg hi]
    exact iff_of_false (fun h ↦ Option.some_ne_none counters h.symm) fun h ↦ hi h.1

/-- **What the counters are.** They have values exactly if every index is in bounds and none occurs
too often; and then each is the number of its occurrences. -/
theorem tallyCounters_eq_some_iff :
    tallyCounters n indices = some counters
      ↔ (∀ i ∈ indices, 0 ≤ i ∧ i < n) ∧ (∀ i, indices.count i < 2 ^ 31)
        ∧ occurrences n indices = counters := by
  induction indices using List.reverseRecOn generalizing counters with
  | nil =>
    have hzero : occurrences n [] = List.replicate n 0 :=
      List.eq_replicate_iff.mpr ⟨length_occurrences n [], fun c hc ↦ by
        obtain ⟨k, -, rfl⟩ := mem_occurrences.mp hc
        rfl⟩
    rw [tallyCounters, List.foldlM_nil, hzero]
    exact ⟨fun h ↦ ⟨fun i hi ↦ absurd hi List.not_mem_nil, fun i ↦ Nat.two_pow_pos 31,
      Option.some.inj h⟩, fun h ↦ congrArg some h.2.2⟩
  | append_singleton indices i ih =>
    have hcount : (∀ j, (indices ++ [i]).count j < 2 ^ 31)
        ↔ (∀ j, indices.count j < 2 ^ 31) ∧ indices.count i + 1 < 2 ^ 31 := by
      simp only [List.count_append, List.count_singleton, beq_iff_eq]
      constructor
      · intro h
        refine ⟨fun j ↦ (Nat.le_add_right _ _).trans_lt (h j), ?_⟩
        have hi := h i
        rwa [if_pos rfl] at hi
      · rintro ⟨hall, hi⟩ j
        split_ifs with hj
        · exact hj ▸ hi
        · exact hall j
    rw [tallyCounters, List.foldlM_append, ← tallyCounters, Option.bind_eq_bind,
      Option.bind_eq_some_iff]
    simp only [ih, List.foldlM_cons, List.foldlM_nil, bind_pure, hcount, List.forall_mem_append,
      List.forall_mem_singleton]
    constructor
    · rintro ⟨counters', ⟨hin, hfits, rfl⟩, hbump⟩
      obtain ⟨hi, hfit, hcounters⟩ := bumpCounter_occurrences_eq_some_iff.mp hbump
      exact ⟨⟨hin, hi⟩, ⟨hfits, hfit⟩, hcounters⟩
    · rintro ⟨⟨hin, hi⟩, ⟨hfits, hfit⟩, hcounters⟩
      exact ⟨_, ⟨hin, hfits, rfl⟩, bumpCounter_occurrences_eq_some_iff.mpr ⟨hi, hfit, hcounters⟩⟩

theorem tallyCounters_eq_some_iff_of_inBounds (h : ∀ i ∈ indices, 0 ≤ i ∧ i < n) :
    tallyCounters n indices = some counters
      ↔ (∀ k : ℕ, indices.count (k : ℤ) < 2 ^ 31) ∧ occurrences n indices = counters := by
  rw [tallyCounters_eq_some_iff, and_iff_right h]
  refine and_congr_left fun _ ↦ ⟨fun hfits k ↦ hfits k, fun hfits i ↦ ?_⟩
  rcases Int.lt_or_le i 0 with hneg | hnonneg
  · rw [List.count_eq_zero_of_not_mem fun hi ↦ absurd (h i hi).1 (Int.not_le.mpr hneg)]
    exact Nat.two_pow_pos 31
  · obtain ⟨k, rfl⟩ := Int.eq_ofNat_of_zero_le hnonneg
    exact hfits k

theorem sum_count_eq_length (h : ∀ i ∈ indices, 0 ≤ i ∧ i < n) :
    ((List.range n).map fun k : ℕ ↦ indices.count (k : ℤ)).sum = indices.length := by
  have hcomm := sum_map_countP_comm (fun (k : ℕ) (i : ℤ) ↦ i == (k : ℤ)) (List.range n) indices
  have hone : ∀ i ∈ indices, ((List.range n).countP fun k : ℕ ↦ i == (k : ℤ)) = 1 := by
    intro i hi
    obtain ⟨k, rfl⟩ := Int.eq_ofNat_of_zero_le (h i hi).1
    have hk : k < n := by exact_mod_cast (h k hi).2
    rw [← List.count_eq_one_of_mem List.nodup_range (List.mem_range.mpr hk), List.count]
    refine List.countP_congr fun j _ ↦ ?_
    rw [beq_iff_eq, beq_iff_eq, Nat.cast_inj, eq_comm]
  rw [List.map_congr_left hone, List.map_const', List.sum_replicate, smul_eq_mul, mul_one] at hcomm
  exact hcomm

/-- **The counters add up.** -/
theorem sum_occurrences (h : ∀ i ∈ indices, 0 ≤ i ∧ i < n) :
    (occurrences n indices).sum = indices.length := by
  rw [← sum_count_eq_length h, occurrences, Nat.cast_list_sum, List.map_map]
  rfl

end

/-! ## Even counters -/

/-- No two of the first `m` values differ by more than one. -/
def IsEven (f : ℕ → ℕ) (m : ℕ) : Prop := ∀ i < m, ∀ j < m, f i ≤ f j + 1

section

variable {f : ℕ → ℕ} {m i j : ℕ}

theorem IsEven.not_dvd_sum (h : IsEven f m) (hi : i < m) (hj : j < m) (hlt : f j < f i) :
    ¬m ∣ ((List.range m).map f).sum := by
  have hfi : f i = f j + 1 := Nat.le_antisymm (h i hi j hj) hlt
  have hlow : ∀ k ∈ List.range m, f j ≤ f k := fun k hk ↦ by
    have := h i hi k (List.mem_range.mp hk)
    omega
  have hhigh : ∀ k ∈ List.range m, f k ≤ f j + 1 := fun k hk ↦ h k (List.mem_range.mp hk) j hj
  have hmul : ∀ c, ((List.range m).map fun _ ↦ c).sum = m * c := fun c ↦ by
    rw [List.map_const', List.sum_replicate, smul_eq_mul, List.length_range]
  have hleft : m * f j < ((List.range m).map f).sum := by
    rw [← hmul]
    exact List.sum_lt_sum _ _ hlow ⟨i, List.mem_range.mpr hi, hlt⟩
  have hright : ((List.range m).map f).sum < m * (f j + 1) := by
    rw [← hmul]
    exact List.sum_lt_sum _ _ hhigh ⟨j, List.mem_range.mpr hj, Nat.lt_succ_self _⟩
  rintro ⟨t, ht⟩
  rw [ht] at hleft hright
  have := Nat.lt_of_mul_lt_mul_left hleft
  have := Nat.lt_of_mul_lt_mul_left hright
  omega

/-- **Even counters are equal exactly if their number divides their sum.** -/
theorem IsEven.forall_eq_iff_dvd_sum (h : IsEven f m) :
    (∀ i < m, ∀ j < m, f i = f j) ↔ m ∣ ((List.range m).map f).sum := by
  constructor
  · intro hall
    rcases Nat.eq_zero_or_pos m with rfl | hpos
    · exact Nat.dvd_refl 0
    · have hconst : (List.range m).map f = (List.range m).map fun _ ↦ f 0 :=
        List.map_congr_left fun k hk ↦ hall k (List.mem_range.mp hk) 0 hpos
      rw [hconst, List.map_const', List.sum_replicate, smul_eq_mul, List.length_range]
      exact Nat.dvd_mul_right m (f 0)
  · intro hdvd i hi j hj
    rcases Nat.lt_trichotomy (f i) (f j) with hlt | heq | hgt
    · exact absurd hdvd (h.not_dvd_sum hj hi hlt)
    · exact heq
    · exact absurd hdvd (h.not_dvd_sum hi hj hgt)

end

end NatGhost
