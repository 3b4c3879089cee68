import Mathlib.Data.List.FinRange
import Mathlib.Order.Fin.Basic

/-!
# Comparators and sorted tables

A C comparator returns a negative, zero or positive number. What a sorting routine may rely on is
that it is *consistent*: swapping the arguments swaps the sign, and "not greater" is transitive.
Totality and reflexivity are then automatic.

A table sorted by a consistent comparator has a useful property that needs no uniqueness of the
order: the first entry with some property is a least entry with that property.

A C++ comparator says whether the first argument is less. `std::sort` may produce any rearrangement
in which no element is less than an earlier one (`Sorts`); which one of them, where elements are
equivalent, is left open.
-/

namespace NatGhost

variable {α : Type*}

/-- A comparator a sorting routine can be given. -/
structure ConsistentComparator (cmp : α → α → ℤ) : Prop where
  /-- Greater one way is less the other way. -/
  swap : ∀ a b, 0 < cmp a b ↔ cmp b a < 0
  /-- Not greater is transitive. -/
  trans : ∀ a b c, cmp a b ≤ 0 → cmp b c ≤ 0 → cmp a c ≤ 0

namespace ConsistentComparator

variable {cmp : α → α → ℤ} (h : ConsistentComparator cmp)

include h

theorem total (a b : α) : cmp a b ≤ 0 ∨ cmp b a ≤ 0 := by
  rcases Int.lt_or_le 0 (cmp a b) with hgt | hle
  · exact Or.inr (Int.le_of_lt ((h.swap a b).mp hgt))
  · exact Or.inl hle

theorem refl (a : α) : cmp a a ≤ 0 := (h.total a a).elim id id

end ConsistentComparator

variable {n : ℕ}

def SortedBy (cmp : α → α → ℤ) (table : Fin n → α) : Prop :=
  ∀ i j, i ≤ j → cmp (table i) (table j) ≤ 0

def firstIndex (p : Fin n → Bool) : Option (Fin n) := (List.finRange n).find? p

theorem firstIndex_eq_none_iff {p : Fin n → Bool} :
    firstIndex p = none ↔ ∀ i, p i = false := by
  rw [firstIndex, List.find?_eq_none]
  exact ⟨fun h i ↦ by simpa using h i (List.mem_finRange i), fun h i _ ↦ by simp [h i]⟩

theorem firstIndex_eq_some {p : Fin n → Bool} {b : Fin n} (h : firstIndex p = some b) :
    p b = true ∧ ∀ i, p i = true → b ≤ i := by
  rw [firstIndex, List.find?_eq_some_iff_append] at h
  obtain ⟨hb, before, after, hsplit, hbefore⟩ := h
  refine ⟨hb, fun i hi ↦ ?_⟩
  have hmem : i ∈ before ++ b :: after := hsplit ▸ List.mem_finRange i
  have hsorted : (before ++ b :: after).Pairwise (· < ·) :=
    hsplit ▸ List.pairwise_lt_finRange n
  rcases List.mem_append.mp hmem with hi' | hi'
  · exact absurd hi (by simpa using hbefore i hi')
  · rcases List.mem_cons.mp hi' with rfl | hi'
    · exact le_rfl
    · exact le_of_lt ((List.pairwise_cons.mp (List.pairwise_append.mp hsorted).2.1).1 i hi')

/-- **First is least.** In a sorted table the first entry with a property is not greater than any
other entry with it. -/
theorem cmp_firstIndex_le {cmp : α → α → ℤ} {table : Fin n → α} (hsorted : SortedBy cmp table)
    {p : Fin n → Bool} {b : Fin n} (hb : firstIndex p = some b) {i : Fin n} (hi : p i = true) :
    cmp (table b) (table i) ≤ 0 :=
  hsorted b i ((firstIndex_eq_some hb).2 i hi)

/-! ## `std::sort` -/

/-- A comparator `std::sort` can be given. -/
structure StrictWeakOrder (less : α → α → Bool) : Prop where
  asymm : ∀ a b, less a b = true → less b a = false
  /-- Not less is transitive. -/
  trans : ∀ a b c, less b a = false → less c b = false → less c a = false

theorem strictWeakOrder_of_key {β : Type*} [LinearOrder β] (key : α → β) {less : α → α → Bool}
    (h : ∀ a b, less a b = true ↔ key a < key b) : StrictWeakOrder less where
  asymm a b hab := by
    rw [← Bool.not_eq_true, h]
    exact lt_asymm ((h a b).mp hab)
  trans a b c hba hcb := by
    rw [← Bool.not_eq_true, h, not_lt] at *
    exact le_trans hba hcb

/-- What `std::sort` may make of a vector. -/
structure Sorts (less : α → α → Bool) (input output : List α) : Prop where
  perm : output.Perm input
  /-- No element is less than an earlier one. -/
  ordered : output.Pairwise fun a b ↦ less b a = false

theorem exists_sorts {less : α → α → Bool} (h : StrictWeakOrder less) (input : List α) :
    ∃ output, Sorts less input output := by
  refine ⟨input.mergeSort fun a b ↦ !less b a, List.mergeSort_perm _ _, ?_⟩
  have hsorted := @List.pairwise_mergeSort α (fun a b ↦ !less b a) (fun a b c hab hbc ↦ ?_)
    (fun a b ↦ ?_) input
  · refine hsorted.imp fun hle ↦ ?_
    rwa [Bool.not_eq_true'] at hle
  · rw [Bool.not_eq_true'] at *
    exact h.trans a b c hab hbc
  · cases hba : less b a with
    | false => rfl
    | true => rw [h.asymm b a hba]; rfl

namespace Sorts

variable {less : α → α → Bool} {input output : List α} (h : Sorts less input output)

include h

/-- **The first elements are the least ones**: nothing behind them is less. -/
theorem not_less_of_take_of_drop (k : ℕ) {a b : α} (ha : a ∈ output.take k)
    (hb : b ∈ output.drop k) :
    less b a = false := by
  have hordered := h.ordered
  rw [← List.take_append_drop k output, List.pairwise_append] at hordered
  exact hordered.2.2 a ha b hb

theorem ordered_take (k : ℕ) : (output.take k).Pairwise fun a b ↦ less b a = false :=
  h.ordered.sublist (List.take_sublist k output)

theorem length_take (k : ℕ) : (output.take k).length = min k input.length := by
  rw [List.length_take, h.perm.length_eq]

theorem mem_drop_of_notMem_take (k : ℕ) {a : α} (ha : a ∈ input) (hnot : a ∉ output.take k) :
    a ∈ output.drop k := by
  have hmem : a ∈ output.take k ++ output.drop k := by
    rw [List.take_append_drop]
    exact h.perm.mem_iff.mpr ha
  exact (List.mem_append.mp hmem).resolve_left hnot

end Sorts

end NatGhost
