import Mathlib.Data.List.FinRange
import Mathlib.Data.List.Nodup
import Mathlib.Logic.Equiv.Defs
import Mathlib.Order.Fin.Basic

/-!
# The first entries of a table

Many programs print the first `k` entries of a table that have some property, by a loop that counts
what it has printed. `takeWhere` is that loop, on the list of the places of the table.

What the user expects are the *least* `k` entries with the property (`IsTop`). On a table as it is,
the loop prints those only if every entry among the first `k` is not greater than any later one
(`isTop_takeWhere_iff`); that is so for sorted tables. A table rearranged by a permutation has the
same entries at other places, and `IsTop.map` carries the statement over.
-/

namespace NatGhost

variable {ι β : Type*}

/-! ## The loop -/

/-- `for (i = 0, c = 0; i < n && c < k; i++) if (p(i)) { print(i); c++; }`, for the places still to
come and the number still to be printed. -/
def takeWhere (p : ι → Bool) : ℕ → List ι → List ι
  | 0, _ => []
  | _ + 1, [] => []
  | k + 1, i :: is => if p i then i :: takeWhere p k is else takeWhere p (k + 1) is

theorem takeWhere_eq (p : ι → Bool) (k : ℕ) (is : List ι) :
    takeWhere p k is = (is.filter p).take k := by
  induction is generalizing k with
  | nil => cases k <;> rfl
  | cons i is ih =>
    cases k with
    | zero => rfl
    | succ k =>
      rw [takeWhere, ih, ih, List.filter_cons]
      split_ifs
      · rfl
      · rfl

/-! ## The least entries -/

/-- `listed` are `k` places of `is` with least keys, or all of them, least first. -/
structure IsTop [LE β] (key : ι → β) (k : ℕ) (is listed : List ι) : Prop where
  number : listed.length = min k is.length
  distinct : listed.Nodup
  subset : ∀ i ∈ listed, i ∈ is
  ascending : listed.Pairwise fun i j ↦ key i ≤ key j
  least : ∀ i ∈ listed, ∀ j ∈ is, j ∉ listed → key i ≤ key j

theorem IsTop.map {κ : Type*} [LE β] {key : κ → β} {f : ι → κ} {k : ℕ} {is listed : List ι}
    {js : List κ} (h : IsTop (key ∘ f) k is listed) (hf : Function.Injective f)
    (hperm : (is.map f).Perm js) : IsTop key k js (listed.map f) where
  number := by
    rw [List.length_map, h.number, ← hperm.length_eq, List.length_map]
  distinct := h.distinct.map hf
  subset j hj := by
    obtain ⟨i, hi, rfl⟩ := List.mem_map.mp hj
    exact hperm.mem_iff.mp (List.mem_map_of_mem (h.subset i hi))
  ascending := List.pairwise_map.mpr h.ascending
  least j hj j' hj' hnot := by
    obtain ⟨i, hi, rfl⟩ := List.mem_map.mp hj
    obtain ⟨i', hi', rfl⟩ := List.mem_map.mp (hperm.mem_iff.mpr hj')
    exact h.least i hi i' hi' fun hlisted ↦ hnot (List.mem_map_of_mem hlisted)

section

variable [LinearOrder ι] {is : List ι} {k : ℕ}

theorem pairwise_iff_of_increasing (h : is.Pairwise (· < ·)) {R : ι → ι → Prop} :
    is.Pairwise R ↔ ∀ i ∈ is, ∀ j ∈ is, i < j → R i j := by
  induction is with
  | nil => exact iff_of_true List.Pairwise.nil fun i hi ↦ absurd hi List.not_mem_nil
  | cons x is ih =>
    obtain ⟨hx, his⟩ := List.pairwise_cons.mp h
    rw [List.pairwise_cons, ih his]
    constructor
    · rintro ⟨hhead, htail⟩ i hi j hj hlt
      rcases List.mem_cons.mp hj with rfl | hjs
      · rcases List.mem_cons.mp hi with rfl | his
        · exact absurd hlt (lt_irrefl _)
        · exact absurd hlt (lt_asymm (hx i his))
      · rcases List.mem_cons.mp hi with rfl | his
        · exact hhead j hjs
        · exact htail i his j hjs hlt
    · intro hall
      exact ⟨fun j hj ↦ hall x List.mem_cons_self j (List.mem_cons_of_mem x hj) (hx j hj),
        fun i hi j hj ↦ hall i (List.mem_cons_of_mem x hi) j (List.mem_cons_of_mem x hj)⟩

theorem mem_take_iff (h : is.Pairwise (· < ·)) {i : ι} :
    i ∈ is.take k ↔ i ∈ is ∧ is.countP (fun j ↦ decide (j < i)) < k := by
  induction is generalizing k with
  | nil => simp
  | cons j is ih =>
    obtain ⟨hj, his⟩ := List.pairwise_cons.mp h
    cases k with
    | zero => simp
    | succ k =>
      rw [List.take_succ_cons, List.mem_cons, List.mem_cons, ih his, List.countP_cons]
      by_cases hij : i = j
      · subst hij
        have hzero : is.countP (fun j ↦ decide (j < i)) = 0 :=
          List.countP_eq_zero.mpr fun j hj' ↦ by simpa using (hj j hj').le
        simp [hzero]
      · rw [or_iff_right hij, or_iff_right hij]
        refine and_congr_right fun hi ↦ ?_
        rw [if_pos (decide_eq_true (hj i hi)), Nat.add_lt_add_iff_right]

theorem mem_take_of_lt (h : is.Pairwise (· < ·)) {i j : ι} (hi : i ∈ is.take k) (hj : j ∈ is)
    (hlt : j < i) : j ∈ is.take k := by
  rw [mem_take_iff h] at hi ⊢
  refine ⟨hj, lt_of_le_of_lt (List.countP_mono_left fun l _ hl ↦ ?_) hi.2⟩
  exact decide_eq_true ((of_decide_eq_true hl).trans hlt)

/-- **The first places are the least** exactly if none of them has a greater key than a later
place. -/
theorem isTop_take_iff [LE β] {key : ι → β} (h : is.Pairwise (· < ·)) :
    IsTop key k is (is.take k) ↔ ∀ i ∈ is.take k, ∀ j ∈ is, i < j → key i ≤ key j := by
  have htake : (is.take k).Pairwise (· < ·) := h.sublist (List.take_sublist k is)
  constructor
  · intro htop i hi j hj hlt
    by_cases hlisted : j ∈ is.take k
    · exact (pairwise_iff_of_increasing htake).mp htop.ascending i hi j hlisted hlt
    · exact htop.least i hi j hj hlisted
  · intro hall
    refine ⟨List.length_take, htake.imp fun hlt ↦ ne_of_lt hlt, fun i hi ↦ List.mem_of_mem_take hi,
      ?_, fun i hi j hj hnot ↦ ?_⟩
    · exact (pairwise_iff_of_increasing htake).mpr fun i hi j hj hlt ↦
        hall i hi j (List.mem_of_mem_take hj) hlt
    · rcases lt_trichotomy i j with hlt | rfl | hgt
      · exact hall i hi j hj hlt
      · exact absurd hi hnot
      · exact absurd (mem_take_of_lt h hi hj hgt) hnot

end

/-! ## Tables -/

section

variable {n k : ℕ} (p : Fin n → Bool)

def places : List (Fin n) := (List.finRange n).filter p

theorem mem_places {p : Fin n → Bool} {i : Fin n} : i ∈ places p ↔ p i = true := by
  rw [places, List.mem_filter, and_iff_right (List.mem_finRange i)]

theorem places_increasing : (places p).Pairwise (· < ·) :=
  (List.pairwise_lt_finRange n).sublist List.filter_sublist

/-- How many places with the property are in front of a place. -/
def placesBefore (i : Fin n) : ℕ := (List.finRange n).countP fun j ↦ decide (j < i) && p j

theorem countP_places (i : Fin n) :
    (places p).countP (fun j ↦ decide (j < i)) = placesBefore p i := List.countP_filter

/-- **When the loop prints the least entries**: if none of the first entries with the property has a
greater key than a later one. -/
theorem isTop_takeWhere_iff [LE β] {key : Fin n → β} :
    IsTop key k (places p) (takeWhere p k (List.finRange n))
      ↔ ∀ i j, i < j → p i = true → p j = true → placesBefore p i < k → key i ≤ key j := by
  rw [takeWhere_eq, ← places, isTop_take_iff (places_increasing p)]
  simp only [mem_take_iff (places_increasing p), mem_places, countP_places]
  exact ⟨fun h i j hlt hi hj hbefore ↦ h i ⟨hi, hbefore⟩ j hj hlt,
    fun h i hi j hj hlt ↦ h i j hlt hi.1 hj hi.2⟩

theorem places_comp_perm (σ : Equiv.Perm (Fin n)) :
    ((places (p ∘ σ)).map σ).Perm (places p) := by
  rw [List.perm_ext_iff_of_nodup]
  · intro i
    rw [mem_places, List.mem_map]
    constructor
    · rintro ⟨j, hj, rfl⟩
      have hpj : (p ∘ σ) j = true := mem_places.mp hj
      exact hpj
    · intro hi
      refine ⟨σ.symm i, mem_places.mpr ?_, σ.apply_symm_apply i⟩
      rw [Function.comp_apply, σ.apply_symm_apply, hi]
  · have hnodup : (places (p ∘ σ)).Nodup := (places_increasing (p ∘ σ)).imp fun hlt ↦ ne_of_lt hlt
    exact hnodup.map σ.injective
  · exact (places_increasing p).imp fun hlt ↦ ne_of_lt hlt

end

end NatGhost
