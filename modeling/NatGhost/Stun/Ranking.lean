import Mathlib.Logic.Equiv.Defs
import NatGhost.Foundation.Comparator
import NatGhost.Stun.Discovery

/-!
# The sorted table and the chosen server

After the bursts `main` sorts the table with `cmp_rtt` and takes the first valid entry. The
comparator puts the sentinel behind every real round-trip time, so the first valid entry is a
fastest one, provided that a valid entry never carries the sentinel. That is `TableInv`, and it is
the only thing the ranking needs to know about the bursts.
-/

namespace NatGhost

variable {n : ℕ}

/-! ## The comparator -/

theorem cmpRtt_le_iff_of_nonneg {a b : StunCtx} (ha : 0 ≤ a.rttMs) (hb : 0 ≤ b.rttMs) :
    cmpRtt a b ≤ 0 ↔ a.rttMs ≤ b.rttMs := by
  rw [cmpRtt, if_neg (by omega), if_neg (by omega), if_neg (by omega)]
  split_ifs <;> omega

theorem nonneg_of_cmpRtt_le {a b : StunCtx} (h : cmpRtt a b ≤ 0) (hb : 0 ≤ b.rttMs) :
    0 ≤ a.rttMs := by
  by_contra ha
  rw [cmpRtt, if_neg (by omega), if_pos (by omega)] at h
  omega

theorem cmpRtt_le_iff {a b : StunCtx} :
    cmpRtt a b ≤ 0 ↔ b.rttMs < 0 ∨ 0 ≤ a.rttMs ∧ a.rttMs ≤ b.rttMs := by
  rcases Int.lt_or_le b.rttMs 0 with hb | hb
  · rw [cmpRtt]
    split_ifs <;> omega
  · constructor
    · intro h
      have ha := nonneg_of_cmpRtt_le h hb
      exact Or.inr ⟨ha, (cmpRtt_le_iff_of_nonneg ha hb).mp h⟩
    · rintro (h | ⟨ha, hle⟩)
      · omega
      · exact (cmpRtt_le_iff_of_nonneg ha hb).mpr hle

theorem consistent_cmpRtt : ConsistentComparator cmpRtt where
  swap a b := by
    rw [cmpRtt, cmpRtt]
    split_ifs <;> omega
  trans a b c hab hbc := by
    rw [cmpRtt_le_iff] at *
    omega

/-! ## Runs -/

/-- A run of the program: the bursts, and one of the orders `qsort` may produce. -/
structure Run (n : ℕ) extends Session n where
  /-- The permutation by which `qsort` rearranges the table. -/
  order : Equiv.Perm (Fin n)
  sorted : SortedBy cmpRtt (toSession.final ∘ order)

namespace Run

variable (R : Run n)

/-- The table after `qsort`. -/
def table : StunList n := R.final ∘ R.order

/-- The index `best`. -/
def best : Option (Fin n) := selectBest R.table

theorem tableInv : TableInv R.table := fun i ↦ R.toSession.tableInv.2 (R.order i)

theorem nonneg_of_isValidStun {i : Fin n} (h : isValidStun R.table i) : 0 ≤ (R.table i).rttMs := by
  rcases (R.tableInv i).rtt with hwaiting | hnonneg
  · exact absurd ((R.tableInv i).waiting hwaiting).1 h.1
  · exact hnonneg

theorem answered_prefix {i j : Fin n} (hij : i ≤ j) (hj : (R.table j).Answered) :
    (R.table i).Answered ∧ (R.table i).rttMs ≤ (R.table j).rttMs := by
  have hnonneg : 0 ≤ (R.table j).rttMs := ((R.tableInv j).rtt.resolve_left hj)
  rcases cmpRtt_le_iff.mp (R.sorted i j hij) with hneg | ⟨hi, hle⟩
  · change (R.table j).rttMs < 0 at hneg
    omega
  · change 0 ≤ (R.table i).rttMs at hi
    exact ⟨fun h ↦ by omega, hle⟩

theorem best_eq_none_iff : R.best = none ↔ ∀ i, ¬isValidStun R.table i := by
  rw [best, selectBest, ← firstIndex, firstIndex_eq_none_iff]
  simp only [decide_eq_false_iff_not]

theorem isValidStun_of_best {b : Fin n} (h : R.best = some b) : isValidStun R.table b :=
  of_decide_eq_true (firstIndex_eq_some h).1

theorem best_rtt_le {b i : Fin n} (h : R.best = some b) (hi : isValidStun R.table i) :
    (R.table b).rttMs ≤ (R.table i).rttMs := by
  have hcmp := cmp_firstIndex_le R.sorted h (decide_eq_true hi)
  rcases cmpRtt_le_iff.mp hcmp with hneg | ⟨-, hle⟩
  · change (R.table i).rttMs < 0 at hneg
    have := R.nonneg_of_isValidStun hi
    omega
  · exact hle

/-- **The choice of a server.** The comparator is consistent; in the sorted table the answered
servers come before all others in non-decreasing round-trip time; the chosen server is valid and has
the least round-trip time of all valid servers; and no server is chosen exactly when none is
valid. -/
theorem best_is_fastest :
    ConsistentComparator cmpRtt ∧
      (∀ i j, i ≤ j → (R.table j).Answered →
        (R.table i).Answered ∧ (R.table i).rttMs ≤ (R.table j).rttMs) ∧
      (∀ b, R.best = some b → isValidStun R.table b ∧ 0 ≤ (R.table b).rttMs ∧
        ∀ i, isValidStun R.table i → (R.table b).rttMs ≤ (R.table i).rttMs) ∧
      (R.best = none ↔ ∀ i, ¬isValidStun R.table i) :=
  ⟨consistent_cmpRtt, fun _ _ hij hj ↦ R.answered_prefix hij hj,
    fun _ hb ↦ ⟨R.isValidStun_of_best hb, R.nonneg_of_isValidStun (R.isValidStun_of_best hb),
      fun _ hi ↦ R.best_rtt_le hb hi⟩,
    R.best_eq_none_iff⟩

end Run

end NatGhost
