import Mathlib.Algebra.BigOperators.Group.List.Lemmas
import Mathlib.Algebra.Ring.Nat
import Mathlib.Data.List.Induction
import Mathlib.Logic.Function.Iterate
import Mathlib.Tactic.SplitIfs
import Mathlib.Tactic.TypeStar

/-!
# Tables of counters

A table with one counter for each of `n` properties, and a loop that goes through all properties for
each element: `countTable`. A counter is incremented once for each element with its property
(`countTable_eq`). The counts by property and the counts by element have the same sum
(`sum_map_countP_comm`).
-/

namespace NatGhost

variable {α γ : Type*}

/-! ## Changing a table -/

theorem modify_map_range (f : γ → γ) (g : ℕ → γ) (k n : ℕ) :
    ((List.range n).map g).modify k f
      = (List.range n).map fun i ↦ if i = k then f (g i) else g i := by
  refine List.ext_getElem ?_ fun i hi hi' ↦ ?_
  · rw [List.length_modify, List.length_map, List.length_map]
  · rw [List.getElem_modify, List.getElem_map, List.getElem_map, List.getElem_range]
    exact if_congr eq_comm rfl rfl

theorem foldl_modify_range (q : ℕ → Prop) [DecidablePred q] (f : γ → γ) (g : ℕ → γ) (k n : ℕ) :
    (List.range k).foldl (fun table i ↦ if q i then table.modify i f else table)
        ((List.range n).map g)
      = (List.range n).map fun i ↦ if i < k ∧ q i then f (g i) else g i := by
  induction k with
  | zero =>
    refine List.map_congr_left fun i _ ↦ ?_
    rw [if_neg fun h ↦ Nat.not_lt_zero i h.1]
  | succ k ih =>
    rw [List.range_succ, List.foldl_append, ih, List.foldl_cons, List.foldl_nil]
    split_ifs with hk
    · rw [modify_map_range]
      refine List.map_congr_left fun i _ ↦ ?_
      by_cases hi : i = k
      · subst hi
        rw [if_pos rfl, if_neg fun h ↦ Nat.lt_irrefl i h.1, if_pos ⟨Nat.lt_succ_self i, hk⟩]
      · rw [if_neg hi]
        refine if_congr (and_congr_left fun _ ↦ ?_) rfl rfl
        omega
    · refine List.map_congr_left fun i _ ↦ if_congr (and_congr_left fun hq ↦ ?_) rfl rfl
      have hi : i ≠ k := fun h ↦ hk (h ▸ hq)
      omega

/-! ## Counting into a table -/

section

variable (q : α → ℕ → Prop) [∀ a i, Decidable (q a i)]

/-- `for (a : xs) for (i = 0; i < n; ++i) if (q(a, i)) ++table[i];`, with the counters as they
are. -/
def countTable (zero : γ) (incr : γ → γ) (n : ℕ) (xs : List α) : List γ :=
  xs.foldl (fun table a ↦ (List.range n).foldl
    (fun table i ↦ if q a i then table.modify i incr else table) table) (List.replicate n zero)

/-- **Each counter counts the elements with its property.** -/
theorem countTable_eq (zero : γ) (incr : γ → γ) (n : ℕ) (xs : List α) :
    countTable q zero incr n xs
      = (List.range n).map fun i ↦ incr^[xs.countP fun a ↦ decide (q a i)] zero := by
  induction xs using List.reverseRecOn with
  | nil =>
    rw [countTable, List.foldl_nil]
    exact (List.eq_replicate_iff.mpr ⟨by rw [List.length_map, List.length_range], fun c hc ↦
      (List.mem_map.mp hc).choose_spec.2.symm⟩).symm
  | append_singleton xs a ih =>
    rw [countTable, List.foldl_append, ← countTable, ih, List.foldl_cons, List.foldl_nil,
      foldl_modify_range]
    refine List.map_congr_left fun i hi ↦ ?_
    rw [List.countP_append, List.countP_singleton]
    by_cases ha : q a i
    · rw [if_pos ⟨List.mem_range.mp hi, ha⟩, if_pos (decide_eq_true ha),
        Function.iterate_succ_apply']
    · rw [if_neg fun h ↦ ha h.2, if_neg fun h ↦ ha (of_decide_eq_true h), Nat.add_zero]

end

/-! ## Counting both ways -/

theorem countP_eq_sum_map (p : α → Bool) (xs : List α) :
    xs.countP p = (xs.map fun a ↦ if p a = true then 1 else 0).sum := by
  induction xs with
  | nil => rfl
  | cons a xs ih => rw [List.countP_cons, ih, List.map_cons, List.sum_cons, Nat.add_comm]

/-- **By element or by property**, the counts have the same sum. -/
theorem sum_map_countP_comm {β : Type*} (r : α → β → Bool) (xs : List α) (ys : List β) :
    (xs.map fun a ↦ ys.countP (r a)).sum = (ys.map fun b ↦ xs.countP fun a ↦ r a b).sum := by
  induction ys with
  | nil => exact List.sum_eq_zero fun n hn ↦ (List.mem_map.mp hn).choose_spec.2.symm
  | cons b ys ih =>
    simp only [List.countP_cons]
    rw [List.sum_map_add, ih, List.map_cons, List.sum_cons, countP_eq_sum_map, Nat.add_comm]

end NatGhost
