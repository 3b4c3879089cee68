import Mathlib.Data.List.Count
import Mathlib.Data.Nat.Notation
import Mathlib.Tactic.SplitIfs
import Mathlib.Tactic.TypeStar

/-!
# Neighbouring elements

`adjacent xs` are the pairs of elements next to each other, so its first components are all elements
but the last and its second components all but the first. `follows xs a b` counts by position how
often `b` comes right behind `a`, and `count_adjacent` says that this is how often the pair occurs.

A list enters a property as often as it leaves it, give or take one (`countP_enter_add`). If there
are only two elements, that is a statement about the pairs of different ones.
-/

namespace NatGhost

variable {κ : Type*}

/-- The pairs of neighbouring elements, in order. -/
def adjacent (xs : List κ) : List (κ × κ) := xs.zip xs.tail

theorem adjacent_cons_cons (x y : κ) (xs : List κ) :
    adjacent (x :: y :: xs) = (x, y) :: adjacent (y :: xs) := rfl

theorem adjacent_concat_concat (xs : List κ) (x y : κ) :
    adjacent (xs ++ [x] ++ [y]) = adjacent (xs ++ [x]) ++ [(x, y)] := by
  induction xs with
  | nil => rfl
  | cons z xs ih =>
    cases xs with
    | nil => rfl
    | cons w xs =>
      simp only [List.cons_append, adjacent_cons_cons] at ih ⊢
      rw [ih]

theorem length_adjacent (xs : List κ) : (adjacent xs).length = xs.length - 1 := by
  rw [adjacent, List.length_zip, List.length_tail, Nat.min_eq_right (Nat.sub_le _ _)]

theorem adjacent_replicate (n : ℕ) (x : κ) :
    adjacent (List.replicate (n + 1) x) = List.replicate n (x, x) := by
  rw [adjacent, List.tail_replicate, List.zip_replicate, Nat.add_sub_cancel,
    Nat.min_eq_right (Nat.le_succ n)]

theorem map_fst_adjacent (xs : List κ) : (adjacent xs).map Prod.fst = xs.dropLast := by
  induction xs with
  | nil => rfl
  | cons x xs ih =>
    cases xs with
    | nil => rfl
    | cons y xs => rw [adjacent_cons_cons, List.map_cons, ih, List.dropLast_cons_cons]

theorem map_snd_adjacent (xs : List κ) : (adjacent xs).map Prod.snd = xs.tail := by
  rw [adjacent, List.map_snd_zip]
  rw [List.length_tail]
  exact Nat.sub_le _ _

/-! ## Counting by position -/

section Follows

variable [DecidableEq κ]

/-- How often `b` comes right behind `a`. -/
def follows (xs : List κ) (a b : κ) : ℕ :=
  (List.range xs.length).countP fun i ↦ decide (1 ≤ i ∧ xs[i - 1]? = some a ∧ xs[i]? = some b)

theorem follows_cons (x a b : κ) (xs : List κ) : follows (x :: xs) a b
    = (List.range xs.length).countP fun i ↦ decide ((x :: xs)[i]? = some a ∧ xs[i]? = some b) := by
  rw [follows, List.length_cons, List.range_succ_eq_map, List.countP_cons, List.countP_map, if_neg,
    Nat.add_zero]
  · refine List.countP_congr fun i _ ↦ ?_
    rw [Function.comp_apply, decide_eq_true_iff, decide_eq_true_iff, Nat.succ_eq_add_one,
      Nat.add_sub_cancel, List.getElem?_cons_succ]
    exact and_iff_right (Nat.le_add_left 1 i)
  · rw [decide_eq_true_iff]
    exact fun h ↦ absurd h.1 (Nat.not_succ_le_zero 0)

theorem follows_cons_cons (x y a b : κ) (xs : List κ) :
    follows (x :: y :: xs) a b = follows (y :: xs) a b + if x = a ∧ y = b then 1 else 0 := by
  rw [follows_cons, List.length_cons, List.range_succ_eq_map, List.countP_cons, List.countP_map,
    follows_cons]
  simp only [decide_eq_true_iff, List.getElem?_cons_zero, Option.some.injEq]
  rfl

/-- **A pair of neighbours occurs at each position where its second element follows the first.** -/
theorem count_adjacent (xs : List κ) (a b : κ) : (adjacent xs).count (a, b) = follows xs a b := by
  induction xs with
  | nil => rfl
  | cons x xs ih =>
    cases xs with
    | nil => rw [follows_cons]; rfl
    | cons y xs =>
      rw [adjacent_cons_cons, List.count_cons, ih, follows_cons_cons]
      refine congrArg (_ + ·) (if_congr ?_ rfl rfl)
      rw [beq_iff_eq, Prod.mk.injEq]

/-- What comes right behind `a`, in order. -/
def successors (xs : List κ) (a : κ) : List κ :=
  ((adjacent xs).filter fun e ↦ decide (e.1 = a)).map Prod.snd

theorem count_successors (xs : List κ) (a b : κ) : (successors xs a).count b = follows xs a b := by
  rw [← count_adjacent, successors, List.count, List.countP_map, List.countP_filter, List.count]
  refine List.countP_congr fun e _ ↦ ?_
  rw [Bool.and_eq_true, Function.comp_apply, beq_iff_eq, decide_eq_true_iff, beq_iff_eq,
    Prod.ext_iff]
  exact and_comm

theorem length_successors (xs : List κ) (a : κ) :
    (successors xs a).length = xs.dropLast.count a := by
  rw [successors, List.length_map, ← List.countP_eq_length_filter, ← map_fst_adjacent, List.count,
    List.countP_map]
  rfl

/-- What comes right in front of `b`, in order. -/
def predecessors (xs : List κ) (b : κ) : List κ :=
  ((adjacent xs).filter fun e ↦ decide (e.2 = b)).map Prod.fst

theorem count_predecessors (xs : List κ) (a b : κ) :
    (predecessors xs b).count a = follows xs a b := by
  rw [← count_adjacent, predecessors, List.count, List.countP_map, List.countP_filter, List.count]
  refine List.countP_congr fun e _ ↦ ?_
  rw [Bool.and_eq_true, Function.comp_apply, beq_iff_eq, decide_eq_true_iff, beq_iff_eq,
    Prod.ext_iff]

theorem length_predecessors (xs : List κ) (b : κ) :
    (predecessors xs b).length = xs.tail.count b := by
  rw [predecessors, List.length_map, ← List.countP_eq_length_filter, ← map_snd_adjacent, List.count,
    List.countP_map]
  rfl

theorem mem_dropLast_of_mem_predecessors {xs : List κ} {a b : κ} (h : a ∈ predecessors xs b) :
    a ∈ xs.dropLast := by
  obtain ⟨e, he, rfl⟩ := List.mem_map.mp h
  rw [← map_fst_adjacent]
  exact List.mem_map_of_mem (List.mem_filter.mp he).1

end Follows

/-! ## Pieces of length two -/

theorem map_range_take_drop (xs : List κ) :
    (List.range (xs.length - 1)).map (fun i ↦ (xs.drop i).take 2)
      = (adjacent xs).map fun e ↦ [e.1, e.2] := by
  induction xs with
  | nil => rfl
  | cons x xs ih =>
    cases xs with
    | nil => rfl
    | cons y xs =>
      rw [adjacent_cons_cons, List.map_cons, ← ih, List.length_cons, Nat.add_sub_cancel,
        List.length_cons, List.range_succ_eq_map, List.map_cons, List.map_map, Nat.add_sub_cancel]
      rfl

/-! ## Two elements -/

section Two

variable [DecidableEq κ] {xs : List κ} {a b : κ}

omit [DecidableEq κ] in
/-- **Entering and leaving.** A list enters a property as often as it leaves it, up to what its
first and its last element have of it. -/
theorem countP_enter_add (p : κ → Bool) (xs : List κ) :
    (adjacent xs).countP (fun e ↦ !p e.1 && p e.2) + xs.head?.toList.countP p
      = (adjacent xs).countP (fun e ↦ p e.1 && !p e.2) + xs.getLast?.toList.countP p := by
  induction xs with
  | nil => rfl
  | cons x xs ih =>
    cases xs with
    | nil => rfl
    | cons y xs =>
      rw [adjacent_cons_cons, List.getLast?_cons_cons, List.countP_cons, List.countP_cons]
      simp only [List.head?_cons, Option.toList_some, List.countP_singleton] at ih ⊢
      cases hx : p x <;> cases hy : p y
      all_goals
        rw [hy] at ih
        simp only [Bool.not_true, Bool.not_false, Bool.and_true, Bool.and_false,
          Bool.and_self, if_true, Bool.false_eq_true, if_false, Nat.add_zero] at ih ⊢
        omega

theorem countP_adjacent_of_two (hab : a ≠ b) (h : ∀ x ∈ xs, x = a ∨ x = b) (q : κ × κ → Bool) :
    (adjacent xs).countP q
      = (if q (a, a) then follows xs a a else 0) + (if q (a, b) then follows xs a b else 0)
        + (if q (b, a) then follows xs b a else 0) + (if q (b, b) then follows xs b b else 0) := by
  have hpairs : ∀ e ∈ adjacent xs, e = (a, a) ∨ e = (a, b) ∨ e = (b, a) ∨ e = (b, b) := by
    rintro ⟨x, y⟩ he
    have hx := h x (List.of_mem_zip he).1
    have hy := h y (List.mem_of_mem_tail (List.of_mem_zip he).2)
    rcases hx with rfl | rfl <;> rcases hy with rfl | rfl <;> simp
  rw [← count_adjacent, ← count_adjacent, ← count_adjacent, ← count_adjacent]
  generalize adjacent xs = ps at hpairs
  induction ps with
  | nil => simp
  | cons e ps ih =>
    rw [List.forall_mem_cons] at hpairs
    have ih := ih hpairs.2
    simp only [List.countP_cons, List.count_cons, ih]
    rcases hpairs.1 with rfl | rfl | rfl | rfl <;> simp [hab, hab.symm] <;> split_ifs <;> omega

/-- **Edges alternate**: of two elements, neither follows the other twice more often. -/
theorem follows_le_succ (hab : a ≠ b) (h : ∀ x ∈ xs, x = a ∨ x = b) :
    follows xs a b ≤ follows xs b a + 1 := by
  have hedges := countP_enter_add (fun x ↦ decide (x = b)) xs
  have henter : (adjacent xs).countP (fun e ↦ !decide (e.1 = b) && decide (e.2 = b))
      = follows xs a b := by
    rw [countP_adjacent_of_two hab h]
    simp [hab]
  have hleave : (adjacent xs).countP (fun e ↦ decide (e.1 = b) && !decide (e.2 = b))
      = follows xs b a := by
    rw [countP_adjacent_of_two hab h]
    simp [hab]
  have hlast : xs.getLast?.toList.countP (fun x ↦ decide (x = b)) ≤ 1 := by
    refine Nat.le_trans List.countP_le_length ?_
    cases xs.getLast? with
    | none => exact Nat.zero_le 1
    | some x => exact Nat.le_refl 1
  rw [henter, hleave] at hedges
  omega

theorem countP_adjacent_ne (hab : a ≠ b) (h : ∀ x ∈ xs, x = a ∨ x = b) :
    (adjacent xs).countP (fun e ↦ decide (e.2 ≠ e.1)) = follows xs a b + follows xs b a := by
  rw [countP_adjacent_of_two hab h]
  simp [hab, hab.symm]

theorem length_sub_one_eq (hab : a ≠ b) (h : ∀ x ∈ xs, x = a ∨ x = b) :
    xs.length - 1 = follows xs a a + follows xs a b + follows xs b a + follows xs b b := by
  rw [← length_adjacent, ← List.countP_true]
  exact countP_adjacent_of_two hab h fun _ ↦ true

end Two

end NatGhost
