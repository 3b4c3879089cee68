import Mathlib.Data.List.Induction
import Mathlib.Data.Nat.Notation
import Mathlib.Order.Bounds.Basic
import Mathlib.Tactic.SplitIfs
import Mathlib.Tactic.TypeStar

/-!
# The longest run of an element

One scan with two numbers: the run of `x` that ends here, and the longest one so far. The invariant
is that each is the greatest length of what it stands for, a block of `x` at the end of the list
(`isGreatest_currRun`) and a block anywhere in it (`isGreatest_maxRun`). A block in a list with one
more element is one that was there before or ends with the new element.
-/

namespace NatGhost

variable {κ : Type*} [DecidableEq κ]

/-- The longest run so far, and the run that ends here. -/
structure RunScan where
  maxRun : ℕ
  currRun : ℕ

def RunScan.step (x : κ) (s : RunScan) (y : κ) : RunScan :=
  if y = x then { maxRun := max s.maxRun (s.currRun + 1), currRun := s.currRun + 1 }
  else { s with currRun := 0 }

def longestRun (x : κ) (xs : List κ) : RunScan := xs.foldl (RunScan.step x) ⟨0, 0⟩

section

variable {x y : κ} {xs : List κ} {k : ℕ}

theorem longestRun_concat (x y : κ) (xs : List κ) :
    longestRun x (xs ++ [y]) = (longestRun x xs).step x y := by
  rw [longestRun, List.foldl_append, List.foldl_cons, List.foldl_nil, longestRun]

theorem currRun_concat (x y : κ) (xs : List κ) : (longestRun x (xs ++ [y])).currRun
    = if y = x then (longestRun x xs).currRun + 1 else 0 := by
  rw [longestRun_concat, RunScan.step]
  split_ifs <;> rfl

theorem maxRun_concat (x y : κ) (xs : List κ) : (longestRun x (xs ++ [y])).maxRun
    = if y = x then max (longestRun x xs).maxRun ((longestRun x xs).currRun + 1)
      else (longestRun x xs).maxRun := by
  rw [longestRun_concat, RunScan.step]
  split_ifs <;> rfl

omit [DecidableEq κ] in
theorem replicate_succ_suffix_concat_iff :
    List.replicate (k + 1) x <:+ xs ++ [y] ↔ y = x ∧ List.replicate k x <:+ xs := by
  rw [List.suffix_concat_iff, List.replicate_succ']
  constructor
  · rintro (hnil | ⟨t, ht, hsuffix⟩)
    · exact absurd hnil (List.append_ne_nil_of_right_ne_nil _ (List.cons_ne_nil x []))
    · obtain ⟨hrun, hlast⟩ := List.append_inj' ht rfl
      rw [hrun]
      exact ⟨(List.singleton_inj.mp hlast).symm, hsuffix⟩
  · rintro ⟨rfl, hsuffix⟩
    exact Or.inr ⟨_, rfl, hsuffix⟩

/-- **The run that ends here** is the longest block at the end. -/
theorem isGreatest_currRun (x : κ) (xs : List κ) :
    IsGreatest {k | List.replicate k x <:+ xs} (longestRun x xs).currRun := by
  induction xs using List.reverseRecOn with
  | nil =>
    refine ⟨List.nil_suffix, fun k hk ↦ ?_⟩
    have hlength := hk.length_le
    rwa [List.length_replicate] at hlength
  | append_singleton xs y ih =>
    rw [currRun_concat]
    split_ifs with hy
    · refine ⟨replicate_succ_suffix_concat_iff.mpr ⟨hy, ih.1⟩, fun k hk ↦ ?_⟩
      cases k with
      | zero => exact Nat.zero_le _
      | succ k => exact Nat.succ_le_succ (ih.2 (replicate_succ_suffix_concat_iff.mp hk).2)
    · refine ⟨List.nil_suffix, fun k hk ↦ ?_⟩
      cases k with
      | zero => exact Nat.le_refl 0
      | succ k => exact absurd (replicate_succ_suffix_concat_iff.mp hk).1 hy

/-- **The longest run so far** is the longest block. -/
theorem isGreatest_maxRun (x : κ) (xs : List κ) :
    IsGreatest {k | List.replicate k x <:+: xs} (longestRun x xs).maxRun := by
  induction xs using List.reverseRecOn with
  | nil =>
    refine ⟨List.nil_infix, fun k hk ↦ ?_⟩
    have hlength := hk.length_le
    rwa [List.length_replicate] at hlength
  | append_singleton xs y ih =>
    have hcurr := isGreatest_currRun x (xs ++ [y])
    rw [currRun_concat] at hcurr
    rw [maxRun_concat]
    split_ifs at hcurr ⊢ with hy
    · refine ⟨?_, fun k hk ↦ ?_⟩
      · rcases le_total (longestRun x xs).maxRun ((longestRun x xs).currRun + 1) with hle | hle
        · rw [max_eq_right hle]
          exact hcurr.1.isInfix
        · rw [max_eq_left hle]
          exact List.infix_concat_iff.mpr (Or.inr ih.1)
      · rcases List.infix_concat_iff.mp hk with hsuffix | hinfix
        · exact Nat.le_trans (hcurr.2 hsuffix) (Nat.le_max_right _ _)
        · exact Nat.le_trans (ih.2 hinfix) (Nat.le_max_left _ _)
    · refine ⟨List.infix_concat_iff.mpr (Or.inr ih.1), fun k hk ↦ ?_⟩
      rcases List.infix_concat_iff.mp hk with hsuffix | hinfix
      · exact Nat.le_trans (hcurr.2 hsuffix) (Nat.zero_le _)
      · exact ih.2 hinfix

end

end NatGhost
