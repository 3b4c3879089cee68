import Mathlib.Data.List.Dedup
import Mathlib.Data.List.Induction
import Mathlib.Data.Nat.Notation
import Mathlib.Logic.Function.Basic
import Mathlib.Tactic.SplitIfs
import Mathlib.Tactic.TypeStar

/-!
# Distances between repetitions

A scan over a list that remembers for each element where it has been seen last, and notes how far
back that was whenever an element comes again. `IsRepeat xs d i` is the same without a scan:
position `i` has the element of the position `d` before it, and no position in between has it.
`count_distances` says that the scan notes `d` as often as there are such positions.

Every position either has an element that was seen before or one that is new, so the number of notes
is what the distinct elements leave of the length.
-/

namespace NatGhost

variable {κ : Type*} [DecidableEq κ]

/-- The positions seen last, and the distances noted. -/
structure LastSeen (κ : Type*) where
  seen : κ → Option ℕ
  distances : List ℕ

/-- One step of the scan: element `x` at position `i`. -/
def LastSeen.step (s : LastSeen κ) (e : κ × ℕ) : LastSeen κ where
  seen := Function.update s.seen e.1 (some e.2)
  distances := s.distances ++ ((s.seen e.1).map (e.2 - ·)).toList

def lastSeen (xs : List κ) : LastSeen κ := xs.zipIdx.foldl LastSeen.step ⟨fun _ ↦ none, []⟩

/-- Position `i` repeats what stands `d` positions before it, for the first time since. -/
def IsRepeat (xs : List κ) (d i : ℕ) : Prop :=
  0 < d ∧ d ≤ i ∧ xs[i - d]? = xs[i]? ∧ ∀ j < i, i - d < j → xs[j]? ≠ xs[i]?

instance (xs : List κ) (d i : ℕ) : Decidable (IsRepeat xs d i) :=
  inferInstanceAs (Decidable (_ ∧ _ ∧ _ ∧ _))

/-- How many positions repeat what stands `d` positions before them. -/
def repeats (xs : List κ) (d : ℕ) : ℕ :=
  (List.range xs.length).countP fun i ↦ decide (IsRepeat xs d i)

section

variable {xs : List κ} {x : κ} {d i j : ℕ}

theorem lastSeen_concat (xs : List κ) (x : κ) :
    lastSeen (xs ++ [x]) = (lastSeen xs).step (x, xs.length) := by
  rw [lastSeen, List.zipIdx_append, List.foldl_append, ← lastSeen, Nat.zero_add]
  rfl

omit [DecidableEq κ] in
theorem getElem?_concat_eq_some_iff {y : κ} (h : x ≠ y) (k : ℕ) :
    (xs ++ [y])[k]? = some x ↔ xs[k]? = some x := by
  rcases Nat.lt_trichotomy k xs.length with hlt | rfl | hgt
  · rw [List.getElem?_append_left hlt]
  · rw [List.getElem?_concat_length, List.getElem?_eq_none (Nat.le_refl _), Option.some.injEq]
    exact iff_of_false h.symm nofun
  · rw [List.getElem?_eq_none (Nat.le_of_lt hgt), List.getElem?_eq_none]
    rw [List.length_append]
    exact hgt

/-- **What is remembered** is the last position of an element. -/
theorem seen_eq_some_iff : (lastSeen xs).seen x = some j ↔
    xs[j]? = some x ∧ ∀ k, j < k → xs[k]? ≠ some x := by
  induction xs using List.reverseRecOn with
  | nil => exact ⟨fun h ↦ absurd h nofun, fun h ↦ absurd h.1 nofun⟩
  | append_singleton xs y ih =>
    rw [lastSeen_concat]
    change Function.update (lastSeen xs).seen y (some xs.length) x = some j ↔ _
    by_cases hx : x = y
    · subst hx
      rw [Function.update_self, Option.some.injEq]
      constructor
      · rintro rfl
        refine ⟨List.getElem?_concat_length, fun k hk ↦ ?_⟩
        rw [List.getElem?_eq_none (by rw [List.length_append]; exact hk)]
        exact nofun
      · rintro ⟨hj, hlast⟩
        by_contra hne
        have hlt : j < (xs ++ [x]).length := (List.getElem?_eq_some_iff.mp hj).1
        rw [List.length_append, List.length_singleton] at hlt
        exact hlast xs.length (by omega) List.getElem?_concat_length
    · rw [Function.update_of_ne hx, ih]
      simp only [ne_eq, getElem?_concat_eq_some_iff hx]

theorem seen_eq_none_iff : (lastSeen xs).seen x = none ↔ x ∉ xs := by
  induction xs using List.reverseRecOn with
  | nil => exact iff_of_true rfl List.not_mem_nil
  | append_singleton xs y ih =>
    rw [lastSeen_concat, List.mem_append, List.mem_singleton, not_or, ← ih]
    change Function.update (lastSeen xs).seen y (some xs.length) x = none ↔ _
    by_cases hx : x = y
    · subst hx
      rw [Function.update_self]
      exact iff_of_false nofun fun h ↦ h.2 rfl
    · rw [Function.update_of_ne hx]
      exact (and_iff_left hx).symm

/-! ## How often a distance is noted -/

theorem distances_concat (xs : List κ) (x : κ) : (lastSeen (xs ++ [x])).distances
    = (lastSeen xs).distances ++ (((lastSeen xs).seen x).map (xs.length - ·)).toList := by
  rw [lastSeen_concat]
  rfl

omit [DecidableEq κ] in
theorem isRepeat_append_iff (ys : List κ) (hi : i < xs.length) :
    IsRepeat (xs ++ ys) d i ↔ IsRepeat xs d i := by
  have hold : ∀ j ≤ i, (xs ++ ys)[j]? = xs[j]? := fun j hj ↦
    List.getElem?_append_left (Nat.lt_of_le_of_lt hj hi)
  rw [IsRepeat, IsRepeat, hold i (Nat.le_refl i), hold (i - d) (Nat.sub_le i d)]
  refine and_congr_right fun _ ↦ and_congr_right fun _ ↦ and_congr_right fun _ ↦ ?_
  exact forall₂_congr fun j hj ↦ by rw [hold j (Nat.le_of_lt hj)]

theorem isRepeat_concat_iff : IsRepeat (xs ++ [x]) d xs.length ↔
    0 < d ∧ d ≤ xs.length ∧ (lastSeen xs).seen x = some (xs.length - d) := by
  rw [IsRepeat, List.getElem?_concat_length, seen_eq_some_iff]
  refine and_congr_right fun hpos ↦ and_congr_right fun hle ↦ ?_
  rw [List.getElem?_append_left (by omega)]
  refine and_congr_right fun _ ↦ ⟨fun h k hk ↦ ?_, fun h j hj hk ↦ ?_⟩
  · rcases Nat.lt_or_ge k xs.length with hlt | hge
    · have hne := h k hlt hk
      rwa [List.getElem?_append_left hlt] at hne
    · rw [List.getElem?_eq_none hge]
      exact nofun
  · rw [List.getElem?_append_left hj]
    exact h j hk

theorem repeats_concat (xs : List κ) (x : κ) (d : ℕ) :
    repeats (xs ++ [x]) d = repeats xs d + if IsRepeat (xs ++ [x]) d xs.length then 1 else 0 := by
  have hold : (List.range xs.length).countP (fun i ↦ decide (IsRepeat (xs ++ [x]) d i))
      = repeats xs d := by
    refine List.countP_congr fun i hi ↦ ?_
    rw [decide_eq_true_iff, decide_eq_true_iff, isRepeat_append_iff [x] (List.mem_range.mp hi)]
  rw [repeats, List.length_append, List.length_singleton, List.range_succ, List.countP_append, hold,
    List.countP_singleton]
  simp only [decide_eq_true_iff]

/-- **A distance is noted at every repetition over that distance**, and only there. -/
theorem count_distances (xs : List κ) (d : ℕ) : (lastSeen xs).distances.count d = repeats xs d := by
  induction xs using List.reverseRecOn with
  | nil => rfl
  | append_singleton xs x ih =>
    rw [distances_concat, List.count_append, ih, repeats_concat]
    congr 1
    cases hseen : (lastSeen xs).seen x with
    | none =>
      rw [if_neg fun h ↦ absurd (hseen.symm.trans (isRepeat_concat_iff.mp h).2.2) nofun]
      rfl
    | some j =>
      have hj : j < xs.length := (List.getElem?_eq_some_iff.mp (seen_eq_some_iff.mp hseen).1).1
      change [xs.length - j].count d = _
      rw [List.count_singleton]
      refine if_congr ?_ rfl rfl
      rw [beq_iff_eq, isRepeat_concat_iff, hseen, Option.some.injEq]
      omega

/-- **Every element is new or noted.** -/
theorem length_distances_add (xs : List κ) :
    (lastSeen xs).distances.length + xs.dedup.length = xs.length := by
  induction xs using List.reverseRecOn with
  | nil => rfl
  | append_singleton xs x ih =>
    rw [distances_concat, List.length_append, List.length_append, List.length_singleton]
    by_cases hx : x ∈ xs
    · -- a repetition: one more distance
      have hdedup : (xs ++ [x]).dedup.length = xs.dedup.length := by
        refine List.Perm.length_eq ?_
        rw [List.perm_ext_iff_of_nodup (List.nodup_dedup _) (List.nodup_dedup _)]
        intro y
        rw [List.mem_dedup, List.mem_dedup, List.mem_append, List.mem_singleton]
        exact or_iff_left_of_imp fun hy ↦ hy ▸ hx
      obtain ⟨j, hseen⟩ := Option.ne_none_iff_exists'.mp fun h ↦ seen_eq_none_iff.mp h hx
      rw [hdedup, hseen]
      change _ + 1 + _ = _
      omega
    · -- a new value: no distance
      have hdedup : (xs ++ [x]).dedup.length = xs.dedup.length + 1 := by
        have hnodup : (x :: xs.dedup).Nodup :=
          List.nodup_cons.mpr ⟨fun h ↦ hx (List.mem_dedup.mp h), List.nodup_dedup _⟩
        have hperm : (xs ++ [x]).dedup.Perm (x :: xs.dedup) := by
          rw [List.perm_ext_iff_of_nodup (List.nodup_dedup _) hnodup]
          intro y
          rw [List.mem_dedup, List.mem_cons, List.mem_dedup, List.mem_append,
            List.mem_singleton, or_comm]
        exact hperm.length_eq
      rw [hdedup, seen_eq_none_iff.mpr hx]
      change _ + 0 + _ = _
      omega

end

end NatGhost
