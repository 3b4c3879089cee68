import Mathlib.Algebra.Ring.Int.Defs
import Mathlib.Algebra.Ring.Nat
import NatGhost.Foundation.Comparator
import NatGhost.Foundation.OrderedMap

/-!
# Counters of type `int`

An `int` that is incremented once for each occurrence is exact up to 2³¹ - 1 occurrences, and
smaller than the number of occurrences from there on, since it wraps around. So a sum of counters is
right only if each of them is. Sorted with the largest first, exact counters are a ranking
(`TopCounts`).
-/

namespace NatGhost

theorem iterate_succ_int32 (n : ℕ) : (· + 1)^[n] (0 : Int32) = Int32.ofNat n := by
  induction n with
  | zero => rfl
  | succ n ih => rw [Function.iterate_succ_apply', ih, Int32.ofNat_add]; rfl

/-- **A counter is exact below 2³¹.** -/
theorem toInt_ofNat_eq_iff {n : ℕ} : (Int32.ofNat n).toInt = n ↔ n < 2 ^ 31 := by
  constructor
  · intro h
    have hlt := (Int32.ofNat n).toInt_lt
    rw [h] at hlt
    exact_mod_cast hlt
  · exact Int32.toInt_ofNat_of_lt

theorem toInt_ofNat_le (n : ℕ) : (Int32.ofNat n).toInt ≤ n := by
  rcases Nat.lt_or_ge n (2 ^ 31) with hlt | hge
  · exact Int.le_of_eq (toInt_ofNat_eq_iff.mpr hlt)
  · have hlt := (Int32.ofNat n).toInt_lt
    have hge' : (2 ^ 31 : ℤ) ≤ n := by exact_mod_cast hge
    omega

theorem sum_map_eq_iff_of_le {α : Type*} {f g : α → ℤ} (xs : List α) (h : ∀ a ∈ xs, f a ≤ g a) :
    (xs.map f).sum ≤ (xs.map g).sum ∧ ((xs.map f).sum = (xs.map g).sum ↔ ∀ a ∈ xs, f a = g a) := by
  induction xs with
  | nil => exact ⟨Int.le_refl _, iff_of_true rfl fun a ha ↦ absurd ha List.not_mem_nil⟩
  | cons a xs ih =>
    obtain ⟨hle, hiff⟩ := ih fun b hb ↦ h b (List.mem_cons_of_mem a hb)
    have hhead := h a List.mem_cons_self
    rw [List.map_cons, List.map_cons, List.sum_cons, List.sum_cons, List.forall_mem_cons, ← hiff]
    omega

/-- **Counters that add up are exact.** -/
theorem sum_toInt_eq_iff {α : Type*} (count : α → ℕ) (xs : List α) :
    (xs.map fun a ↦ (Int32.ofNat (count a)).toInt).sum = (xs.map count).sum
      ↔ ∀ a ∈ xs, count a < 2 ^ 31 := by
  have hcast : ((xs.map count).sum : ℤ) = (xs.map fun a ↦ (count a : ℤ)).sum := by
    induction xs with
    | nil => rfl
    | cons a xs ih => rw [List.map_cons, List.map_cons, List.sum_cons, List.sum_cons,
      Int.natCast_add, ih]
  rw [hcast, (sum_map_eq_iff_of_le xs fun a _ ↦ toInt_ofNat_le (count a)).2]
  exact forall₂_congr fun a _ ↦ toInt_ofNat_eq_iff

theorem foldl_count_int32 {α : Type*} (p : α → Prop) [DecidablePred p] (k : ℕ) (xs : List α) :
    xs.foldl (fun n a ↦ if p a then n + 1 else n) (Int32.ofNat k)
      = Int32.ofNat (k + xs.countP fun a ↦ decide (p a)) := by
  induction xs generalizing k with
  | nil => rfl
  | cons a xs ih =>
    rw [List.foldl_cons, List.countP_cons]
    by_cases ha : p a
    · rw [if_pos ha, if_pos (decide_eq_true ha), show Int32.ofNat k + 1 = Int32.ofNat (k + 1) from
        (Int32.ofNat_add k 1).symm, ih, Nat.add_assoc, Nat.add_comm 1]
    · rw [if_neg ha, if_neg fun h ↦ ha (of_decide_eq_true h), ih, Nat.add_zero]

namespace OrderedMap

variable {κ : Type*} [LT κ] [DecidableLT κ] [LE κ] [Std.IsLinearOrder κ] [Std.LawfulOrderLT κ]
  [DecidableEq κ]

def counters (xs : List κ) : OrderedMap κ Int32 := tally 0 (· + 1) xs

theorem getD_counters (xs : List κ) (k : κ) :
    (counters xs).getD 0 k = Int32.ofNat (xs.count k) := by
  rw [counters, getD_tally, iterate_succ_int32]

theorem mem_counters_iff {xs : List κ} {e : κ × Int32} :
    e ∈ (counters xs).entries ↔ e.1 ∈ xs ∧ e.2 = Int32.ofNat (xs.count e.1) := by
  rw [mem_entries_iff 0, getD_counters, counters, mem_keys_tally]

theorem length_counters (xs : List κ) : (counters xs).entries.length = xs.dedup.length := by
  rw [← length_keys_tally (0 : Int32) (· + 1), keys, List.length_map, counters]

/-- **The counters add up** to the length of the list exactly if none of them has wrapped around. -/
theorem sum_counters_eq_iff (xs : List κ) :
    ((counters xs).entries.map fun e ↦ e.2.toInt).sum = xs.length ↔ ∀ k, xs.count k < 2 ^ 31 := by
  have hkeys : ((counters xs).entries.map fun e ↦ e.2.toInt)
      = (counters xs).keys.map fun k ↦ (Int32.ofNat (xs.count k)).toInt := by
    rw [keys, List.map_map]
    refine List.map_congr_left fun e he ↦ ?_
    rw [(mem_counters_iff.mp he).2]
    rfl
  have hall : ∀ x ∈ xs, x ∈ (counters xs).keys := fun x hx ↦ mem_keys_tally.mpr hx
  rw [hkeys, ← sum_map_count_keys hall, sum_toInt_eq_iff]
  refine ⟨fun h k ↦ ?_, fun h k _ ↦ h k⟩
  by_cases hk : k ∈ xs
  · exact h k (mem_keys_tally.mpr hk)
  · rw [List.count_eq_zero_of_not_mem hk]
    decide

/-! ## The largest counters -/

/-- A list of the most frequent elements with their counters, most frequent first. -/
structure TopCounts (xs : List κ) (n : ℕ) (listed : List (κ × Int32)) : Prop where
  number : listed.length = min n xs.dedup.length
  distinct : (listed.map Prod.fst).Nodup
  exact_count : ∀ e ∈ listed, e.1 ∈ xs ∧ e.2.toInt = xs.count e.1
  descending : listed.Pairwise fun a b ↦ b.2 ≤ a.2
  top : ∀ e ∈ listed, ∀ k ∈ xs, k ∉ listed.map Prod.fst → xs.count k ≤ xs.count e.1

/-- **Sorting exact counters**, largest first, and taking the first of them gives the most frequent
elements. -/
theorem topCounts_of_sorts {xs : List κ} {sorted : List (κ × Int32)}
    (h : Sorts (fun a b ↦ decide (b.2 < a.2)) (counters xs).entries sorted)
    (hfits : ∀ k, xs.count k < 2 ^ 31) (n : ℕ) : TopCounts xs n (sorted.take n) := by
  have hle : ∀ a b : κ × Int32, decide (a.2 < b.2) = false → b.2 ≤ a.2 := fun a b hab ↦ by
    rw [decide_eq_false_iff_not, Int32.lt_iff_toInt_lt, Int.not_lt] at hab
    exact Int32.le_iff_toInt_le.mpr hab
  have hentry : ∀ e ∈ sorted, e.1 ∈ xs ∧ e.2.toInt = xs.count e.1 := fun e he ↦ by
    obtain ⟨hmem, hcount⟩ := mem_counters_iff.mp (h.perm.mem_iff.mp he)
    exact ⟨hmem, by rw [hcount, toInt_ofNat_eq_iff.mpr (hfits e.1)]⟩
  have hdistinct : (sorted.map Prod.fst).Nodup :=
    (h.perm.map Prod.fst).nodup_iff.mpr (nodup_keys (counters xs))
  refine ⟨?_, ?_, fun e he ↦ hentry e (List.mem_of_mem_take he), ?_, fun e he k hk hnot ↦ ?_⟩
  · rw [h.length_take, length_counters]
  · exact hdistinct.sublist ((List.take_sublist n sorted).map Prod.fst)
  · exact (h.ordered_take n).imp fun hab ↦ hle _ _ hab
  · have hin : (k, Int32.ofNat (xs.count k)) ∈ (counters xs).entries :=
      mem_counters_iff.mpr ⟨hk, rfl⟩
    -- a counter that is not listed is behind the listed ones
    have hbehind := h.mem_drop_of_notMem_take n hin fun hlisted ↦ hnot (List.mem_map_of_mem hlisted)
    have hcount := hle _ _ (h.not_less_of_take_of_drop n he hbehind)
    rw [Int32.le_iff_toInt_le, toInt_ofNat_eq_iff.mpr (hfits k),
      (hentry e (List.mem_of_mem_take he)).2] at hcount
    exact_mod_cast hcount

end OrderedMap

end NatGhost
