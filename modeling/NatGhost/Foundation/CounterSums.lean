import Mathlib.Algebra.BigOperators.Group.List.Lemmas
import Mathlib.Algebra.Order.BigOperators.Group.Finset
import Mathlib.Algebra.BigOperators.Ring.Finset
import Mathlib.Data.Int.ModEq
import NatGhost.Foundation.IntCounters

/-!
# Sums of counters that may have wrapped around

A counter of type `int` is right modulo 2³², whether it has wrapped around or not. So what two
tables say about the same list agrees modulo 2³² without any bound on the list: a sum over the
counters with a weight for each key is the sum of the weights of the elements (`sum_counters_mul`),
and the same is true of a table of tables for the pairs it was made of (`sum_tallyPairs_mul`).
-/

namespace NatGhost

theorem toInt_ofNat_modEq (n : ℕ) : (Int32.ofNat n).toInt ≡ n [ZMOD 2 ^ 32] := by
  rw [Int32.toInt_ofNat']
  exact Int.bmod_emod

theorem sum_map_modEq {α : Type*} {f g : α → ℤ} {m : ℤ} {xs : List α}
    (h : ∀ a ∈ xs, f a ≡ g a [ZMOD m]) : (xs.map f).sum ≡ (xs.map g).sum [ZMOD m] := by
  induction xs with
  | nil => exact Int.ModEq.refl 0
  | cons a xs ih =>
    rw [List.map_cons, List.map_cons, List.sum_cons, List.sum_cons]
    exact (h a List.mem_cons_self).add (ih fun b hb ↦ h b (List.mem_cons_of_mem a hb))

theorem sum_map_filter_key {α κ : Type*} [DecidableEq κ] {key : α → κ} {ks : List κ}
    (hks : ks.Nodup) (f : α → ℤ) {xs : List α} (h : ∀ a ∈ xs, key a ∈ ks) :
    (ks.map fun k ↦ ((xs.filter fun a ↦ decide (key a = k)).map f).sum).sum = (xs.map f).sum := by
  induction xs with
  | nil => simp
  | cons a xs ih =>
    obtain ⟨ha, hxs⟩ := List.forall_mem_cons.mp h
    have hcons (k : κ) : (((a :: xs).filter fun a ↦ decide (key a = k)).map f).sum
        = (if k = key a then f a else 0)
          + ((xs.filter fun a ↦ decide (key a = k)).map f).sum := by
      rw [List.filter_cons]
      by_cases hk : k = key a
      · rw [if_pos (decide_eq_true hk.symm), if_pos hk, List.map_cons, List.sum_cons]
      · rw [if_neg fun h ↦ hk (of_decide_eq_true h).symm, if_neg hk, zero_add]
    have hone : (ks.map fun k ↦ if k = key a then f a else 0).sum = f a := by
      rw [← List.sum_toFinset _ hks, Finset.sum_ite_eq', if_pos (List.mem_toFinset.mpr ha)]
    simp only [hcons]
    rw [List.sum_map_add, hone, ih hxs, List.map_cons, List.sum_cons]

namespace OrderedMap

variable {κ : Type*} [LT κ] [DecidableLT κ] [LE κ] [Std.IsLinearOrder κ] [Std.LawfulOrderLT κ]
  [DecidableEq κ]

/-- **A weighted sum of the counters** is the sum of the weights. -/
theorem sum_counters_mul (w : κ → ℤ) (xs : List κ) :
    ((counters xs).entries.map fun e ↦ w e.1 * e.2.toInt).sum ≡ (xs.map w).sum
      [ZMOD 2 ^ 32] := by
  have hsum : (xs.map w).sum
      = ((counters xs).entries.map fun e ↦ w e.1 * (xs.count e.1 : ℤ)).sum := by
    have hkeys : ((counters xs).entries.map fun e ↦ w e.1 * (xs.count e.1 : ℤ))
        = (counters xs).keys.map fun k ↦ ((xs.filter fun x ↦ decide (x = k)).map w).sum := by
      rw [keys, List.map_map]
      refine List.map_congr_left fun e _ ↦ ?_
      rw [Function.comp_apply, List.map_congr_left fun x hx ↦
        congrArg w (of_decide_eq_true (List.mem_filter.mp hx).2), List.map_const',
        List.sum_replicate, ← List.countP_eq_length_filter, nsmul_eq_mul, mul_comm]
      rfl
    rw [hkeys]
    exact (sum_map_filter_key (nodup_keys _) w fun x hx ↦ mem_keys_tally.mpr hx).symm
  rw [hsum]
  refine sum_map_modEq fun e he ↦ ?_
  rw [(mem_counters_iff.mp he).2]
  exact (toInt_ofNat_modEq _).mul_left _

variable {μ : Type*} [LT μ] [DecidableLT μ] [LE μ] [Std.IsLinearOrder μ] [Std.LawfulOrderLT μ]
  [DecidableEq μ]

/-- **A weighted sum over a table of tables.** -/
theorem sum_tallyPairs_mul (w : κ → μ → ℤ) (ps : List (κ × μ)) :
    ((tallyPairs (0 : Int32) (· + 1) ps).entries.map fun row ↦
        (row.2.entries.map fun e ↦ w row.1 e.1 * e.2.toInt).sum).sum
      ≡ (ps.map fun e ↦ w e.1 e.2).sum [ZMOD 2 ^ 32] := by
  have hsum := sum_map_filter_key (nodup_keys (tallyPairs (0 : Int32) (· + 1) ps))
    (fun e ↦ w e.1 e.2) fun e he ↦ mem_keys_tallyPairs.mpr (List.mem_map_of_mem he)
  rw [← hsum, keys, List.map_map]
  refine sum_map_modEq fun row hrow ↦ ?_
  have hrow' : row.2 = counters ((ps.filter fun e ↦ decide (e.1 = row.1)).map Prod.snd) := by
    rw [((mem_entries_iff empty).mp hrow).2]
    exact getD_tallyPairs 0 (· + 1) ps row.1
  have hmap : ((ps.filter fun e ↦ decide (e.1 = row.1)).map fun e ↦ w e.1 e.2)
      = ((ps.filter fun e ↦ decide (e.1 = row.1)).map Prod.snd).map (w row.1) := by
    rw [List.map_map]
    refine List.map_congr_left fun e he ↦ ?_
    rw [of_decide_eq_true (List.mem_filter.mp he).2, Function.comp_apply]
  rw [Function.comp_apply, hmap, hrow']
  exact sum_counters_mul (w row.1) _

end OrderedMap

end NatGhost
