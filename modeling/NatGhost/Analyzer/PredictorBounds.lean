import NatGhost.Analyzer.LfsrPredictor

/-!
# The indices of the LFSR predictor

`berlekamp_massey` starts with length 0 and never looks back beyond the first term. `lfsr_predictor`
has the same main loop but starts with the length that was found, so already at the first term it
reads `s[-1]`, unless that length is 0. The length is 0 exactly if there are only zeros among the
terms that are looked at, and then no other index is used than those of the first cells and of these
terms.

Before all that `berlekamp_massey` has to return, and the predictor makes two vectors of `l + 1`
elements. If this is no `int`, it does not get to use an index at all. Neither concerns a stream
shorter than `2 ^ 30` bits.
-/

namespace NatGhost

open Checked

/-! ## The indices used -/

/-- The visits of the prediction loop: each register from which a bit is predicted. -/
def predictions (s c : List ℕ) (l predictCount : ℕ) : List (Register × ℕ) :=
  visits (fun r (_ : ℕ) ↦ (predictTurn c l r).val)
    { predicted := [], state := (takeLast s l).val } (List.range' 0 predictCount)

/-- The indices used with vectors of `l + 1` elements are in bounds: those of the main loop, the
final length when the tail of the stream is sliced off, and those of each prediction. -/
structure VisitsInBounds (s : List ℕ) (l predictCount : ℕ) : Prop where
  loop : (recoverLfsr s l).ok = true
  tail : (recoverLfsr s l).val.l ≤ s.length
  predict : ∀ x ∈ predictions s (recoverLfsr s l).val.c (recoverLfsr s l).val.l predictCount,
    (xorTaps (recoverLfsr s l).val.c x.1.state (recoverLfsr s l).val.l (recoverLfsr s l).val.l 0).ok
      = true

/-- Every index used by `lfsr_predictor` is in bounds, if its callers get to call it with what
`berlekamp_massey` returns and it gets to make its vectors. -/
def IndicesInBounds (s : List ℕ) (predictCount : ℕ) : Prop :=
  (berlekampMassey s).runs = true →
    (evalInt (((berlekampMassey s).val : ℤ) + 1)).runs = true →
      VisitsInBounds s (berlekampMassey s).val predictCount

section

variable {s c : List ℕ} {l predictCount : ℕ}

theorem ok_lfsrPredictor_iff (s : List ℕ) (l predictCount : ℕ) :
    (lfsrPredictor s l predictCount).ok = true ↔ VisitsInBounds s l predictCount := by
  have hturn (c : List ℕ) (l : ℕ) (r : Register) :
      (predictTurn c l r).ok = (xorTaps c r.state l l 0).ok := by
    rw [predictTurn, ok_bind, ok_bind, ok_pure, Bool.and_true, eraseBegin, Bool.and_true]
  rw [lfsrPredictor, ok_bind, ok_bind, ok_bind, ok_pure, Bool.and_true, Bool.and_eq_true,
    Bool.and_eq_true, ok_foldlM_iff, takeLast, decide_eq_true_iff]
  simp only [hturn]
  exact ⟨fun h ↦ ⟨h.1, h.2.1, h.2.2⟩, fun h ↦ ⟨h.loop, h.tail, h.predict⟩⟩

/-! ## Looking back from the first term -/

theorem not_ok_discrepancy_zero (hl : 0 < l) : (discrepancy s c l 0).ok = false := by
  obtain ⟨l, rfl⟩ := Nat.exists_eq_add_one.mpr hl
  have hread : (readAt s (((0 : ℕ) : ℤ) - (1 : ℕ))).ok = false := not_ok_readAt_of_neg s (by decide)
  rw [discrepancy, ok_bind, xorTaps, List.range'_succ, List.foldlM_cons, ok_bind, ok_bind, ok_bind,
    hread, Bool.false_and, Bool.and_false, Bool.false_and, Bool.and_false]

theorem not_ok_recoverLfsr (hs : 0 < narrow s.length) (hl : 0 < l) :
    (recoverLfsr s l).ok = false := by
  obtain ⟨n, hn⟩ := Nat.exists_eq_add_one.mpr (show 0 < (narrow s.length).toNat by omega)
  rw [recoverLfsr, hn, List.range'_succ]
  simp only [List.foldlM_cons, ok_bind, masseyTurn, not_ok_discrepancy_zero hl, Bool.false_and,
    Bool.and_false]

/-! ## Zeros -/

theorem ok_recoverLfsr_of_unset (h : ∀ i : ℕ, (i : ℤ) < narrow s.length → s.getD i 0 = 0) :
    (recoverLfsr s 0).ok = true ∧ (recoverLfsr s 0).val.l = 0 := by
  have hle := narrow_le s.length
  have hloop := foldlM_range' (fun st (i : ℕ) ↦ masseyTurn s st.l i st)
    (fun _ st ↦ st.l = 0 ∧ 0 < st.c.length) (a := ⟨[1], [1], 0, -1⟩) 0 (narrow s.length).toNat
    ⟨rfl, Nat.zero_lt_one⟩ fun i st _ hi hst ↦ ?_
  · exact ⟨hloop.1, hloop.2.1⟩
  · obtain ⟨hl, hc⟩ := hst
    have hzero := h i (by omega)
    rw [val_masseyTurn_of_unset hl hzero]
    refine ⟨?_, hl, hc⟩
    have hd : (discrepancy s st.c st.l i).val = 0 := by
      rw [val_discrepancy, hl]
      exact hzero
    rw [masseyTurn, ok_bind, ok_discrepancy (hl ▸ hc) (hl ▸ Nat.zero_le i) (by omega), hd,
      if_pos rfl]
    rfl

theorem visitsInBounds_of_unset (h : ∀ i : ℕ, (i : ℤ) < narrow s.length → s.getD i 0 = 0)
    (predictCount : ℕ) : VisitsInBounds s 0 predictCount := by
  obtain ⟨hloop, hlength⟩ := ok_recoverLfsr_of_unset h
  refine ⟨hloop, ?_, fun x _ ↦ ?_⟩
  · rw [hlength]
    exact Nat.zero_le _
  · rw [hlength]
    rfl

end

/-! ## The streams without an index out of bounds -/

section

variable {bits : List Bool}

theorem forall_mem_take_narrow_iff :
    (∀ b ∈ bits.take (narrow bits.length).toNat, b = false)
      ↔ ∀ i : ℕ, (i : ℤ) < narrow (bits.map Bool.toNat).length →
          (bits.map Bool.toNat).getD i 0 = 0 := by
  have hle := narrow_le bits.length
  have hterm (i : ℕ) (hi : i < bits.length) :
      (bits.map Bool.toNat).getD i 0 = 0 ↔ bits[i] = false := by
    rw [List.getD_eq_getElem _ _ (by rwa [List.length_map]), List.getElem_map,
      Bool.toNat_eq_zero]
  rw [List.length_map]
  constructor
  · intro h i hi
    refine (hterm i (by omega)).mpr (h _ ?_)
    exact List.mem_take_iff_getElem.mpr ⟨i, by omega, rfl⟩
  · intro h b hb
    obtain ⟨i, hi, rfl⟩ := List.mem_take_iff_getElem.mp hb
    exact (hterm i (by omega)).mp (h i (by omega))

theorem berlekampMassey_eq_zero_iff :
    (berlekampMassey (bits.map Bool.toNat)).val = 0
      ↔ ∀ b ∈ bits.take (narrow bits.length).toNat, b = false := by
  rw [forall_mem_take_narrow_iff]
  refine ⟨fun hzero i hi ↦ ?_, val_berlekampMassey_of_unset⟩
  have hs := getD_map_toNat_lt_two bits
  generalize bits.map Bool.toNat = s at *
  have hle := narrow_le s.length
  obtain ⟨-, C, hC⟩ := berlekampMassey_shortest_of_narrow hs (n := (narrow s.length).toNat)
    (by omega) (by omega)
  rw [hzero] at hC
  -- a recurrence without taps says that every term is zero
  have hterm := hC.vanish i (Nat.zero_le i) (by omega)
  rw [coeff_mul_series hC.constant hC.support (Nat.zero_le i), Finset.sum_range_zero,
    add_zero] at hterm
  exact (natCast_eq_zero_of_lt_two (hs i)).mp hterm

end

/-- **When the predictor stays in bounds.** Called with the linear complexity of the stream, it does
exactly if there are only zeros among the terms that the `int` size leaves to be looked at, however
many predictions are asked for. Other streams are only in bounds if the call or the vectors do not
come about, which takes `2 ^ 30` bits. -/
theorem indicesInBounds_iff (bits : List Bool) (predictCount : ℕ) :
    (IndicesInBounds (bits.map Bool.toNat) predictCount
      ↔ (∀ b ∈ bits.take (narrow bits.length).toNat, b = false) ∨
        (berlekampMassey (bits.map Bool.toNat)).runs = false ∨
        2 ^ 31 ≤ (berlekampMassey (bits.map Bool.toNat)).val + 1) ∧
      (bits.length < 2 ^ 30 →
        (IndicesInBounds (bits.map Bool.toNat) predictCount ↔ ∀ b ∈ bits, b = false)) := by
  have hiff : IndicesInBounds (bits.map Bool.toNat) predictCount
      ↔ (∀ b ∈ bits.take (narrow bits.length).toNat, b = false) ∨
        (berlekampMassey (bits.map Bool.toNat)).runs = false ∨
        2 ^ 31 ≤ (berlekampMassey (bits.map Bool.toNat)).val + 1 := by
    constructor
    · intro h
      by_contra hcall
      rw [not_or, not_or, Bool.not_eq_false, Nat.not_le] at hcall
      obtain ⟨hset, hreturns, hsize⟩ := hcall
      have hloop := (h hreturns (Safe.evalInt (by omega) (by omega)).runs).loop
      rw [← berlekampMassey_eq_zero_iff] at hset
      have hlook : 0 < narrow (bits.map Bool.toNat).length := by
        by_contra hnone
        exact hset (val_berlekampMassey_of_unset fun i hi ↦ by omega)
      rw [not_ok_recoverLfsr hlook (Nat.pos_of_ne_zero hset)] at hloop
      exact Bool.false_ne_true hloop
    · rintro (hzeros | hstops | hlarge) hreturns hsize
      · rw [berlekampMassey_eq_zero_iff.mpr hzeros]
        exact visitsInBounds_of_unset (forall_mem_take_narrow_iff.mp hzeros) predictCount
      · rw [hstops] at hreturns
        exact absurd hreturns Bool.false_ne_true
      · rw [not_runs_evalInt (by omega)] at hsize
        exact absurd hsize Bool.false_ne_true
  refine ⟨hiff, fun hshort ↦ hiff.trans ?_⟩
  have hs := getD_map_toNat_lt_two bits
  have hlength : (bits.map Bool.toNat).length = bits.length := List.length_map _
  have hreturns := runs_berlekampMassey hs (by omega)
  have hL := val_berlekampMassey_le hs
  rw [narrow_of_lt (by omega), Int.toNat_natCast, List.take_length, hreturns]
  refine ⟨fun h ↦ h.resolve_right ?_, .inl⟩
  rintro (hstops | hlarge)
  · exact Bool.false_ne_true hstops.symm
  · omega

/-- A single one is enough: its linear complexity is 1, and the first term is compared with
`s[-1]`. -/
theorem singleOne_out_of_bounds : ¬IndicesInBounds ([true].map Bool.toNat) 0 :=
  fun h ↦ absurd (h (by decide +kernel) (by decide +kernel)).loop (by decide +kernel)

end NatGhost
