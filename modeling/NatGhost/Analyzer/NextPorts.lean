import NatGhost.Analyzer.LfsrPredictor
import NatGhost.Analyzer.PortBits

/-!
# The ports of `predict_next_ports`

`predict_next_ports` announces the first ten predicted ports. It asks the predictor for ten *bits*
and prints each of them modulo 65536 as a port, where `main` asks for sixty-four bits and packs
sixteen into each port. So what is printed are ten zeros and ones, and they are the ports of the
prediction only if those are all zero.

The predictor is a parameter here, since all that matters is that asking for more bits gives more
bits of the same sequence (`ContinuesBy`). The predictor of the source is one
(`exists_continuesBy`).
-/

namespace NatGhost

open Checked

/-! ## The code -/

/-- `predict_next_ports`, with the predictor it calls: the numbers it prints. -/
def predictNextPorts (predictor : List ℕ → ℕ → ℕ → List ℕ) (data : List PacketInfo) : List ℕ :=
  let bits := bitstream data
  let l := (berlekampMassey bits).val
  let nextBits := predictor bits l 10
  nextBits.map (· % 65536)

/-- What `main` makes of the prediction of `predictCount` bits. -/
def predictedPorts (predictor : List ℕ → ℕ → ℕ → List ℕ) (data : List PacketInfo)
    (predictCount : ℕ) :
    List UInt16 :=
  let bits := bitstream data
  let lfsrLen := (berlekampMassey bits).val
  (packPorts (predictor bits lfsrLen predictCount)).val

/-- `lfsr_predictor`. -/
def sourcePredictor (s : List ℕ) (l predictCount : ℕ) : List ℕ :=
  (lfsrPredictor s l predictCount).val

def firstBits (seq : ℕ → Bool) (k : ℕ) : List ℕ := (List.range k).map fun i ↦ (seq i).toNat

/-- The predictor continues the stream with these bits, as many as it is asked for. -/
def ContinuesBy (predictor : List ℕ → ℕ → ℕ → List ℕ) (s : List ℕ) (l : ℕ) (seq : ℕ → Bool) :
    Prop :=
  ∀ k, predictor s l k = firstBits seq k

/-! ## The predictor of the source -/

section

variable {s b c : List ℕ} {count i l L : ℕ}

theorem flipAt_lt_two (hc : ∀ k, c.getD k 0 < 2) (i : ℤ) (k : ℕ) :
    (flipAt c i).val.getD k 0 < 2 := by
  rcases Int.lt_or_le i 0 with hneg | hpos
  · rw [flipAt, val_bind, writeAt, if_neg (Int.not_le.mpr hneg)]
    exact hc k
  · obtain ⟨i, rfl⟩ := Int.eq_ofNat_of_zero_le hpos
    rw [getD_flipAt]
    split_ifs
    · exact xor_lt_two (hc k) (by decide)
    · exact hc k

theorem addShifted_lt_two (m : ℤ) (hc : ∀ k, c.getD k 0 < 2) :
    ∀ k, (addShifted b i m count c).val.getD k 0 < 2 := by
  rw [addShifted, val_foldlM]
  refine foldl_invariant (fun c : List ℕ ↦ ∀ k, c.getD k 0 < 2) hc fun c j _ hc k ↦ ?_
  rw [flipShifted, val_bind]
  split_ifs
  · rw [val_bind, val_bind]
    exact flipAt_lt_two hc _ k
  · exact hc k

theorem masseyTurn_lt_two {st : Lfsr} (hc : ∀ k, st.c.getD k 0 < 2) :
    ∀ k, (masseyTurn s count i st).val.c.getD k 0 < 2 := by
  by_cases hd : (discrepancy s st.c st.l i).val = 0
  · rwa [val_masseyTurn_of_zero hd]
  · by_cases hl : 2 * st.l ≤ i
    · rw [val_masseyTurn_of_short hd hl]
      exact addShifted_lt_two _ hc
    · rw [val_masseyTurn_of_long hd hl]
      exact addShifted_lt_two _ hc

theorem recoverLfsr_lt_two (s : List ℕ) (L : ℕ) : ∀ k, (recoverLfsr s L).val.c.getD k 0 < 2 :=
  recoverLfsr_invariant (fun _ st ↦ ∀ k, st.c.getD k 0 < 2) (fun _ h ↦ h.bit)
    fun _ _ _ h ↦ masseyTurn_lt_two h

def registerAt (s : List ℕ) (L k : ℕ) : Register :=
  (List.range' 0 k).foldl
    (fun r _ ↦ (predictTurn (recoverLfsr s L).val.c (recoverLfsr s L).val.l r).val)
    { predicted := [], state := (takeLast s (recoverLfsr s L).val.l).val }

theorem sourcePredictor_eq (s : List ℕ) (L k : ℕ) :
    sourcePredictor s L k = (registerAt s L k).predicted := by
  rw [sourcePredictor, lfsrPredictor, val_bind, val_bind, val_bind, val_pure, val_foldlM,
    registerAt]

def nextBit (s : List ℕ) (L k : ℕ) : ℕ :=
  (xorTaps (recoverLfsr s L).val.c (registerAt s L k).state (recoverLfsr s L).val.l
    (recoverLfsr s L).val.l 0).val

theorem registerAt_succ (s : List ℕ) (L k : ℕ) : registerAt s L (k + 1) =
    { predicted := (registerAt s L k).predicted ++ [nextBit s L k]
      state := (registerAt s L k).state.tail ++ [nextBit s L k] } := by
  rw [registerAt, List.range'_concat, List.foldl_append, List.foldl_cons, List.foldl_nil,
    ← registerAt]
  rfl

theorem xorTaps_lt_two {v : List ℕ} (hc : ∀ k, c.getD k 0 < 2) (hv : ∀ k, v.getD k 0 < 2) :
    (xorTaps c v i l 0).val < 2 := by
  rw [val_xorTaps]
  exact xorSum_lt_two (fun j ↦ mul_lt_two (hc j) (readAt_lt_two hv _)) Nat.two_pos l

theorem registerAt_lt_two (hs : ∀ k, s.getD k 0 < 2) (L k : ℕ) :
    ∀ j, (registerAt s L k).state.getD j 0 < 2 := by
  induction k with
  | zero =>
    intro j
    change (s.drop _).getD j 0 < 2
    rw [getD_drop]
    exact hs _
  | succ k ih =>
    rw [registerAt_succ]
    refine getD_concat_lt_two (fun j ↦ ?_) (xorTaps_lt_two (recoverLfsr_lt_two s L) ih)
    rw [← List.drop_one, getD_drop]
    exact ih _

/-- **The predictor of the source** continues every stream of bits by some sequence, whatever length
it is given. -/
theorem exists_continuesBy (hs : ∀ k, s.getD k 0 < 2) (L : ℕ) :
    ∃ seq, ContinuesBy sourcePredictor s L seq := by
  refine ⟨fun k ↦ decide (nextBit s L k ≠ 0), fun k ↦ ?_⟩
  rw [sourcePredictor_eq]
  induction k with
  | zero => rfl
  | succ k ih =>
    have hbit : nextBit s L k < 2 :=
      xorTaps_lt_two (recoverLfsr_lt_two s L) (registerAt_lt_two hs L k)
    have hnext : (decide (nextBit s L k ≠ 0)).toNat = nextBit s L k := by
      by_cases hzero : nextBit s L k = 0
      · rw [hzero]
        rfl
      · rw [decide_eq_true hzero, Bool.toNat_true]
        omega
    rw [registerAt_succ, ih, firstBits, firstBits, List.range_succ, List.map_append,
      List.map_singleton, hnext]

end

/-! ## Bits for ports -/

/-- What is printed are the first ten ports that `main` would make of a prediction long enough for
them. -/
def PrintsPrediction (predictor : List ℕ → ℕ → ℕ → List ℕ) (data : List PacketInfo) : Prop :=
  ∀ k, 160 ≤ k →
    predictNextPorts predictor data = ((predictedPorts predictor data k).take 10).map UInt16.toNat

section

variable {predictor : List ℕ → ℕ → ℕ → List ℕ} {data : List PacketInfo} {seq : ℕ → Bool} {n k : ℕ}

theorem lt_two_of_mem_firstBits {b : ℕ} (h : b ∈ firstBits seq k) : b < 2 := by
  obtain ⟨i, -, rfl⟩ := List.mem_map.mp h
  exact toNat_lt_two _

@[simp] theorem length_firstBits (seq : ℕ → Bool) (k : ℕ) : (firstBits seq k).length = k := by
  rw [firstBits, List.length_map, List.length_range]

theorem take_firstBits (h : n ≤ k) : (firstBits seq k).take n = firstBits seq n := by
  rw [firstBits, firstBits, ← List.map_take, List.take_range, min_eq_left h]

theorem firstBits_eq_zeros_iff : firstBits seq n = List.replicate n 0 ↔ ∀ i < n, seq i = false := by
  rw [List.eq_replicate_iff, and_iff_right (length_firstBits seq n), firstBits, List.forall_mem_map]
  simp only [List.mem_range, Bool.toNat_eq_zero]

theorem predictNextPorts_eq (h : ContinuesBy predictor (bitstream data)
    (berlekampMassey (bitstream data)).val seq) : predictNextPorts predictor data
      = firstBits seq 10 := by
  rw [predictNextPorts, h]
  refine (List.map_congr_left fun b hb ↦ ?_).trans (List.map_id _)
  exact Nat.mod_eq_of_lt ((lt_two_of_mem_firstBits hb).trans (by decide))

theorem take_portBits {p : UInt16} (h : p.toNat < 2) :
    (portBits p).take 15 = List.replicate 15 0 := by
  have hcases : p.toNat = 0 ∨ p.toNat = 1 := by omega
  rw [portBits]
  rcases hcases with hzero | hone
  · rw [hzero]
    decide
  · rw [hone]
    decide

theorem flatMap_portBits_zeros : (List.replicate 10 (0 : UInt16)).flatMap portBits
    = List.replicate 160 0 := by decide

/-- **Printed bits that are the ports are zero**, and so are the ports. -/
theorem PrintsPrediction.eq_false (h : ContinuesBy predictor (bitstream data)
    (berlekampMassey (bitstream data)).val seq) (hprints : PrintsPrediction predictor data) :
    ∀ i < 160, seq i = false := by
  have heq := hprints 160 le_rfl
  obtain ⟨ps, rest, hsplit, hrest⟩ := exists_ports fun b (hb : b ∈ firstBits seq 160) ↦
    lt_two_of_mem_firstBits hb
  have hlength := congrArg List.length hsplit
  rw [length_firstBits, List.length_append, length_flatMap_portBits] at hlength
  have hten : ps.length = 10 := by omega
  have hnil : rest = [] := List.length_eq_zero_iff.mp (by omega)
  rw [predictNextPorts_eq h, predictedPorts, h, hsplit, packPorts_append ps hrest,
    val_pure, List.take_of_length_le hten.le] at heq
  rw [hnil, List.append_nil] at hsplit
  obtain ⟨p, ps, rfl⟩ : ∃ p tail, ps = p :: tail := List.exists_cons_of_length_pos (by omega)
  -- the first port is the first bit, so the bits before its last are zero
  have hfirst : p.toNat < 2 := by
    have hmem : p.toNat ∈ firstBits seq 10 := by
      rw [heq]
      exact List.mem_cons_self
    exact lt_two_of_mem_firstBits hmem
  have hzeros : firstBits seq 15 = List.replicate 15 0 := by
    rw [← take_portBits hfirst, ← take_firstBits (show 15 ≤ 160 by decide), hsplit,
      List.flatMap_cons, List.take_append_of_le_length]
    rw [portBits_eq, length_bitsMsb]
    decide
  -- these are the bits that are printed, so every port is zero
  have hprinted : firstBits seq 10 = List.replicate 10 0 := by
    rw [← take_firstBits (show 10 ≤ 15 by decide), hzeros]
    rfl
  have hports : p :: ps = List.replicate 10 0 := by
    refine List.eq_replicate_iff.mpr ⟨hten, fun q hq ↦ ?_⟩
    have hvalue : q.toNat ∈ firstBits seq 10 := by
      rw [heq]
      exact List.mem_map_of_mem hq
    rw [hprinted] at hvalue
    exact UInt16.toNat_inj.mp (List.eq_of_mem_replicate hvalue)
  rw [hports, flatMap_portBits_zeros] at hsplit
  exact firstBits_eq_zeros_iff.mp hsplit

theorem printsPrediction_of_eq_false (h : ContinuesBy predictor (bitstream data)
    (berlekampMassey (bitstream data)).val seq) (hzero : ∀ i < 160, seq i = false) :
    PrintsPrediction predictor data := by
  intro k hk
  obtain ⟨ps, rest, hsplit, hrest⟩ := exists_ports fun b hb ↦
    lt_two_of_mem_firstBits (List.mem_of_mem_drop (l := firstBits seq k) (i := 160) hb)
  have hbits : firstBits seq k = (List.replicate 10 (0 : UInt16) ++ ps).flatMap portBits
      ++ rest := by
    rw [List.flatMap_append, flatMap_portBits_zeros, ← firstBits_eq_zeros_iff.mpr hzero,
      ← take_firstBits hk, List.append_assoc, ← hsplit, List.take_append_drop]
  have hten := firstBits_eq_zeros_iff.mpr fun i (hi : i < 10) ↦ hzero i (hi.trans (by decide))
  rw [predictNextPorts_eq h, predictedPorts, h, hten, hbits, packPorts_append _ hrest,
    val_pure, List.take_left' List.length_replicate]
  rfl

end

/-- **When the printed numbers are the predicted ports**: if the first 160 predicted bits are
zero. -/
theorem printsPrediction_iff (predictor : List ℕ → ℕ → ℕ → List ℕ) (data : List PacketInfo)
    (seq : ℕ → Bool)
    (h : ContinuesBy predictor (bitstream data) (berlekampMassey (bitstream data)).val seq) :
    PrintsPrediction predictor data ↔ ∀ i < 160, seq i = false :=
  ⟨fun hprints ↦ hprints.eq_false h, printsPrediction_of_eq_false h⟩

/-- The prediction for one packet from port 40000 is zero. -/
theorem printsPrediction_zeros : PrintsPrediction sourcePredictor [⟨40000, 0, 0⟩] := by
  obtain ⟨seq, hseq⟩ := exists_continuesBy
    (getD_lt_two_of_mem (x := bitstream [⟨40000, 0, 0⟩]) (by decide))
    (berlekampMassey (bitstream [⟨40000, 0, 0⟩])).val
  refine (printsPrediction_iff sourcePredictor [⟨40000, 0, 0⟩] seq hseq).mpr
    (firstBits_eq_zeros_iff.mp ?_)
  rw [← hseq 160]
  decide +kernel

/-- **One packet from port 50000**: the bits of its prediction are printed as ports. -/
theorem predictedBits_printed :
    ¬∀ data : List PacketInfo, data ≠ [] → PrintsPrediction sourcePredictor data := by
  intro h
  have hprints := h [⟨50000, 0, 0⟩] (by decide)
  obtain ⟨seq, hseq⟩ := exists_continuesBy
    (getD_lt_two_of_mem (x := bitstream [⟨50000, 0, 0⟩]) (by decide))
    (berlekampMassey (bitstream [⟨50000, 0, 0⟩])).val
  have hzeros := firstBits_eq_zeros_iff.mpr fun i (hi : i < 16) ↦
    hprints.eq_false hseq i (hi.trans (by decide))
  rw [← hseq 16] at hzeros
  exact absurd hzeros (by decide +kernel)

end NatGhost
