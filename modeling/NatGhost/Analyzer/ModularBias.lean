import NatGhost.Analyzer.PortHints
import NatGhost.Foundation.CheckedCounters

/-!
# The modulo test

`modular_bias_analysis` counts the packets by residue of their port, and reports a bias if the
largest and the smallest of these counts differ by more than a tenth of what a residue should get.
That tenth is an integer division. For fewer than ten packets per residue it is zero, and then any
difference is a bias, also the difference of one that is left if the number of packets is not a
multiple of the number of residues.
-/

namespace NatGhost

/-! ## The code -/

/-- What `modular_bias_analysis` prints behind the modulus. -/
structure ModuloReport where
  maxBucket : ℤ
  minBucket : ℤ
  /-- `" [! BIAS DETECTED]"`. -/
  biasDetected : Bool
  deriving DecidableEq

/-- An `int` where a `size_t` is needed. -/
def toSize (z : ℤ) : ℕ := (z % 2 ^ 64).toNat

def residues (data : List PacketInfo) (modBase : Int32) : List ℤ :=
  data.map fun p ↦ (p.port.toNat : ℤ).tmod modBase.toInt

/-- `modular_bias_analysis`. -/
def modularBiasAnalysis (data : List PacketInfo) (modBase : Int32) : Option ModuloReport := do
  let modCounts ← tallyCounters modBase.toInt.toNat (residues data modBase)
  let maxBucket ← modCounts.max?
  let minBucket ← modCounts.min?
  let spread ← checkInt (maxBucket - minBucket)
  let scale ← checkInt (modBase.toInt * 10)
  some ⟨maxBucket, minBucket, decide (toSize spread > data.length / toSize scale)⟩

def residueCount (data : List PacketInfo) (modBase : Int32) (r : ℕ) : ℕ :=
  data.countP fun p ↦ decide (p.port.toNat % modBase.toInt.toNat = r)

/-- The report has been printed, and says nothing of a bias. -/
def NoBias (data : List PacketInfo) (modBase : Int32) : Prop :=
  ∃ report, modularBiasAnalysis data modBase = some report ∧ report.biasDetected = false

/-! ## The counters -/

section

variable {data : List PacketInfo} {modBase : Int32}

theorem count_residues (h : 0 ≤ modBase.toInt) (r : ℕ) :
    (residues data modBase).count (r : ℤ) = residueCount data modBase r := by
  obtain ⟨m, hm⟩ := Int.eq_ofNat_of_zero_le h
  rw [residues, residueCount, List.count, List.countP_map, hm]
  refine List.countP_congr fun p _ ↦ ?_
  rw [Function.comp_apply, beq_iff_eq, decide_eq_true_iff, Int.toNat_natCast, ← Int.ofNat_tmod,
    Nat.cast_inj]

theorem residues_inBounds (data : List PacketInfo) (h : 0 < modBase.toInt) :
    ∀ i ∈ residues data modBase, 0 ≤ i ∧ i < modBase.toInt.toNat := by
  intro i hi
  obtain ⟨p, -, rfl⟩ := List.mem_map.mp hi
  have hlt := Int.tmod_lt_of_pos (p.port.toNat : ℤ) h
  exact ⟨Int.tmod_nonneg _ (Int.natCast_nonneg _), by omega⟩

theorem tallyCounters_residues_iff (h : 0 < modBase.toInt) {counters : List ℤ} :
    tallyCounters modBase.toInt.toNat (residues data modBase) = some counters
      ↔ (∀ r, residueCount data modBase r < 2 ^ 31)
        ∧ occurrences modBase.toInt.toNat (residues data modBase) = counters := by
  rw [tallyCounters_eq_some_iff_of_inBounds (residues_inBounds data h)]
  simp only [count_residues h.le]

theorem sum_residueCount (h : 0 < modBase.toInt) :
    ((List.range modBase.toInt.toNat).map (residueCount data modBase)).sum = data.length := by
  have hsum := sum_count_eq_length (residues_inBounds data h)
  rw [residues, List.length_map, ← residues] at hsum
  rw [← hsum]
  exact congrArg List.sum (List.map_congr_left fun r _ ↦ (count_residues h.le r).symm)

theorem toSize_of_nonneg {z : ℤ} (h₀ : 0 ≤ z) (h : z < 2 ^ 31) : toSize z = z.toNat := by
  rw [toSize, Int.emod_eq_of_lt h₀ (h.trans (by decide))]

/-- **What is printed**: a largest and a smallest count, if no counter overflows, nor the product of
the modulus and 10. -/
theorem modularBiasAnalysis_eq_some_iff (h : 0 < modBase.toInt) {report : ModuloReport} :
    modularBiasAnalysis data modBase = some report
      ↔ (∀ r, residueCount data modBase r < 2 ^ 31) ∧ modBase.toInt.toNat * 10 < 2 ^ 31
        ∧ ∃ i < modBase.toInt.toNat, ∃ j < modBase.toInt.toNat,
          (∀ k < modBase.toInt.toNat, residueCount data modBase k ≤ residueCount data modBase i)
          ∧ (∀ k < modBase.toInt.toNat, residueCount data modBase j ≤ residueCount data modBase k)
          ∧ report = ⟨residueCount data modBase i, residueCount data modBase j,
            decide (data.length / (modBase.toInt.toNat * 10)
              < residueCount data modBase i - residueCount data modBase j)⟩ := by
  have hscale : modBase.toInt.toNat * 10 < 2 ^ 31 →
      toSize (modBase.toInt * 10) = modBase.toInt.toNat * 10 := fun hfit ↦ by
    rw [toSize_of_nonneg (by omega) (by omega)]
    omega
  have hspread : ∀ a b : ℕ, b ≤ a → a < 2 ^ 31 → toSize ((a : ℤ) - b) = a - b := by
    intro a b hle hfit
    rw [toSize_of_nonneg (by omega) (by omega)]
    omega
  simp only [modularBiasAnalysis, Option.bind_eq_bind, Option.bind_eq_some_iff,
    tallyCounters_residues_iff h, checkInt_eq_some_iff]
  constructor
  · rintro ⟨-, ⟨hfits, rfl⟩, M, hM, μ, hμ, -, ⟨-, rfl⟩, -, ⟨hfit, rfl⟩, hreport⟩
    obtain ⟨i, hi, hmax, rfl⟩ := max?_occurrences_eq_some_iff.mp hM
    obtain ⟨j, hj, hmin, rfl⟩ := min?_occurrences_eq_some_iff.mp hμ
    simp only [count_residues h.le] at hmax hmin hreport
    rw [hspread _ _ (hmin i hi) (hfits i), hscale (by omega)] at hreport
    exact ⟨hfits, by omega, i, hi, j, hj, hmax, hmin, (Option.some.inj hreport).symm⟩
  · rintro ⟨hfits, hfit, i, hi, j, hj, hmax, hmin, rfl⟩
    -- back to the counters of the loop
    simp only [← count_residues h.le] at hfits hmax hmin ⊢
    have hifits := hfits i
    have hjfits := hfits j
    refine ⟨_, ⟨hfits, rfl⟩, _, max?_occurrences_eq_some_iff.mpr ⟨i, hi, hmax, rfl⟩, _,
      min?_occurrences_eq_some_iff.mpr ⟨j, hj, hmin, rfl⟩, _, ⟨⟨by omega, by omega⟩, rfl⟩, _,
      ⟨⟨by omega, by omega⟩, rfl⟩, ?_⟩
    rw [hspread _ _ (hmin i hi) hifits, hscale hfit]

theorem exists_max_min (f : ℕ → ℕ) {m : ℕ} (hm : 0 < m) :
    ∃ i < m, ∃ j < m, (∀ k < m, f k ≤ f i) ∧ ∀ k < m, f j ≤ f k := by
  have hne : (Finset.range m).Nonempty := Finset.nonempty_range_iff.mpr hm.ne'
  obtain ⟨i, hi, hmax⟩ := Finset.exists_max_image (Finset.range m) f hne
  obtain ⟨j, hj, hmin⟩ := Finset.exists_min_image (Finset.range m) f hne
  simp only [Finset.mem_range] at hi hj hmax hmin
  exact ⟨i, hi, j, hj, hmax, hmin⟩

/-- **When no bias is reported.** Nothing overflows, and no two counts differ by more than the
threshold. -/
theorem noBias_iff_spread (h : 0 < modBase.toInt) : NoBias data modBase
    ↔ (∀ r, residueCount data modBase r < 2 ^ 31) ∧ modBase.toInt.toNat * 10 < 2 ^ 31
      ∧ ∀ i < modBase.toInt.toNat, ∀ j < modBase.toInt.toNat, residueCount data modBase i
        ≤ residueCount data modBase j + data.length / (modBase.toInt.toNat * 10) := by
  simp only [NoBias, modularBiasAnalysis_eq_some_iff h]
  constructor
  · rintro ⟨report, ⟨hfits, hfit, i, hi, j, hj, hmax, hmin, rfl⟩, hbias⟩
    refine ⟨hfits, hfit, fun k hk l hl ↦ ?_⟩
    have hspread := Nat.sub_le_iff_le_add'.mp (Nat.not_lt.mp (of_decide_eq_false hbias))
    exact (hmax k hk).trans (hspread.trans (Nat.add_le_add_right (hmin l hl) _))
  · rintro ⟨hfits, hfit, hspread⟩
    obtain ⟨i, hi, j, hj, hmax, hmin⟩ := exists_max_min (residueCount data modBase)
      (show 0 < modBase.toInt.toNat by omega)
    have hij := Nat.sub_le_iff_le_add'.mpr (hspread i hi j hj)
    exact ⟨_, ⟨hfits, hfit, i, hi, j, hj, hmax, hmin, rfl⟩, decide_eq_false (Nat.not_lt.mpr hij)⟩

/-! ## Even data -/

/-- **When even data is not called biased.** For counts as equal as the number of packets allows,
exactly if that number is a multiple of the modulus or at least ten times the modulus, the modulus
times 10 is an `int`, and the counts are. -/
theorem noBias_iff (data : List PacketInfo) (modBase : Int32) (h : 2 ≤ modBase.toInt)
    (heven : IsEven (residueCount data modBase) modBase.toInt.toNat) : NoBias data modBase
      ↔ (∀ r, residueCount data modBase r < 2 ^ 31) ∧ modBase.toInt.toNat * 10 < 2 ^ 31
        ∧ (modBase.toInt.toNat ∣ data.length ∨ modBase.toInt.toNat * 10 ≤ data.length) := by
  have hpos : 0 < modBase.toInt := by omega
  have hequal := heven.forall_eq_iff_dvd_sum
  rw [sum_residueCount hpos] at hequal
  rw [noBias_iff_spread hpos, ← hequal]
  refine and_congr_right fun _ ↦ and_congr_right fun _ ↦ ?_
  rcases Nat.lt_or_ge data.length (modBase.toInt.toNat * 10) with hfew | hmany
  · -- the threshold is zero
    rw [Nat.div_eq_of_lt hfew, or_iff_left (Nat.not_le.mpr hfew)]
    exact ⟨fun hall i hi j hj ↦ Nat.le_antisymm (hall i hi j hj) (hall j hj i hi),
      fun hall i hi j hj ↦ (hall i hi j hj).le⟩
  · have hone : 1 ≤ data.length / (modBase.toInt.toNat * 10) :=
      (Nat.one_le_div_iff (by omega)).mpr hmany
    refine iff_of_true (fun i hi j hj ↦ (heven i hi j hj).trans ?_) (Or.inr hmany)
    exact Nat.add_le_add_left hone _

end

/-! ## One packet -/

def portZero : PacketInfo := ⟨0, 0, 0⟩

theorem isEven_portZero : IsEven (residueCount [portZero] 2) 2 := by
  intro i _ j _
  have hle : residueCount [portZero] 2 i ≤ 1 := List.countP_le_length
  exact hle.trans (Nat.le_add_left 1 _)

/-- **One packet is biased.** -/
theorem onePacket_is_biased : ¬∀ (data : List PacketInfo) (modBase : Int32), 2 ≤ modBase.toInt →
    IsEven (residueCount data modBase) modBase.toInt.toNat → NoBias data modBase := by
  intro h
  obtain ⟨report, hreport, hbias⟩ := h [portZero] 2 (by decide) isEven_portZero
  have hprinted : modularBiasAnalysis [portZero] 2 = some ⟨1, 0, true⟩ := by decide
  rw [hprinted] at hreport
  obtain rfl := Option.some.inj hreport
  cases hbias

/-- **Two packets** in the two residue classes are not. -/
theorem noBias_iff_twoPorts : NoBias [portZero, ⟨1, 0, 1⟩] 2 := by
  have heven : IsEven (residueCount [portZero, ⟨1, 0, 1⟩] 2) 2 := by
    rw [IsEven]
    decide
  refine (noBias_iff [portZero, ⟨1, 0, 1⟩] 2 (by decide) heven).mpr
    ⟨fun r ↦ List.countP_le_length.trans_lt (by decide), by decide, Or.inl (by decide)⟩

end NatGhost
