import Mathlib.Data.Fintype.BigOperators
import Mathlib.Data.List.OfFn
import NatGhost.Analyzer.LfsrPredictor

/-!
# The linear complexity of a growing stream

`berlekamp_massey` gives one number for a whole stream, and the analyzer takes a small one as a sign
of a register behind the ports. What the number can say depends on how it grows with the stream.

## The profile

With each bit the complexity either stays or is reflected at half the length of the stream, and it
can only grow while it is at most half (`exists_expected`). So it is known how many of the streams
of a length have a complexity: almost all have one near half the length. This is about the
complexity itself; `berlekampMassey_eq` says for which streams the code returns it.

## Registers

Once there are twice as many bits as the register that puts them out has stages, the complexity has
reached its final value, and every later bit is determined. Where the predictor recovers anything,
what it predicts are then the bits that really come (`lfsrPredictor_predicts`).
-/

namespace NatGhost

open Checked PowerSeries

/-- The least length of a recurrence that the stream satisfies. -/
noncomputable def linearComplexity (bits : List Bool) : ℕ :=
  sInf {L | ∃ c, Recurs (bits.map Bool.toNat) c L}

/-! ## The profile -/

section

variable (bits : List Bool)

theorem exists_shortest : ∃ C, Shortest C (series (bits.map Bool.toNat)) (linearComplexity bits)
    bits.length := by
  have hs := getD_map_toNat_lt_two bits
  rw [linearComplexity, ← @List.length_map _ _ bits Bool.toNat]
  generalize bits.map Bool.toNat = s at *
  obtain ⟨C, B, l, m, hstate⟩ := exists_masseyState (series s) s.length
  have hleast : IsLeast {L | ∃ c, Recurs s c L} l := by
    refine ⟨(exists_recurs_iff hs).mpr ⟨C, hstate.shortest.toGenerates⟩, fun L hL ↦ ?_⟩
    obtain ⟨C', hC'⟩ := (exists_recurs_iff hs).mp hL
    exact hstate.shortest.least C' L hC'
  rw [hleast.csInf_eq]
  exact ⟨C, hstate.shortest⟩

theorem linearComplexity_le_length : linearComplexity bits ≤ bits.length := by
  obtain ⟨C, hC⟩ := exists_shortest bits
  exact hC.length_le

variable {bits} in
/-- **`berlekamp_massey` returns the linear complexity** of every stream of at most `2 ^ 30`
bits. -/
theorem berlekampMassey_eq (hne : bits ≠ []) (hlength : bits.length ≤ 2 ^ 30) :
    berlekampMassey (bits.map Bool.toNat) = pure (linearComplexity bits) := by
  have h := computesComplexity_of_le hne hlength
  exact eq_pure h.inBounds h.returns h.isLeast.csInf_eq.symm

variable {bits}

theorem getD_map_append (more : List Bool) {i : ℕ} (hi : i < bits.length) :
    ((bits ++ more).map Bool.toNat).getD i 0 = (bits.map Bool.toNat).getD i 0 := by
  rw [List.map_append]
  exact List.getD_append _ _ _ _ (by rwa [List.length_map])

theorem coeff_series_append (more : List Bool) {i : ℕ} (hi : i < bits.length) :
    coeff i (series (bits.map Bool.toNat)) = coeff i (series ((bits ++ more).map Bool.toNat)) := by
  rw [coeff_series, coeff_series, getD_map_append more hi]

theorem coeff_series_take {n : ℕ} (hle : n ≤ bits.length) {i : ℕ} (hi : i < n) :
    coeff i (series ((bits.take n).map Bool.toNat)) = coeff i (series (bits.map Bool.toNat)) := by
  have hlength : (bits.take n).length = n := List.length_take_of_le hle
  have happend := coeff_series_append (bits.drop n) (hlength.symm ▸ hi)
  rwa [List.take_append_drop] at happend

theorem coeff_mul_series_concat {C : (ZMod 2)⟦X⟧} {L : ℕ} (hzero : coeff 0 C = 1)
    (hsupport : ∀ j, L < j → coeff j C = 0) (hL : L ≤ bits.length) (b : Bool) :
    coeff bits.length (C * series ((bits ++ [b]).map Bool.toNat))
      = b.toNat + coeff bits.length (C * series (bits.map Bool.toNat)) := by
  have hnew : ((bits ++ [b]).map Bool.toNat).getD bits.length 0 = b.toNat := by
    rw [List.map_append, List.getD_append_right _ _ _ _ (by rw [List.length_map]), List.length_map,
      Nat.sub_self]
    rfl
  have hnone : (bits.map Bool.toNat).getD bits.length 0 = 0 :=
    List.getD_eq_default _ _ (by rw [List.length_map])
  rw [coeff_mul_series hzero hsupport hL, coeff_mul_series hzero hsupport hL, hnew, hnone,
    Nat.cast_zero, zero_add]
  congr 1
  refine Finset.sum_congr rfl fun j hj ↦ ?_
  rw [Finset.mem_range] at hj
  rw [getD_map_append [b] (by omega)]

theorem eq_decide_iff (b : Bool) (d : ZMod 2) :
    b = decide (d ≠ 0) ↔ (b.toNat : ZMod 2) + d = 0 := by
  revert b d
  decide

variable (bits)

/-- **One more bit.** There is a bit the stream is expected to go on with; with the other one the
complexity changes, unless it is already more than half the length. -/
theorem exists_expected : ∃ expected, ∀ b, linearComplexity (bits ++ [b])
    = if b = expected ∨ bits.length < 2 * linearComplexity bits then linearComplexity bits
      else bits.length + 1 - linearComplexity bits := by
  obtain ⟨C, hC⟩ := exists_shortest bits
  have hconcat := coeff_mul_series_concat hC.constant hC.support (linearComplexity_le_length bits)
  refine ⟨decide (coeff bits.length (C * series (bits.map Bool.toNat)) ≠ 0), fun b ↦ ?_⟩
  obtain ⟨C', hC'⟩ := exists_shortest (bits ++ [b])
  rw [List.length_append, List.length_singleton] at hC'
  have hold := hC.congr fun i hi ↦ coeff_series_append [b] hi
  have hexpected : b = decide (coeff bits.length (C * series (bits.map Bool.toNat)) ≠ 0) ↔
      coeff bits.length (C * series ((bits ++ [b]).map Bool.toNat)) = 0 := by
    rw [hconcat, eq_decide_iff]
  split_ifs with hstay
  · exact hold.length_succ_of_stay hC' (hstay.imp_left hexpected.mp)
  · rw [not_or, Nat.not_lt] at hstay
    exact hold.length_succ_of_change hC' (mt hexpected.mpr hstay.1) hstay.2

end

/-- **The complexity profile** of the streams shorter than `2 ^ 30` bits. If what is returned for a
stream is more than half its length, no next bit changes it; otherwise exactly one of the two bits
does, and what is returned becomes what was missing to the new length. -/
theorem berlekampMassey_profile (bits : List Bool) (hne : bits ≠ [])
    (hlength : bits.length < 2 ^ 30) :
    ∃ l, berlekampMassey (bits.map Bool.toNat) = pure l ∧
      (bits.length < 2 * l → ∀ b, berlekampMassey ((bits ++ [b]).map Bool.toNat) = pure l) ∧
        (2 * l ≤ bits.length →
          ∃ b, berlekampMassey ((bits ++ [b]).map Bool.toNat) = pure l ∧
            berlekampMassey ((bits ++ [!b]).map Bool.toNat) = pure (bits.length + 1 - l)) := by
  obtain ⟨expected, hstep⟩ := exists_expected bits
  have hnext (b : Bool) : berlekampMassey ((bits ++ [b]).map Bool.toNat)
      = pure (linearComplexity (bits ++ [b])) :=
    berlekampMassey_eq (List.concat_ne_nil b bits) (by rw [List.length_append]; exact hlength)
  refine ⟨_, berlekampMassey_eq hne hlength.le, fun hlong b ↦ ?_, fun hshort ↦
    ⟨expected, ?_, ?_⟩⟩
  · rw [hnext, hstep b, if_pos (Or.inr hlong)]
  · rw [hnext, hstep expected, if_pos (Or.inl rfl)]
  · have hother : ¬((!expected) = expected ∨ bits.length < 2 * linearComplexity bits) := by
      rw [not_or, Nat.not_lt]
      exact ⟨Bool.not_ne_self expected, hshort⟩
    rw [hnext, hstep (!expected), if_neg hother]

/-- The stream 1, 0 is of complexity 1; it stays so with a 0 only. -/
theorem berlekampMassey_profile_two :
    ∃ l, berlekampMassey [1, 0] = pure l ∧
      (2 < 2 * l → ∀ b, berlekampMassey (([true, false] ++ [b]).map Bool.toNat) = pure l) ∧
        (2 * l ≤ 2 →
          ∃ b, berlekampMassey (([true, false] ++ [b]).map Bool.toNat) = pure l ∧
            berlekampMassey (([true, false] ++ [!b]).map Bool.toNat) = pure (2 + 1 - l)) :=
  berlekampMassey_profile [true, false] (by decide) (by decide)

/-! ## Counting streams -/

section

variable {n : ℕ}

theorem sum_ofFn_succ {α M : Type*} [Fintype α] [AddCommMonoid M] (f : List α → M) :
    ∑ v : Fin (n + 1) → α, f (List.ofFn v) = ∑ v : Fin n → α, ∑ a, f (List.ofFn v ++ [a]) := by
  rw [← (Fin.snocEquiv fun _ ↦ α).sum_comp, Fintype.sum_prod_type_right]
  refine Finset.sum_congr rfl fun v _ ↦ Finset.sum_congr rfl fun a _ ↦ ?_
  rw [List.ofFn_succ', List.concat_eq_append]
  simp [Fin.snocEquiv]

/-- The number of streams of `n` bits with complexity `l`. -/
noncomputable def complexityCount (n l : ℕ) : ℕ :=
  ∑ v : Fin n → Bool, if linearComplexity (List.ofFn v) = l then 1 else 0

theorem sum_continuations (bits : List Bool) (l : ℕ) :
    (∑ b, if linearComplexity (bits ++ [b]) = l then 1 else 0)
      = (if linearComplexity bits = l then 1 else 0) * (if bits.length < 2 * l then 2 else 1)
        + if 2 * linearComplexity bits ≤ bits.length ∧ bits.length + 1 - linearComplexity bits = l
          then 1 else 0 := by
  obtain ⟨expected, hstep⟩ := exists_expected bits
  have hother : (!expected) ≠ expected := Bool.not_ne_self expected
  have hsum : (∑ b, if linearComplexity (bits ++ [b]) = l then 1 else 0)
      = (if linearComplexity (bits ++ [expected]) = l then 1 else 0)
        + if linearComplexity (bits ++ [!expected]) = l then 1 else 0 := by
    rw [Fintype.sum_bool]
    cases expected
    · exact Nat.add_comm _ _
    · rfl
  rw [hsum, hstep expected, hstep (!expected), if_pos (Or.inl rfl)]
  simp only [hother, false_or]
  rcases Nat.lt_or_ge bits.length (2 * linearComplexity bits) with hlong | hshort
  · simp only [hlong, if_true, Nat.not_le.mpr hlong, false_and, if_false, add_zero]
    split_ifs <;> omega
  · rw [if_neg (Nat.not_lt.mpr hshort)]
    simp only [hshort, true_and]
    split_ifs <;> omega

theorem complexityCount_succ (n l : ℕ) : complexityCount (n + 1) l
    = complexityCount n l * (if n < 2 * l then 2 else 1)
      + if l ≤ n + 1 ∧ n + 2 ≤ 2 * l then complexityCount n (n + 1 - l) else 0 := by
  have hreflected : (∑ v : Fin n → Bool, if 2 * linearComplexity (List.ofFn v) ≤ n ∧
      n + 1 - linearComplexity (List.ofFn v) = l then 1 else 0)
        = if l ≤ n + 1 ∧ n + 2 ≤ 2 * l then complexityCount n (n + 1 - l) else 0 := by
    split_ifs with hl
    · refine Finset.sum_congr rfl fun v _ ↦ if_congr ?_ rfl rfl
      omega
    · refine Finset.sum_eq_zero fun v _ ↦ if_neg ?_
      have hle := linearComplexity_le_length (List.ofFn v)
      rw [List.length_ofFn] at hle
      omega
  rw [complexityCount, sum_ofFn_succ fun bits ↦ if linearComplexity bits = l then 1 else 0]
  simp only [sum_continuations, List.length_ofFn]
  rw [Finset.sum_add_distrib, ← Finset.sum_mul, hreflected, ← complexityCount]

theorem complexityCount_zero (l : ℕ) : complexityCount 0 l = if l = 0 then 1 else 0 := by
  have hempty : linearComplexity [] = 0 := Nat.le_zero.mp (linearComplexity_le_length [])
  rw [complexityCount, Fintype.sum_unique, List.ofFn_zero, hempty]
  exact if_congr eq_comm rfl rfl

/-- **How many streams have a complexity.** -/
theorem complexityCount_eq (n l : ℕ) : complexityCount n l
    = if l = 0 then 1 else if l ≤ n then 2 ^ min (2 * (n - l)) (2 * l - 1) else 0 := by
  induction n generalizing l with
  | zero =>
    rw [complexityCount_zero]
    refine if_ctx_congr Iff.rfl (fun _ ↦ rfl) fun hl ↦ ?_
    rw [if_neg (by omega)]
  | succ n ih =>
    rw [complexityCount_succ, ih l]
    rcases Nat.eq_zero_or_pos l with rfl | hpos
    · rw [if_pos rfl, if_pos rfl, if_neg (Nat.not_lt_zero _), if_neg (by omega)]
    rw [if_neg hpos.ne', if_neg hpos.ne']
    rcases Nat.lt_trichotomy l (n + 1) with hlt | rfl | hgt
    · have hle : l ≤ n := Nat.le_of_lt_succ hlt
      rw [if_pos hle, if_pos hlt.le]
      rcases Nat.lt_trichotomy (2 * l) (n + 1) with hshort | hhalf | hlong
      · -- no continuation comes too late, and none is reflected to `l`
        rw [if_neg (by omega), if_neg (by omega), mul_one, add_zero]
        congr 1
        omega
      · have hexp : min (2 * (n + 1 - l)) (2 * l - 1) = min (2 * (n - l)) (2 * l - 1) + 1 := by
          omega
        rw [if_pos (by omega), if_neg (by omega), hexp, add_zero, pow_succ]
      · have hexp : min (2 * (n + 1 - l)) (2 * l - 1) = 2 * (n - l) + 1 + 1 := by omega
        have hold : min (2 * (n - l)) (2 * l - 1) = 2 * (n - l) := by omega
        have hreflected : min (2 * (n - (n + 1 - l))) (2 * (n + 1 - l) - 1) = 2 * (n - l) + 1 := by
          omega
        rw [if_pos (by omega), if_pos ⟨hlt.le, by omega⟩, ih, if_neg (by omega),
          if_pos (by omega), hexp, hold, hreflected, pow_succ, pow_succ]
        ring
    · -- only the reflection of the streams of zeros
      rw [if_neg (Nat.not_succ_le_self n), zero_mul, zero_add, if_pos ⟨le_rfl, by omega⟩, ih,
        if_pos (Nat.sub_self _), if_pos le_rfl, Nat.sub_self, Nat.mul_zero, Nat.zero_min, pow_zero]
    · rw [if_neg (show ¬l ≤ n by omega), if_neg (show ¬(l ≤ n + 1 ∧ n + 2 ≤ 2 * l) by omega),
        if_neg (show ¬l ≤ n + 1 by omega), zero_mul]

end

/-- **The distribution of the complexity** for every length up to `2 ^ 30`. Of the streams of `n +
1` bits, 0 is returned for one, and another `l ≤ n + 1` for as many as two to the power of the
smaller of `2 * (n + 1 - l)` and `2 * l - 1`. -/
theorem card_berlekampMassey (n l : ℕ) (hlength : n + 1 ≤ 2 ^ 30) :
    Fintype.card
        {v : Fin (n + 1) → Bool // berlekampMassey ((List.ofFn v).map Bool.toNat) = pure l}
      = if l = 0 then 1
        else if l ≤ n + 1 then 2 ^ min (2 * (n + 1 - l)) (2 * l - 1) else 0 := by
  have hreturns (v : Fin (n + 1) → Bool) :
      berlekampMassey ((List.ofFn v).map Bool.toNat) = pure l
        ↔ linearComplexity (List.ofFn v) = l := by
    rw [berlekampMassey_eq (List.ne_nil_of_length_pos (by rw [List.length_ofFn]; omega))
      (by rwa [List.length_ofFn])]
    exact ⟨fun h ↦ congrArg Checked.val h, fun h ↦ by rw [h]⟩
  simp only [hreturns]
  rw [Fintype.card_subtype, Finset.card_filter]
  exact complexityCount_eq (n + 1) l

/-- Four of the eight streams of three bits have complexity 2. -/
theorem card_berlekampMassey_three :
    Fintype.card {v : Fin 3 → Bool // berlekampMassey ((List.ofFn v).map Bool.toNat) = pure 2}
      = 4 :=
  card_berlekampMassey 2 2 (by decide)

/-! ## Registers -/

section

variable {bits : List Bool} {c : ℕ → Bool} {L : ℕ}

theorem Recurs.take {x : List ℕ} (h : Recurs x c L) (m : ℕ) : Recurs (x.take m) c L := by
  have hold : ∀ i < (x.take m).length, (x.take m).getD i 0 = x.getD i 0 := fun i hi ↦ by
    rw [List.getD_eq_getElem _ _ hi, List.getElem_take, List.getD_eq_getElem]
  intro i hi hix
  have hix' : i < x.length := hix.trans_le (List.length_take_le' m x)
  rw [hold i hix, h i hi hix']
  refine xorSum_congr (fun j _ _ ↦ ?_) 0
  rw [hold (i - j) (by omega)]

theorem linearComplexity_le (h : Recurs (bits.map Bool.toNat) c L) :
    linearComplexity bits ≤ L := by
  obtain ⟨C, hC⟩ := exists_shortest bits
  have hgenerates := h.generates
  rw [List.length_map] at hgenerates
  exact hC.least _ _ hgenerates

/-- **A stream long enough fixes its register**: whatever shortest recurrence there is for twice as
many bits as the register has stages, it goes on holding. -/
theorem Generates.of_take (h : Recurs (bits.map Bool.toNat) c L) {n : ℕ} (hn : 2 * L ≤ n)
    (hle : n ≤ bits.length) {C : (ZMod 2)⟦X⟧} {l : ℕ} (hl : l ≤ L)
    (hC : Generates C (series ((bits.take n).map Bool.toNat)) l n) :
    Generates C (series (bits.map Bool.toNat)) l bits.length := by
  have hgenerates := h.generates
  rw [List.length_map] at hgenerates
  exact (hC.congr fun i hi ↦ coeff_series_take hle hi).extend hgenerates (by omega) hle

theorem linearComplexity_take (h : Recurs (bits.map Bool.toNat) c L) {n : ℕ} (hn : 2 * L ≤ n)
    (hle : n ≤ bits.length) : linearComplexity bits = linearComplexity (bits.take n) := by
  have hbegin := h.take n
  rw [← List.map_take] at hbegin
  obtain ⟨C, hC⟩ := exists_shortest bits
  obtain ⟨C', hC'⟩ := exists_shortest (bits.take n)
  rw [List.length_take, min_eq_left hle] at hC'
  have hall := Generates.of_take h hn hle (linearComplexity_le hbegin) hC'.toGenerates
  refine Nat.le_antisymm (hC.least C' _ hall) ?_
  exact hC'.least C _
    ((hC.toGenerates.mono hle).congr fun i hi ↦ (coeff_series_take hle hi).symm)

/-- **Registers that agree for long enough agree.** Two streams of one length, put out by registers
of `L` and `l` stages, are the same if their first `L + l` bits are. -/
theorem eq_of_registers {x y : List ℕ} (hx : ∀ i, x.getD i 0 < 2) (hy : ∀ i, y.getD i 0 < 2)
    (hlength : x.length = y.length) {c c' : ℕ → Bool} {L l : ℕ} (hc : Recurs x c L)
    (hc' : Recurs y c' l) (hle : L + l ≤ x.length)
    (hsame : ∀ i < L + l, x.getD i 0 = y.getD i 0) : x = y := by
  have hCy := hc'.generates
  rw [← hlength] at hCy
  have hterms (i : ℕ) (hi : i < L + l) : coeff i (series y) = coeff i (series x) := by
    rw [coeff_series, coeff_series, hsame i hi]
  have hbegin := (hCy.mono hle).congr hterms
  have hCx := hbegin.extend hc.generates (Nat.add_comm l L).le hle
  refine List.ext_getElem hlength fun i hi hi' ↦ ?_
  have hcoeff := hCx.unique hCy (fun j hj ↦ by
    rw [coeff_series, coeff_series, hsame j (hj.trans_le (Nat.le_add_left l L))]) hi
  rw [coeff_series, coeff_series, natCast_inj_of_lt_two (hx i) (hy i),
    List.getD_eq_getElem _ _ hi, List.getD_eq_getElem _ _ hi'] at hcoeff
  exact hcoeff

end

/-- **The predictions come true.** Let a stream be put out by a register of `L` stages, and let the
analyzer have read the first `n` bits of it, at least `2 * L` and fewer than `2 ^ 30`. Then
`berlekamp_massey` returns a length, the same as for any number of further bits up to `2 ^ 30`. And
if one of the bits read is set and the predictor recovers a recurrence of them at all, it returns
the bits that follow in the stream, as many of them as there are. -/
theorem lfsrPredictor_predicts (bits : List Bool) (c : ℕ → Bool) (L : ℕ)
    (hregister : Recurs (bits.map Bool.toNat) c L) (n : ℕ) (hpos : 0 < n) (hn : 2 * L ≤ n)
    (hle : n ≤ bits.length) (hlength : n < 2 ^ 30) :
    ∃ l, berlekampMassey ((bits.take n).map Bool.toNat) = pure l ∧
      (∀ m, n ≤ m → m ≤ 2 ^ 30 → berlekampMassey ((bits.take m).map Bool.toNat) = pure l) ∧
        (true ∈ bits.take n → ImpulseResponse ((bits.take n).map Bool.toNat) →
          ∀ k, n + k ≤ bits.length →
            (lfsrPredictor ((bits.take n).map Bool.toNat) l k).runs = true ∧
              (lfsrPredictor ((bits.take n).map Bool.toNat) l k).val
                = ((bits.drop n).take k).map Bool.toNat) := by
  have hread : (bits.take n).length = n := List.length_take_of_le hle
  have hne : bits.take n ≠ [] := List.ne_nil_of_length_pos (by rwa [hread])
  have hreturns := berlekampMassey_eq hne (by rw [hread]; exact hlength.le)
  refine ⟨_, hreturns, fun m hm hmax ↦ ?_, fun hset himpulse k hk ↦ ?_⟩
  · have hmore := @berlekampMassey_eq (bits.take m)
      (List.ne_nil_of_length_pos (by rw [List.length_take]; omega))
      (by rw [List.length_take]; omega)
    have hrest := hregister.take m
    rw [← List.map_take] at hrest
    rw [hmore, linearComplexity_take hrest hn (by rw [List.length_take]; omega), List.take_take,
      min_eq_left hm]
  · have hpredictable := continuesShortest_of_predictable hne (hread.symm ▸ hlength)
      (.inr ⟨hset, .inl himpulse⟩) (k := k)
    have hruns := hpredictable.predicted
    have hbegin := hregister.take n
    have hall := hregister.take (n + k)
    rw [← List.map_take] at hbegin hall
    have hl := linearComplexity_le hbegin
    have hsplit : (bits.take (n + k)).map Bool.toNat
        = (bits.take n).map Bool.toNat ++ ((bits.drop n).take k).map Bool.toNat := by
      rw [List.take_add, List.map_append]
    have hs := getD_map_toNat_lt_two (bits.take n)
    have hbits := getD_map_toNat_lt_two (bits.take (n + k))
    have hmap : ((bits.take n).map Bool.toNat).length = n := by rw [List.length_map, hread]
    have hmore : (((bits.drop n).take k).map Bool.toNat).length = k := by
      rw [List.length_map, List.length_take, List.length_drop, min_eq_left (by omega)]
    obtain ⟨a, ha⟩ := himpulse
    rw [hreturns, val_pure] at hruns ha
    refine ⟨hruns, ?_⟩
    generalize (bits.take n).map Bool.toNat = s at *
    -- the taps recovered are a recurrence of what has been read, and of the predictions behind it
    have hprimed := recoverLfsr_primed hs (by omega) ha
    obtain ⟨hcount, hpredicted, hfollows⟩ := hprimed.predicts hs (by omega) k
    have hrecurs := ((exists_responds_iff hs (by omega) (by omega)).mp ⟨a, ha⟩).2
    rw [hsplit] at hbits hall
    have heq := eq_of_registers hbits hpredicted (by simp only [List.length_append, hmore, hcount])
      hall (hfollows hrecurs) (by rw [List.length_append]; omega) fun i hi ↦ ?_
    · exact (List.append_cancel_left heq).symm
    · have hin : i < s.length := by omega
      rw [List.getD_append _ _ _ _ hin, List.getD_append _ _ _ _ hin]

/-- The stream 1, 0, 1, 1, 0, 1, 1, 0, 1, 1 is put out by two stages; from its first eight bits the
last two are predicted. -/
theorem lfsrPredictor_predicts_period_three :
    ∃ l, berlekampMassey [1, 0, 1, 1, 0, 1, 1, 0] = pure l ∧
      (lfsrPredictor [1, 0, 1, 1, 0, 1, 1, 0] l 2).runs = true ∧
        (lfsrPredictor [1, 0, 1, 1, 0, 1, 1, 0] l 2).val = [1, 1] := by
  obtain ⟨l, hl, -, hpredicts⟩ := lfsrPredictor_predicts
    [true, false, true, true, false, true, true, false, true, true] (fun _ ↦ true) 2
    (by unfold Recurs; decide +kernel) 8 (by decide) (by decide) (by decide) (by decide)
  exact ⟨l, hl, hpredicts (by decide) ⟨fun _ ↦ true, by unfold Responds; decide +kernel⟩ 2
    (by decide)⟩

end NatGhost
