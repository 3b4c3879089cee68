import NatGhost.Analyzer.BerlekampMassey

/-!
# The LFSR predictor

`lfsr_predictor` is given the linear complexity `L` of a bit stream and runs the main loop of
`berlekamp_massey` again, this time to have the coefficients as well, and continues the stream with
them. Its loop is not the one that found `L`: the length starts at `L` instead of zero, so all `L`
taps are read from the first term on.

Up to term `L` every failure is taken as a new tap, which makes the taps those of a register that
puts out the first `L` terms from the state `0, …, 0, 1` (`Primed`). Later failures up to term
`2 * L` change nothing, since the repair falls outside the vector, and the first one after that
makes the length grow beyond `L`. So the predictor has a recurrence of the stream exactly if the
whole stream is such an impulse response (`Responds`).
-/

namespace NatGhost

open Checked

/-! ## The code -/

/-- `std::vector<int>(s.end() - l, s.end())`. -/
def takeLast (s : List ℕ) (l : ℕ) : Checked (List ℕ) :=
  ⟨s.drop (s.length - l), decide (l ≤ s.length), true⟩

/-- `v.erase(v.begin())`, for which there has to be an element. -/
def eraseBegin (v : List ℕ) : Checked (List ℕ) := ⟨v.tail, true, !v.isEmpty⟩

/-- The first half of `lfsr_predictor`: its own main loop. -/
def recoverLfsr (s : List ℕ) (l : ℕ) : Checked Lfsr := do
  let size ← evalInt (l + 1)
  let c ← newVector size
  let b ← newVector size
  let b ← writeAt b 0 1
  let c ← writeAt c 0 1
  (List.range' 0 (narrow s.length).toNat).foldlM (fun st (i : ℕ) ↦ masseyTurn s st.l i st)
    { c := c, b := b, l := l, m := -1 }

/-- The variables of the prediction loop. -/
structure Register where
  predicted : List ℕ
  state : List ℕ

/-- One turn of the prediction loop. -/
def predictTurn (c : List ℕ) (l : ℕ) (r : Register) : Checked Register := do
  let next ← xorTaps c r.state l l 0
  let state ← eraseBegin r.state
  pure { predicted := r.predicted ++ [next], state := state ++ [next] }

/-- `lfsr_predictor`. -/
def lfsrPredictor (bitstream : List ℕ) (l predictCount : ℕ) : Checked (List ℕ) := do
  let st ← recoverLfsr bitstream l
  let state ← takeLast bitstream st.l
  let r ← (List.range' 0 predictCount).foldlM (fun r (_ : ℕ) ↦ predictTurn st.c st.l r)
    { predicted := [], state := state }
  pure r.predicted

/-! ## Impulse responses -/

/-- The stream is what the register with these coefficients puts out from the state `0, …, 0, 1`:
every term is the exclusive or of the `L` before it, with a one before the first term and zeros
before that. -/
def Responds (s : List ℕ) (c : ℕ → Bool) (L : ℕ) : Prop :=
  ∀ i < s.length,
    s.getD i 0 = xorSum (fun j ↦ (c j).toNat &&& (readAt (1 :: s) ((i : ℤ) + 1 - j)).val) L 0

def taps (v : List ℕ) (j : ℕ) : Bool := decide (v.getD j 0 ≠ 0)

section

variable {s c c' : List ℕ} {a : ℕ → Bool} {i l t L : ℕ}

theorem toNat_taps {v : List ℕ} (hv : ∀ k, v.getD k 0 < 2) (j : ℕ) :
    (taps v j).toNat = v.getD j 0 := by
  have hbit := hv j
  rw [taps]
  by_cases hzero : v.getD j 0 = 0
  · rw [hzero]
    rfl
  · rw [decide_eq_true hzero, Bool.toNat_true]
    omega

theorem readAt_lt_two (hs : ∀ k, s.getD k 0 < 2) (i : ℤ) : (readAt s i).val < 2 := by
  rw [readAt]
  split_ifs
  · exact hs _
  · exact Nat.zero_lt_two

theorem val_discrepancy_taps (hs : ∀ k, s.getD k 0 < 2) (hc : ∀ k, c.getD k 0 < 2) :
    (discrepancy s c l i).val
      = xorSum (fun j ↦ (taps c j).toNat &&& (readAt s ((i : ℤ) - j)).val) l (s.getD i 0) := by
  rw [val_discrepancy]
  refine xorSum_congr (fun j _ _ ↦ ?_) _
  rw [toNat_and_eq_mul _ (readAt_lt_two hs _), toNat_taps hc]

theorem val_readAt_one_cons (s : List ℕ) (i j : ℕ) :
    (readAt (1 :: s) ((i : ℤ) + 1 - j)).val
      = (readAt s ((i : ℤ) - j)).val ^^^ (if j = i + 1 then 1 else 0) := by
  -- `j` steps back from a term, at the one before the first term, or further back
  rcases Nat.lt_trichotomy j (i + 1) with hlt | rfl | hgt
  · have hcons : (i : ℤ) + 1 - j = ((i - j + 1 : ℕ) : ℤ) := by omega
    have hindex : (i : ℤ) - j = ((i - j : ℕ) : ℤ) := by omega
    rw [if_neg hlt.ne, hcons, hindex, val_readAt_natCast, val_readAt_natCast, List.getD_cons_succ,
      Nat.xor_zero]
  · have hcons : (i : ℤ) + 1 - (i + 1 : ℕ) = ((0 : ℕ) : ℤ) := by omega
    rw [if_pos rfl, hcons, val_readAt_natCast, val_readAt_of_neg s (by omega)]
    rfl
  · rw [if_neg hgt.ne', val_readAt_of_neg _ (by omega), val_readAt_of_neg _ (by omega),
    Nat.xor_zero]

/-- **What an impulse response means for the discrepancies**: up to term `L` they are the
coefficients themselves, and zero from there on. -/
theorem responds_term_iff :
    s.getD i 0 = xorSum (fun j ↦ (a j).toNat &&& (readAt (1 :: s) ((i : ℤ) + 1 - j)).val) L 0
      ↔ xorSum (fun j ↦ (a j).toNat &&& (readAt s ((i : ℤ) - j)).val) L (s.getD i 0)
        = if i < L then (a (i + 1)).toNat else 0 := by
  have hsplit : xorSum (fun j ↦ (a j).toNat &&& (readAt (1 :: s) ((i : ℤ) + 1 - j)).val) L 0
      = xorSum (fun j ↦ (a j).toNat &&& (readAt s ((i : ℤ) - j)).val) L 0
        ^^^ (if i < L then (a (i + 1)).toNat else 0) := by
    have hone : xorSum (fun j ↦ (a j).toNat &&& if j = i + 1 then 1 else 0) L 0
        = if i < L then (a (i + 1)).toNat else 0 := by
      rw [xorSum_single fun j hj ↦ by rw [if_neg hj, Nat.and_zero]]
      rw [if_pos rfl, toNat_and_eq_mul _ (by decide), Nat.mul_one]
    rw [← hone, ← xorSum_xor]
    refine xorSum_congr (fun j _ _ ↦ ?_) 0
    rw [val_readAt_one_cons, Nat.and_xor_distrib_left]
  rw [hsplit, xorSum_eq_xor _ L (s.getD i 0)]
  generalize xorSum (fun j ↦ (a j).toNat &&& (readAt s ((i : ℤ) - j)).val) L 0 = x
  generalize (if i < L then (a (i + 1)).toNat else 0) = y
  constructor
  · intro h
    rw [h, Nat.xor_comm x y, Nat.xor_assoc, Nat.xor_self, Nat.xor_zero]
  · intro h
    rw [← h, Nat.xor_comm (s.getD i 0) x, ← Nat.xor_assoc, Nat.xor_self, Nat.zero_xor]

theorem val_discrepancy_congr (h : ∀ j, 1 ≤ j → j ≤ t → c.getD j 0 = c'.getD j 0) :
    (discrepancy s c l t).val = (discrepancy s c' l t).val := by
  rw [val_discrepancy, val_discrepancy]
  refine xorSum_congr (fun j hj _ ↦ ?_) _
  rcases Nat.lt_or_ge t j with hlt | hge
  · rw [val_readAt_of_neg s (by omega), Nat.mul_zero, Nat.mul_zero]
  · rw [h j hj hge]

end

/-! ## The main loop -/

/-- Before term `i` the length is still `L`: nothing has been remembered but the initial vector, and
the taps up to `min i L` are the discrepancies of the terms before them. -/
structure Primed (s : List ℕ) (L i : ℕ) (st : Lfsr) : Prop where
  length : st.l = L
  change : st.m = -1
  earlier : ∀ k, st.b.getD k 0 = if k = 0 then 1 else 0
  size : st.c.length = L + 1
  bit : ∀ k, st.c.getD k 0 < 2
  fresh : ∀ k, i < k → st.c.getD k 0 = 0
  settled : ∀ t < i, t < L → (discrepancy s st.c L t).val = st.c.getD (t + 1) 0

section

variable {s : List ℕ} {a : ℕ → Bool} {i L : ℕ} {st : Lfsr}

namespace Primed

theorem shift (h : Primed s L i st) : ((i + 1 : ℕ) : ℤ) = i - st.m := by
  rw [h.change]
  omega

theorem getD_repair (h : Primed s L i st) (k : ℕ) :
    (addShifted st.b i st.m st.l st.c).val.getD k 0
      = if k = i + 1 ∧ i < L then st.c.getD k 0 ^^^ 1 else st.c.getD k 0 := by
  rw [(addShifted_spec st.b st.c h.shift st.l).2 k, h.length, h.size]
  congr 1
  rw [eq_iff_iff, h.earlier]
  constructor
  · rintro ⟨hle, -, hlt, hb⟩
    obtain rfl : k = i + 1 := by
      by_contra hne
      exact hb (if_neg (by omega))
    exact ⟨rfl, Nat.lt_of_succ_lt_succ hlt⟩
  · rintro ⟨rfl, hlt⟩
    exact ⟨le_rfl, by omega, by omega, by rw [Nat.sub_self, if_pos rfl]; exact Nat.one_ne_zero⟩

theorem keep (h : Primed s L i st) (hd : (discrepancy s st.c L i).val = 0) :
    Primed s L (i + 1) st :=
  { h with
    fresh := fun k hk ↦ h.fresh k (Nat.lt_of_succ_lt hk)
    settled := fun t ht htL ↦ by
      rcases Nat.lt_succ_iff_lt_or_eq.mp ht with hlt | rfl
      · exact h.settled t hlt htL
      · rw [hd, h.fresh (t + 1) (Nat.lt_succ_self t)] }

theorem repair (hs : ∀ k, s.getD k 0 < 2) (h : Primed s L i st)
    (hd : (discrepancy s st.c L i).val ≠ 0) :
    Primed s L (i + 1) { st with c := (addShifted st.b i st.m st.l st.c).val } := by
  have hcells := h.getD_repair
  -- the repair does not reach the taps that earlier terms have met
  have hold : ∀ k ≤ i, st.c.getD k 0 = (addShifted st.b i st.m st.l st.c).val.getD k 0 :=
    fun k hk ↦ by rw [hcells, if_neg fun hi ↦ by omega]
  have hsettled : ∀ t ≤ i, (discrepancy s (addShifted st.b i st.m st.l st.c).val L t).val
      = (discrepancy s st.c L t).val := fun t ht ↦
    (val_discrepancy_congr fun j _ hj ↦ hold j (hj.trans ht)).symm
  refine ⟨h.length, h.change, h.earlier, ?_, fun k ↦ ?_, fun k hk ↦ ?_, fun t ht htL ↦ ?_⟩
  · rw [← h.size]
    exact (addShifted_spec _ _ h.shift _).1
  · rw [hcells]
    split_ifs
    · exact xor_lt_two (h.bit k) (by decide)
    · exact h.bit k
  · rw [hcells, if_neg fun hi ↦ by omega]
    exact h.fresh k (Nat.lt_of_succ_lt hk)
  · rw [hsettled t (Nat.le_of_lt_succ ht)]
    rcases Nat.lt_succ_iff_lt_or_eq.mp ht with hlt | rfl
    · rw [h.settled t hlt htL, hold (t + 1) hlt]
    · have hone := discrepancy_lt_two hs h.bit L t
      rw [hcells, if_pos ⟨rfl, htL⟩, h.fresh (t + 1) (Nat.lt_succ_self t), Nat.zero_xor]
      omega

/-- **One turn of the loop**, as long as the length does not change. -/
theorem turn (hs : ∀ k, s.getD k 0 < 2) (h : Primed s L i st)
    (hstay : (discrepancy s st.c L i).val = 0 ∨ i < 2 * L) :
    Primed s L (i + 1) (masseyTurn s st.l i st).val := by
  by_cases hd : (discrepancy s st.c L i).val = 0
  · rw [val_masseyTurn_of_zero (h.length ▸ hd)]
    exact h.keep hd
  · have hlt := hstay.resolve_left hd
    rw [val_masseyTurn_of_long (h.length ▸ hd) (h.length ▸ Nat.not_le.mpr hlt)]
    exact h.repair hs hd

end Primed

theorem length_le_masseyTurn (count : ℕ) : st.l ≤ (masseyTurn s count i st).val.l := by
  by_cases hd : (discrepancy s st.c st.l i).val = 0
  · rw [val_masseyTurn_of_zero hd]
  · by_cases hl : 2 * st.l ≤ i
    · rw [val_masseyTurn_of_short hd hl]
      change st.l ≤ i + 1 - st.l
      omega
    · rw [val_masseyTurn_of_long hd hl]

theorem masseyTurn_primed_or_longer (hs : ∀ k, s.getD k 0 < 2) (h : Primed s L i st ∨ L < st.l) :
    Primed s L (i + 1) (masseyTurn s st.l i st).val ∨ L < (masseyTurn s st.l i st).val.l := by
  rcases h with h | h
  · by_cases hstay : (discrepancy s st.c L i).val = 0 ∨ i < 2 * L
    · exact .inl (h.turn hs hstay)
    · rw [not_or, Nat.not_lt] at hstay
      refine .inr ?_
      rw [val_masseyTurn_of_short (h.length.symm ▸ hstay.1) (h.length.symm ▸ hstay.2), h.length]
      change L < i + 1 - L
      omega
  · exact .inr (h.trans_le (length_le_masseyTurn _))

theorem primed_initial (s : List ℕ) (L : ℕ) :
    Primed s L 0 ⟨(writeAt (List.replicate (L + 1) 0) 0 1).val,
      (writeAt (List.replicate (L + 1) 0) 0 1).val, L, -1⟩ := by
  have hcells : ∀ k, (writeAt (List.replicate (L + 1) 0) 0 1).val.getD k 0
      = if k = 0 then 1 else 0 := fun k ↦ by
    rw [getD_initial]
    congr 1
    rw [eq_iff_iff]
    exact ⟨And.left, fun hk ↦ ⟨hk, hk ▸ Nat.succ_pos L⟩⟩
  refine ⟨rfl, rfl, hcells, ?_, fun k ↦ ?_, fun k hk ↦ ?_, fun t ht ↦ absurd ht (Nat.not_lt_zero t)⟩
  · rw [length_writeAt, List.length_replicate]
  · rw [hcells]
    split_ifs <;> decide
  · rw [hcells, if_neg hk.ne']

theorem recoverLfsr_invariant (I : ℕ → Lfsr → Prop) (hinit : ∀ st, Primed s L 0 st → I 0 st)
    (hstep : ∀ i st, i < s.length → I i st → I (i + 1) (masseyTurn s st.l i st).val) :
    I (narrow s.length).toNat (recoverLfsr s L).val := by
  have hle := narrow_le s.length
  have hloop := val_foldlM_range' (fun st (i : ℕ) ↦ masseyTurn s st.l i st) I 0
    (narrow s.length).toNat (hinit _ (primed_initial s L)) fun i st _ hi h ↦
      hstep i st (by omega) h
  rwa [Nat.zero_add] at hloop

theorem recoverLfsr_invariant_of_lt (I : ℕ → Lfsr → Prop) (hlength : s.length < 2 ^ 31)
    (hinit : ∀ st, Primed s L 0 st → I 0 st)
    (hstep : ∀ i st, i < s.length → I i st → I (i + 1) (masseyTurn s st.l i st).val) :
    I s.length (recoverLfsr s L).val := by
  have h := recoverLfsr_invariant I hinit hstep
  rwa [narrow_of_lt hlength, Int.toNat_natCast] at h

/-- **The main loop of `lfsr_predictor`** from any length on. -/
theorem recoverLfsr_primed_or_longer (hs : ∀ k, s.getD k 0 < 2) (hlength : s.length < 2 ^ 31)
    (L : ℕ) : Primed s L s.length (recoverLfsr s L).val ∨ L < (recoverLfsr s L).val.l :=
  recoverLfsr_invariant_of_lt (fun i st ↦ Primed s L i st ∨ L < st.l) hlength (fun _ h ↦ .inl h)
    fun _ _ _ h ↦ masseyTurn_primed_or_longer hs h

theorem Primed.getD_eq (hs : ∀ k, s.getD k 0 < 2) (h : Primed s L i st) (hi : i ≤ s.length)
    (ha : Responds s a L) {k : ℕ} (hk : 1 ≤ k) (hki : k ≤ i) (hkL : k ≤ L) :
    st.c.getD k 0 = (a k).toNat := by
  induction k using Nat.strong_induction_on with
  | _ k ih =>
    obtain ⟨t, rfl⟩ := Nat.exists_eq_add_of_le' hk
    have hterm := responds_term_iff.mp (ha t (by omega))
    rw [if_pos (Nat.lt_of_succ_le hkL)] at hterm
    rw [← h.settled t hki hkL, ← hterm, val_discrepancy]
    refine xorSum_congr (fun j hj _ ↦ ?_) _
    rcases Nat.lt_or_ge t j with hlt | hge
    · rw [val_readAt_of_neg s (by omega), Nat.mul_zero, Nat.and_zero]
    · rw [ih j (by omega) hj (by omega) (by omega), toNat_and_eq_mul _ (readAt_lt_two hs _)]

theorem recoverLfsr_primed_of_le (hs : ∀ k, s.getD k 0 < 2) (hlength : s.length < 2 ^ 31)
    (hL : s.length ≤ 2 * L) : Primed s L s.length (recoverLfsr s L).val :=
  recoverLfsr_invariant_of_lt (Primed s L) hlength (fun _ h ↦ h) fun _ _ hi h ↦
    h.turn hs (.inr (hi.trans_le hL))

/-- **An impulse response is recovered**: every term from `L` on is predicted. -/
theorem recoverLfsr_primed (hs : ∀ k, s.getD k 0 < 2) (hlength : s.length < 2 ^ 31)
    (ha : Responds s a L) : Primed s L s.length (recoverLfsr s L).val := by
  refine recoverLfsr_invariant_of_lt (Primed s L) hlength (fun _ h ↦ h) fun i st hi h ↦
    h.turn hs ?_
  rcases Nat.lt_or_ge i L with hlt | hge
  · exact .inr (by omega)
  · -- all taps are set by now, and they are those of the register
    refine .inl ?_
    have hterm := responds_term_iff.mp (ha i hi)
    rw [if_neg (Nat.not_lt.mpr hge)] at hterm
    rw [← hterm, val_discrepancy]
    refine xorSum_congr (fun j hj hjL ↦ ?_) _
    rw [h.getD_eq hs hi.le ha hj (hjL.trans hge) hjL, toNat_and_eq_mul _ (readAt_lt_two hs _)]

theorem xorSum_readAt_one_cons (hi : L ≤ i) :
    xorSum (fun j ↦ (a j).toNat &&& (readAt (1 :: s) ((i : ℤ) + 1 - j)).val) L 0
      = xorSum (fun j ↦ (a j).toNat &&& s.getD (i - j) 0) L 0 := by
  refine xorSum_congr (fun j _ hj ↦ ?_) 0
  have hindex : (i : ℤ) + 1 - j = ((i - j + 1 : ℕ) : ℤ) := by omega
  rw [hindex, val_readAt_natCast, List.getD_cons_succ]

theorem Responds.recurs (h : Responds s a L) : Recurs s a L := fun i hi hix ↦ by
  rw [h i hix, xorSum_readAt_one_cons hi]

/-- **What the predictor recovers.** The taps it predicts with are a recurrence of the given length
for the stream exactly if the stream is an impulse response of that length. -/
theorem exists_responds_iff (hs : ∀ k, s.getD k 0 < 2) (hlength : s.length < 2 ^ 31)
    (hL : L ≤ s.length) :
    (∃ a, Responds s a L) ↔
      (recoverLfsr s L).val.l = L ∧ Recurs s (taps (recoverLfsr s L).val.c) L := by
  constructor
  · rintro ⟨a, ha⟩
    have h := recoverLfsr_primed hs hlength ha
    refine ⟨h.length, fun i hi hix ↦ ?_⟩
    rw [ha.recurs i hi hix]
    refine xorSum_congr (fun j hj hjL ↦ ?_) 0
    rw [toNat_taps h.bit, h.getD_eq hs le_rfl ha hj (hjL.trans hL) hjL]
  · rintro ⟨hl, hrecurs⟩
    -- a length that ends at `L` has never changed, so every tap is still the discrepancy it was
    -- set to
    have h := (recoverLfsr_primed_or_longer hs hlength L).resolve_right (Nat.not_lt.mpr hl.le)
    refine ⟨taps (recoverLfsr s L).val.c, fun i hi ↦ ?_⟩
    rcases Nat.lt_or_ge i L with hlt | hge
    · rw [responds_term_iff, if_pos hlt, toNat_taps h.bit, ← h.settled i hi hlt,
        val_discrepancy_taps hs h.bit]
    · rw [xorSum_readAt_one_cons hge]
      exact hrecurs i hge hi

end

/-! ## The prediction loop -/

/-- After `k` turns there are `k` predictions, and the state is the end of the stream with them. -/
structure Extends (s : List ℕ) (l k : ℕ) (r : Register) : Prop where
  length : r.predicted.length = k
  bit : ∀ k, (s ++ r.predicted).getD k 0 < 2
  state : 0 < l → r.state = (s ++ r.predicted).drop (s.length + k - l)

section

variable {s c : List ℕ} {l k L : ℕ} {r : Register}

theorem getD_drop (x : List ℕ) (m i : ℕ) : (x.drop m).getD i 0 = x.getD (m + i) 0 := by
  rw [List.getD_eq_getElem?_getD, List.getD_eq_getElem?_getD, List.getElem?_drop]

theorem getD_concat_lt_two {x : List ℕ} {b : ℕ} (hx : ∀ k, x.getD k 0 < 2) (hb : b < 2) (k : ℕ) :
    (x ++ [b]).getD k 0 < 2 := by
  rcases Nat.lt_or_ge k x.length with hlt | hge
  · rw [List.getD_append _ _ _ _ hlt]
    exact hx k
  · rw [List.getD_append_right _ _ _ _ hge]
    rcases Nat.eq_zero_or_pos (k - x.length) with hzero | hpos
    · rw [hzero, List.getD_cons_zero]
      exact hb
    · rw [List.getD_eq_default _ _ hpos]
      exact Nat.zero_lt_two

namespace Extends

variable (h : Extends s l k r) (hc : ∀ k, c.getD k 0 < 2) (hl : l ≤ s.length)

include h

theorem length_append : (s ++ r.predicted).length = s.length + k := by
  rw [List.length_append, h.length]

include hc hl

theorem val_next : (xorTaps c r.state l l 0).val
    = xorSum (fun j ↦ (taps c j).toNat
        &&& (s ++ r.predicted).getD ((s ++ r.predicted).length - j) 0) l 0 := by
  rw [val_xorTaps]
  refine xorSum_congr (fun j hj hjl ↦ ?_) 0
  have hindex : (l : ℤ) - j = ((l - j : ℕ) : ℤ) := by omega
  have hend : s.length + k - l + (l - j) = (s ++ r.predicted).length - j := by
    rw [h.length_append]
    omega
  rw [hindex, val_readAt_natCast, h.state (hj.trans hjl), getD_drop, hend,
    toNat_and_eq_mul _ (h.bit _), toNat_taps hc]

/-- **One prediction**, which a recurrence of the stream so far survives. -/
theorem turn : Extends s l (k + 1) (predictTurn c l r).val ∧
    (Recurs (s ++ r.predicted) (taps c) l →
      Recurs (s ++ (predictTurn c l r).val.predicted) (taps c) l) := by
  have hlength := h.length_append
  have hnext := h.val_next hc hl
  have hbit : (xorTaps c r.state l l 0).val < 2 := by
    rw [hnext]
    exact xorSum_lt_two (fun j ↦ toNat_and_lt_two _ _) (by decide) l
  have hval : (predictTurn c l r).val
      = ⟨r.predicted ++ [(xorTaps c r.state l l 0).val],
          r.state.tail ++ [(xorTaps c r.state l l 0).val]⟩ := rfl
  rw [hval]
  generalize (xorTaps c r.state l l 0).val = next at hnext hbit
  refine ⟨⟨?_, fun i ↦ ?_, fun hpos ↦ ?_⟩, fun hrecurs ↦ ?_⟩
  · rw [List.length_append, h.length, List.length_singleton]
  · rw [← List.append_assoc]
    exact getD_concat_lt_two h.bit hbit i
  · have hdrop : s.length + (k + 1) - l = s.length + k - l + 1 := by omega
    have hbound : s.length + k - l + 1 ≤ (s ++ r.predicted).length := by omega
    change r.state.tail ++ [next] = _
    rw [← List.append_assoc, hdrop, List.drop_append_of_le_length hbound, h.state hpos,
      List.tail_drop]
  · rw [← List.append_assoc]
    exact hrecurs.concat (by omega) hnext

end Extends

/-- **A run of the prediction loop** with the length unchanged. -/
theorem Primed.predicts (hs : ∀ k, s.getD k 0 < 2)
    (h : Primed s L s.length (recoverLfsr s L).val) (hL : L ≤ s.length) (k : ℕ) :
    (lfsrPredictor s L k).val.length = k ∧
      (∀ i, (s ++ (lfsrPredictor s L k).val).getD i 0 < 2) ∧
      (Recurs s (taps (recoverLfsr s L).val.c) L →
        Recurs (s ++ (lfsrPredictor s L k).val) (taps (recoverLfsr s L).val.c) L) := by
  have hval : (lfsrPredictor s L k).val = ((List.range' 0 k).foldlM
      (fun r (_ : ℕ) ↦ predictTurn (recoverLfsr s L).val.c L r)
      ⟨[], s.drop (s.length - L)⟩).val.predicted := by
    rw [lfsrPredictor, val_bind, h.length]
    rfl
  have hloop := val_foldlM_range'
    (fun r (_ : ℕ) ↦ predictTurn (recoverLfsr s L).val.c L r)
    (fun k r ↦ Extends s L k r ∧ (Recurs s (taps (recoverLfsr s L).val.c) L →
      Recurs (s ++ r.predicted) (taps (recoverLfsr s L).val.c) L))
    (a := ⟨[], s.drop (s.length - L)⟩) 0 k ?_ fun i r _ _ hr ↦ ?_
  · obtain ⟨hextends, hrecurs⟩ := hloop
    rw [Nat.zero_add] at hextends
    rw [hval]
    exact ⟨hextends.length, hextends.bit, hrecurs⟩
  · refine ⟨⟨rfl, ?_, fun _ ↦ ?_⟩, fun hrecurs ↦ ?_⟩
    · rwa [List.append_nil]
    · rw [List.append_nil]
      rfl
    · rwa [List.append_nil]
  · obtain ⟨hnext, hstep⟩ := hr.1.turn h.bit hL
    exact ⟨hnext, fun hrecurs ↦ hstep (hr.2 hrecurs)⟩

end

/-! ## Getting to the end -/

section

variable {s c : List ℕ} {i l k L : ℕ} {st : Lfsr}

theorem masseyTurn_bounds (hi : i < s.length) (h : st.l ≤ s.length ∧ -1 ≤ st.m ∧ st.m < i) :
    (masseyTurn s st.l i st).val.l ≤ s.length ∧ -1 ≤ (masseyTurn s st.l i st).val.m ∧
      (masseyTurn s st.l i st).val.m < (i + 1 : ℕ) := by
  obtain ⟨hl, hm, hmi⟩ := h
  by_cases hd : (discrepancy s st.c st.l i).val = 0
  · rw [val_masseyTurn_of_zero hd]
    exact ⟨hl, hm, by omega⟩
  · by_cases hshort : 2 * st.l ≤ i
    · rw [val_masseyTurn_of_short hd hshort]
      exact ⟨by change i + 1 - st.l ≤ _; omega, by change (-1 : ℤ) ≤ i; omega,
        by change (i : ℤ) < _; omega⟩
    · rw [val_masseyTurn_of_long hd hshort]
      exact ⟨hl, hm, by change st.m < _; omega⟩

theorem runs_recoverLfsr_eq (hlength : s.length < 2 ^ 31) : (recoverLfsr s L).runs
    = ((evalInt ((L : ℤ) + 1)).runs &&
      ((List.range' 0 s.length).foldlM (fun st (i : ℕ) ↦ masseyTurn s st.l i st)
        ⟨(writeAt (List.replicate (L + 1) 0) 0 1).val,
          (writeAt (List.replicate (L + 1) 0) 0 1).val, L, -1⟩).runs) := by
  have hvector : (newVector ((L : ℤ) + 1)).runs = true := runs_newVector_natCast (L + 1)
  rw [recoverLfsr, narrow_of_lt hlength]
  simp only [runs_bind, val_evalInt, hvector, runs_writeAt, Int.toNat_natCast, Bool.true_and]
  rfl

theorem runs_recoverLfsr (hL : L ≤ s.length) (hlength : s.length < 2 ^ 30) :
    (recoverLfsr s L).runs = true := by
  rw [runs_recoverLfsr_eq (by omega), (Safe.evalInt (by omega) (by omega)).runs, Bool.true_and]
  refine runs_foldlM_range' _ (fun (i : ℕ) (st : Lfsr) ↦ st.l ≤ s.length ∧ -1 ≤ st.m ∧ st.m < i)
    0 s.length ⟨hL, le_rfl, neg_one_lt_zero⟩ fun i st _ hi h ↦ ?_
  have hin : i < s.length := by omega
  exact ⟨runs_masseyTurn h.2.1 h.2.2.le (by omega) (by omega), masseyTurn_bounds hin h⟩

theorem length_recoverLfsr_le (hL : L ≤ s.length) : (recoverLfsr s L).val.l ≤ s.length :=
  (recoverLfsr_invariant (fun (i : ℕ) (st : Lfsr) ↦ st.l ≤ s.length ∧ -1 ≤ st.m ∧ st.m < i)
    (fun _ h ↦ ⟨h.length.trans_le hL, h.change.ge, h.change ▸ neg_one_lt_zero⟩)
    fun _ _ hi h ↦ masseyTurn_bounds hi h).1

theorem runs_takeLast (s : List ℕ) (l : ℕ) : (takeLast s l).runs = true := rfl

theorem runs_predictTurn_iff (r : Register) : (predictTurn c l r).runs = true ↔ r.state ≠ [] := by
  rw [predictTurn, runs_bind, runs_xorTaps, runs_bind, runs_pure, Bool.true_and, Bool.and_true,
    eraseBegin, Bool.not_eq_true', List.isEmpty_eq_false_iff]

theorem length_state_predictTurn {r : Register} (hl : 0 < l) (h : r.state.length = l) :
    (predictTurn c l r).val.state.length = l := by
  change (r.state.tail ++ [_]).length = l
  rw [List.length_append, List.length_tail, h, List.length_singleton, Nat.sub_add_cancel hl]

/-- **When the predictor gets to its end**: if its main loop does, and there is something to erase
from the state whenever a bit is predicted. -/
theorem runs_lfsrPredictor_iff (hl : (recoverLfsr s L).val.l ≤ s.length) :
    (lfsrPredictor s L k).runs = true
      ↔ (recoverLfsr s L).runs = true ∧ (k = 0 ∨ 0 < (recoverLfsr s L).val.l) := by
  have hstate : (takeLast s (recoverLfsr s L).val.l).val.length = (recoverLfsr s L).val.l := by
    rw [takeLast, List.length_drop, Nat.sub_sub_self hl]
  rw [lfsrPredictor, runs_bind, runs_bind, runs_bind, runs_pure, Bool.and_true, Bool.and_eq_true]
  refine and_congr_right fun _ ↦ ?_
  rw [runs_takeLast, Bool.true_and]
  generalize (takeLast s (recoverLfsr s L).val.l).val = state at *
  constructor
  · intro hruns
    by_contra hempty
    rw [not_or, Nat.not_lt, Nat.le_zero] at hempty
    obtain ⟨k, rfl⟩ := Nat.exists_eq_succ_of_ne_zero hempty.1
    -- the first prediction finds the state empty
    rw [List.range'_succ, List.foldlM_cons, runs_bind, Bool.and_eq_true,
      runs_predictTurn_iff] at hruns
    exact hruns.1 (List.length_eq_zero_iff.mp (hstate.trans hempty.2))
  · rintro (rfl | hpos)
    · rfl
    · refine runs_foldlM_range' _ (fun _ r ↦ r.state.length = (recoverLfsr s L).val.l) 0 k hstate
        fun _ r _ _ hr ↦ ⟨(runs_predictTurn_iff r).mpr ?_, length_state_predictTurn hpos hr⟩
      exact List.ne_nil_of_length_pos (hr ▸ hpos)

/-- **A single one at the end** of `2 ^ 30` bits or more: given the length of the stream, the main
loop doubles it at the last term. -/
theorem not_runs_recoverLfsr_lastOne {n : ℕ} (hn : 2 ^ 30 ≤ n + 1) (hlt : n + 1 < 2 ^ 31) :
    (recoverLfsr (List.replicate n 0 ++ [1]) (n + 1)).runs = false := by
  have hlength : (List.replicate n 0 ++ [1]).length = n + 1 := by simp
  have hzeros := getD_lastOne_of_lt (n := n)
  have hlast := getD_lastOne n
  have hs : ∀ k, (List.replicate n 0 ++ [1]).getD k 0 < 2 := fun k ↦
    getD_concat_lt_two (fun k ↦ by simp) (by decide) k
  generalize List.replicate n 0 ++ [1] = s at *
  have hloop := not_runs_foldlM_range' (fun st (i : ℕ) ↦ masseyTurn s st.l i st)
    (Primed s (n + 1)) 0 (n + 1) (Nat.zero_le n) (by omega)
    (primed_initial s (n + 1)) (fun i st _ hi h ↦ h.turn hs (.inr (by omega))) fun st h ↦ ?_
  · rw [runs_recoverLfsr_eq (hlength ▸ hlt), hlength, hloop, Bool.and_false]
  · refine not_runs_masseyTurn ?_ (h.length.symm ▸ hn)
    rw [val_discrepancy_of_zeros fun j hj _ hjn ↦ .inr (hzeros _ (by omega)), hlast]
    exact Nat.one_ne_zero

end

/-! ## Continuing a stream -/

/-- Given the linear complexity of the stream, the predictor returns bits that continue it by a
shortest register that generates it. -/
structure ContinuesShortest (s : List ℕ) (predictCount : ℕ) : Prop where
  measured : (berlekampMassey s).runs = true
  predicted : (lfsrPredictor s (berlekampMassey s).val predictCount).runs = true
  continues : ∃ c, Recurs (s ++ (lfsrPredictor s (berlekampMassey s).val predictCount).val) c
    (berlekampMassey s).val

/-- The stream is the impulse response of a register of that length. -/
def ImpulseResponse (s : List ℕ) : Prop := ∃ c, Responds s c (berlekampMassey s).val

/-- The taps with which the predictor predicts are a recurrence of that length for the stream. -/
def Recovers (s : List ℕ) : Prop :=
  (recoverLfsr s (berlekampMassey s).val).val.l = (berlekampMassey s).val ∧
    Recurs s (taps (recoverLfsr s (berlekampMassey s).val).val.c) (berlekampMassey s).val

/-- Nothing is to be predicted; or a bit of the stream is set, and the stream is an impulse response
of its shortest register or has so few terms that no continuation can refute the length. -/
def Predictable (bits : List Bool) (predictCount : ℕ) : Prop :=
  predictCount = 0 ∨ true ∈ bits ∧ (ImpulseResponse (bits.map Bool.toNat) ∨
    bits.length + predictCount ≤ 2 * (berlekampMassey (bits.map Bool.toNat)).val)

theorem getD_lt_two_of_mem {x : List ℕ} (h : ∀ b ∈ x, b < 2) (k : ℕ) : x.getD k 0 < 2 := by
  rw [List.getD_eq_getElem?_getD]
  cases hk : x[k]? with
  | none => exact Nat.zero_lt_two
  | some b => exact h b (List.mem_of_getElem? hk)

theorem not_continuesShortest {s : List ℕ} {k : ℕ}
    (hbits : ∀ b ∈ s ++ (lfsrPredictor s (berlekampMassey s).val k).val, b < 2)
    (hne : s ++ (lfsrPredictor s (berlekampMassey s).val k).val ≠ [])
    (hlength : (s ++ (lfsrPredictor s (berlekampMassey s).val k).val).length ≤ 2 ^ 30)
    (h : (berlekampMassey s).val
      < (berlekampMassey (s ++ (lfsrPredictor s (berlekampMassey s).val k).val)).val) :
    ¬ContinuesShortest s k := fun hcontinues ↦
  Nat.not_le.mpr h
    ((berlekampMassey_spec (getD_lt_two_of_mem hbits) hne hlength).2.2 hcontinues.continues)

/-- The bits of port 40000 have linear complexity 8, and the predictor continues them by 64 bits
that no register of that length puts out. -/
theorem portBits_not_continued :
    ¬ContinuesShortest
      ([true, false, false, true, true, true, false, false,
        false, true, false, false, false, false, false, false].map Bool.toNat) 64 :=
  not_continuesShortest (by decide +kernel) (by decide +kernel) (by decide +kernel)
    (by decide +kernel)

/-! ## Streams that are continued -/

section

variable {bits : List Bool} {k : ℕ}

theorem exists_getD_of_mem (h : true ∈ bits) :
    ∃ i < (bits.map Bool.toNat).length, (bits.map Bool.toNat).getD i 0 ≠ 0 := by
  obtain ⟨i, hi, hbit⟩ := List.mem_iff_getElem.mp h
  have hin : i < (bits.map Bool.toNat).length := by rwa [List.length_map]
  refine ⟨i, hin, ?_⟩
  rw [List.getD_eq_getElem _ _ hin, List.getElem_map, hbit]
  exact Nat.one_ne_zero

theorem getD_map_toNat_eq_zero (h : true ∉ bits) (k : ℕ) : (bits.map Bool.toNat).getD k 0 = 0 := by
  rw [← Bool.toNat_false, List.getD_map]
  congr 1
  rw [List.getD_eq_getElem?_getD]
  cases hk : bits[k]? with
  | none => rfl
  | some b => exact Bool.eq_false_of_not_eq_true fun hb ↦ h (hb ▸ List.mem_of_getElem? hk)

theorem recoverLfsr_zeros {s : List ℕ} (hs : ∀ i, s.getD i 0 = 0) : (recoverLfsr s 0).val.l = 0 :=
  recoverLfsr_invariant (fun _ st ↦ st.l = 0) (fun _ h ↦ h.length) fun i st _ h ↦ by
    rwa [val_masseyTurn_of_unset h (hs i)]

/-- **A stream of zeros is continued by nothing.** -/
theorem ContinuesShortest.eq_zero (h : ContinuesShortest (bits.map Bool.toNat) k)
    (hzeros : true ∉ bits) : k = 0 := by
  have hs := getD_map_toNat_eq_zero hzeros
  have hruns := h.predicted
  rw [val_berlekampMassey_of_unset fun i _ ↦ hs i] at hruns
  have hl := recoverLfsr_zeros hs
  refine ((runs_lfsrPredictor_iff (by rw [hl]; exact Nat.zero_le _)).mp hruns).2.resolve_right ?_
  rw [hl]
  exact Nat.lt_irrefl 0

/-- **Enough to be continued**, for a stream shorter than `2 ^ 30` bits. -/
theorem continuesShortest_of_predictable (hne : bits ≠ []) (hlength : bits.length < 2 ^ 30)
    (h : Predictable bits k) : ContinuesShortest (bits.map Bool.toNat) k := by
  have hs := getD_map_toNat_lt_two bits
  have hmap : (bits.map Bool.toNat).length = bits.length := List.length_map _
  have hone : true ∈ bits → _ := exists_getD_of_mem
  rw [Predictable] at h
  generalize bits.map Bool.toNat = s at *
  rw [← hmap] at hlength
  obtain ⟨hsafe, hleast⟩ := berlekampMassey_spec hs
    (List.ne_nil_of_length_pos (hmap ▸ List.length_pos_iff.mpr hne)) hlength.le
  have hL : (berlekampMassey s).val ≤ s.length := hleast.2 ⟨_, recurs_length s fun _ ↦ false⟩
  have hrecover := runs_recoverLfsr hL hlength
  have hshort : s.length < 2 ^ 31 := by omega
  rcases h with rfl | ⟨hset, hcond⟩
  · refine ⟨hsafe.runs, ?_, ?_⟩
    · exact (runs_lfsrPredictor_iff (length_recoverLfsr_le hL)).mpr ⟨hrecover, .inl rfl⟩
    · obtain ⟨c, hc⟩ := hleast.1
      refine ⟨c, ?_⟩
      change Recurs (s ++ []) c _
      rwa [List.append_nil]
  · have hpos : 0 < (berlekampMassey s).val := by
      refine Nat.pos_of_ne_zero fun hzero ↦ ?_
      obtain ⟨i, hi, hbit⟩ := hone hset
      obtain ⟨c, hc⟩ := hleast.1
      rw [hzero] at hc
      exact not_recurs_zero hi hbit c hc
    have hreturns (hprimed : Primed s (berlekampMassey s).val s.length
        (recoverLfsr s (berlekampMassey s).val).val) :
        (lfsrPredictor s (berlekampMassey s).val k).runs = true :=
      (runs_lfsrPredictor_iff (hprimed.length.trans_le hL)).mpr
        ⟨hrecover, .inr (hprimed.length.symm ▸ hpos)⟩
    rcases hcond with himpulse | hfew
    · -- the taps recovered are a recurrence of the stream, and the predictions follow it
      obtain ⟨a, ha⟩ := himpulse
      have hprimed := recoverLfsr_primed hs hshort ha
      exact ⟨hsafe.runs, hreturns hprimed, _, (hprimed.predicts hs hL k).2.2
        ((exists_responds_iff hs hshort hL).mp ⟨a, ha⟩).2⟩
    · -- the length cannot have changed, and the predictions are some bits
      have hprimed := recoverLfsr_primed_of_le hs hshort (L := (berlekampMassey s).val) (by omega)
      obtain ⟨hcount, hbits, -⟩ := hprimed.predicts hs hL k
      exact ⟨hsafe.runs, hreturns hprimed,
        exists_recurs_append hbits hs hleast (by rw [hcount]; omega)⟩

end

/-! ## Streams that are too long -/

theorem val_berlekampMassey_lastOne_of_lt {n : ℕ} (hn : n + 1 < 2 ^ 31) :
    (berlekampMassey (List.replicate n 0 ++ [1])).val = n + 1 := by
  have hlength : (List.replicate n 0 ++ [1]).length = n + 1 := by simp
  have hlast := getD_lastOne n
  have hzeros := getD_lastOne_of_lt (n := n)
  have hs : ∀ k, (List.replicate n 0 ++ [1]).getD k 0 < 2 := fun k ↦
    getD_concat_lt_two (fun k ↦ by simp) (by decide) k
  generalize List.replicate n 0 ++ [1] = s at *
  obtain ⟨-, C, hC⟩ := berlekampMassey_shortest_of_narrow hs (n := n + 1)
    (by rw [narrow_of_lt (hlength ▸ hn), hlength]) (Nat.succ_pos n)
  rw [← hlength] at hC ⊢
  refine Nat.le_antisymm hC.length_le ?_
  by_contra hlt
  rw [Nat.not_le, hlength] at hlt
  -- a shorter recurrence makes the last term a zero
  obtain ⟨c, hc⟩ := (exists_recurs_iff hs).mpr ⟨C, hC.toGenerates⟩
  have hterm := hc n (Nat.le_of_lt_succ hlt) (by omega)
  rw [hlast, xorSum_of_zeros fun j hj hjl ↦ ?_] at hterm
  · exact Nat.one_ne_zero hterm
  · rw [hzeros _ (by omega), Nat.and_zero]

/-- **When the predictions continue the stream.** For every length below `2 ^ 30`, and for no
other, they do whenever the stream and the number of bits are predictable. A stream without a set
bit is continued by nothing, so that this much is needed; and being an impulse response is exactly
that the predictor recovers a recurrence of the stream at all. -/
theorem lfsrPredictor_continues (n : ℕ) (h : n ≠ 0) :
    ((∀ bits : List Bool, bits.length = n → ∀ k, Predictable bits k →
        ContinuesShortest (bits.map Bool.toNat) k) ↔ n < 2 ^ 30) ∧
      ∀ bits : List Bool, bits.length = n →
        (∀ k, ContinuesShortest (bits.map Bool.toNat) k → k = 0 ∨ true ∈ bits) ∧
          (n < 2 ^ 30 →
            (ImpulseResponse (bits.map Bool.toNat) ↔ Recovers (bits.map Bool.toNat))) := by
  refine ⟨⟨fun hall ↦ ?_, ?_⟩, ?_⟩
  · by_contra hlong
    rw [Nat.not_lt] at hlong
    obtain ⟨n, rfl⟩ := Nat.exists_eq_succ_of_ne_zero h
    have hstream := hall (List.replicate n false ++ [true]) (by simp) 0 (.inl rfl)
    rw [List.map_append, List.map_replicate, List.map_singleton, Bool.toNat_false,
      Bool.toNat_true] at hstream
    rcases Nat.lt_or_ge (n + 1) (2 ^ 31) with hlt | hge
    · -- the predictor doubles the length
      have hruns := hstream.predicted
      rw [val_berlekampMassey_lastOne_of_lt hlt, lfsrPredictor, runs_bind,
        not_runs_recoverLfsr_lastOne hlong hlt, Bool.false_and] at hruns
      exact Bool.false_ne_true hruns
    · -- the last bit is never looked at
      obtain ⟨c, hc⟩ := hstream.continues
      rw [val_berlekampMassey_lastOne hge] at hc
      refine not_recurs_zero (i := n) ?_ ?_ c hc
      · rw [List.length_append, List.length_append, List.length_replicate, List.length_singleton]
        omega
      · rw [List.getD_append _ _ _ _ (by simp), getD_lastOne]
        exact Nat.one_ne_zero
  · rintro hlt bits rfl k hk
    exact continuesShortest_of_predictable (List.ne_nil_of_length_pos (Nat.pos_of_ne_zero h)) hlt hk
  · rintro bits rfl
    refine ⟨fun k hk ↦ ?_, fun hlt ↦ ?_⟩
    · by_cases hset : true ∈ bits
      · exact .inr hset
      · exact .inl (hk.eq_zero hset)
    · have hs := getD_map_toNat_lt_two bits
      have hlength : (bits.map Bool.toNat).length = bits.length := List.length_map _
      have hpos := Nat.pos_of_ne_zero h
      rw [← hlength] at hlt hpos
      have hleast := (berlekampMassey_spec hs (List.ne_nil_of_length_pos hpos) hlt.le).2
      exact exists_responds_iff hs (by omega) (hleast.2 ⟨_, recurs_length _ fun _ ↦ false⟩)

/-- The stream 1, 0, 1, 1, 0, 1, 1, 0 is the impulse response of a register of length two. -/
theorem lfsrPredictor_continues_period_three :
    ContinuesShortest
      ([true, false, true, true, false, true, true, false].map Bool.toNat) 64 :=
  (lfsrPredictor_continues 8 (by decide)).1.mpr (by decide) _ rfl 64
    (.inr ⟨by decide, .inl ⟨fun _ ↦ true, by unfold Responds; decide +kernel⟩⟩)

end NatGhost
