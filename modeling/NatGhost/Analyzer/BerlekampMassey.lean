import NatGhost.Foundation.BitSequence
import NatGhost.Foundation.Checked

/-!
# Berlekamp–Massey

`berlekamp_massey` computes the linear complexity of a bit stream in place: the coefficients of the
current recurrence are in `c`, those from before the last change of length in `b`, both cut off at
the length of the stream. The turn of its main loop is shared with `lfsr_predictor`, which differs
in where it starts and in how far the inner loop runs.

The vectors hold the first `n` coefficients of the two series of a `MasseyState`; no later
coefficient ever takes part, since at term `i` the recurrence looks back at most `i` terms. The
invariant of the main loop is that correspondence together with the state (`LfsrInv`), and
`masseyTurn_spec` is the step.

## Sizes

All numbers are of type `int`, the size of the stream as well. So of a stream of `2 ^ 31` bits or
more a part is looked at, or none, or the vectors cannot be made; and of a shorter one the length
can reach `2 ^ 30`, and twice the length is no `int` then. What the function computes is right for
the streams of at most `2 ^ 30` bits, and for no greater length is it right for all streams of that
length (`berlekampMassey_isLeast`).
-/

namespace NatGhost

open Checked PowerSeries

/-! ## The code -/

/-- `v[i] ^= 1`. -/
def flipAt (v : List ℕ) (i : ℤ) : Checked (List ℕ) := do
  let x ← readAt v i
  writeAt v i (x ^^^ 1)

/-- The variables of the main loop. -/
structure Lfsr where
  c : List ℕ
  b : List ℕ
  l : ℕ
  m : ℤ

/-- `for (int j = 1; j <= l; ++j) d ^= c[j] * v[i - j];` -/
def xorTaps (c v : List ℕ) (i l d : ℕ) : Checked ℕ :=
  (List.range' 1 l).foldlM (fun d (j : ℕ) ↦ do
    pure (d ^^^ (← readAt c j) * (← readAt v ((i : ℤ) - j)))) d

/-- `int d = s[i];` and the first inner loop. -/
def discrepancy (s c : List ℕ) (l i : ℕ) : Checked ℕ := do
  xorTaps c s i l (← readAt s i)

/-- `if (b[j]) c[j + i - m] ^= 1;` -/
def flipShifted (b : List ℕ) (i : ℕ) (m : ℤ) (c : List ℕ) (j : ℕ) : Checked (List ℕ) := do
  if (← readAt b j) ≠ 0 then
    let sum ← evalInt (j + i)
    let index ← evalInt (sum - m)
    flipAt c index
  else pure c

/-- The second inner loop, `for (int j = 0; j < count; ++j)`. -/
def addShifted (b : List ℕ) (i : ℕ) (m : ℤ) (count : ℕ) (c : List ℕ) : Checked (List ℕ) :=
  (List.range' 0 count).foldlM (flipShifted b i m) c

/-- One turn of the main loop, with the bound of its second inner loop. -/
def masseyTurn (s : List ℕ) (count i : ℕ) (st : Lfsr) : Checked Lfsr := do
  let d ← discrepancy s st.c st.l i
  if d = 0 then pure st
  else do
    let t := st.c
    let c ← addShifted st.b i st.m count st.c
    let twice ← evalInt (2 * st.l)
    -- `i + 1` is at most the size, so `i + 1 - l` is an `int`
    if twice ≤ i then pure { c := c, b := t, l := i + 1 - st.l, m := i }
    else pure { st with c := c }

/-- `berlekamp_massey`. -/
def berlekampMassey (s : List ℕ) : Checked ℕ := do
  let n := narrow s.length
  let c ← newVector n
  let b ← newVector n
  let b ← writeAt b 0 1
  let c ← writeAt c 0 1
  let st ← (List.range' 0 n.toNat).foldlM
    (fun st (i : ℕ) ↦ masseyTurn s (n - i + st.m).toNat i st) { c := c, b := b, l := 0, m := -1 }
  pure st.l

/-! ## The parts of a turn -/

section

variable {n : ℕ} {s b c : List ℕ}

theorem getD_flipAt (v : List ℕ) (i k : ℕ) :
    (flipAt v i).val.getD k 0 = if k = i ∧ k < v.length then v.getD k 0 ^^^ 1 else v.getD k 0 := by
  rw [flipAt, val_bind, getD_writeAt, val_readAt_natCast]
  split_ifs with h
  · rw [h.1]
  · rfl

theorem length_flipAt (v : List ℕ) (i : ℤ) : (flipAt v i).val.length = v.length :=
  length_writeAt v i _

theorem ok_flipAt {v : List ℕ} {i : ℤ} (h₀ : 0 ≤ i) (h : i < v.length) :
    (flipAt v i).ok = true := by
  rw [flipAt, ok_bind, ok_readAt h₀ h, ok_writeAt h₀ h, Bool.and_self]

theorem val_xorTaps (c v : List ℕ) (i l d : ℕ) :
    (xorTaps c v i l d).val
      = xorSum (fun j ↦ c.getD j 0 * (readAt v ((i : ℤ) - j)).val) l d := by
  have hloop := val_foldlM_range'
    (fun d (j : ℕ) ↦ do pure (d ^^^ (← readAt c j) * (← readAt v ((i : ℤ) - j))))
    (fun k x ↦ x = xorSum (fun j ↦ c.getD j 0 * (readAt v ((i : ℤ) - j)).val) (k - 1) d)
    (a := d) 1 l rfl fun j x hj _ hx ↦ ?_
  · rw [xorTaps, hloop, Nat.add_sub_cancel_left]
  · obtain ⟨k, rfl⟩ := Nat.exists_eq_add_of_le' hj
    rw [Nat.add_sub_cancel] at hx ⊢
    rw [xorSum_succ, ← hx]
    rfl

theorem val_discrepancy (s c : List ℕ) (l i : ℕ) :
    (discrepancy s c l i).val
      = xorSum (fun j ↦ c.getD j 0 * (readAt s ((i : ℤ) - j)).val) l (s.getD i 0) := by
  rw [discrepancy, val_bind, val_readAt_natCast, val_xorTaps]

theorem val_discrepancy_of_zeros {l i : ℕ}
    (h : ∀ j, 1 ≤ j → j ≤ l → j ≤ i → c.getD j 0 = 0 ∨ s.getD (i - j) 0 = 0) :
    (discrepancy s c l i).val = s.getD i 0 := by
  rw [val_discrepancy, xorSum_of_zeros fun j hj hjl ↦ ?_]
  rcases Nat.lt_or_ge i j with hlt | hle
  · rw [val_readAt_of_neg s (by omega), Nat.mul_zero]
  · have hindex : (i : ℤ) - j = ((i - j : ℕ) : ℤ) := by omega
    rw [hindex, val_readAt_natCast]
    exact Nat.mul_eq_zero.mpr (h j hj hjl hle)

theorem ok_discrepancy {l i : ℕ} (hc : l < c.length) (hl : l ≤ i) (hi : i < s.length) :
    (discrepancy s c l i).ok = true := by
  have hloop := foldlM_range'
    (fun d (j : ℕ) ↦ do pure (d ^^^ (← readAt c j) * (← readAt s ((i : ℤ) - j))))
    (fun _ _ ↦ True) (a := s.getD i 0) 1 l trivial fun j d hj hjl _ ↦ ?_
  · rw [discrepancy, ok_bind, ok_readAt (by omega) (by omega), val_readAt_natCast]
    exact hloop.1
  · refine ⟨?_, trivial⟩
    rw [ok_bind, ok_bind, ok_pure, ok_readAt (by omega) (by omega), ok_readAt (by omega) (by omega)]
    rfl

theorem runs_xorTaps (c v : List ℕ) (i l d : ℕ) : (xorTaps c v i l d).runs = true :=
  runs_foldlM_range' _ (fun _ _ ↦ True) 1 l trivial fun _ _ _ _ _ ↦ ⟨rfl, trivial⟩

theorem runs_discrepancy (s c : List ℕ) (l i : ℕ) : (discrepancy s c l i).runs = true :=
  runs_xorTaps _ _ _ _ _

theorem runs_flipAt (v : List ℕ) (i : ℤ) : (flipAt v i).runs = true := rfl

theorem val_flipShifted {i shift : ℕ} {m : ℤ} (hshift : (shift : ℤ) = i - m) (c : List ℕ)
    (j : ℕ) :
    (flipShifted b i m c j).val
      = if b.getD j 0 ≠ 0 then (flipAt c ((shift + j : ℕ) : ℤ)).val else c := by
  have hindex : (j : ℤ) + i - m = ((shift + j : ℕ) : ℤ) := by omega
  rw [flipShifted, val_bind, val_readAt_natCast]
  split_ifs
  · rw [val_bind, val_bind, val_evalInt, val_evalInt, hindex]
  · rfl

theorem addShifted_spec (b c : List ℕ) {i shift : ℕ} {m : ℤ} (hshift : (shift : ℤ) = i - m)
    (count : ℕ) :
    (addShifted b i m count c).val.length = c.length ∧
      ∀ k, (addShifted b i m count c).val.getD k 0
        = if shift ≤ k ∧ k < shift + count ∧ k < c.length ∧ b.getD (k - shift) 0 ≠ 0 then
            c.getD k 0 ^^^ 1 else c.getD k 0 := by
  have hloop := val_foldlM_range' (flipShifted b i m)
    (fun j v ↦ v.length = c.length ∧ ∀ k, v.getD k 0
      = if shift ≤ k ∧ k < shift + j ∧ k < c.length ∧ b.getD (k - shift) 0 ≠ 0 then
          c.getD k 0 ^^^ 1 else c.getD k 0)
    (a := c) 0 count ⟨rfl, fun k ↦ by rw [if_neg (by omega)]⟩ fun j v _ _ hv ↦ ?_
  · rw [Nat.zero_add] at hloop
    exact hloop
  · obtain ⟨hlength, hcells⟩ := hv
    rw [val_flipShifted hshift]
    by_cases hb : b.getD j 0 ≠ 0
    · rw [if_pos hb]
      refine ⟨(length_flipAt v _).trans hlength, fun k ↦ ?_⟩
      rw [getD_flipAt, hcells, hlength]
      by_cases hk : k = shift + j
      · -- the cell of this turn has not been touched before
        subst hk
        have hfresh : ¬(shift ≤ shift + j ∧ shift + j < shift + j ∧ shift + j < c.length ∧
            b.getD (shift + j - shift) 0 ≠ 0) := fun h ↦ absurd h.2.1 (Nat.lt_irrefl _)
        rw [if_neg hfresh, Nat.add_sub_cancel_left]
        congr 1
        rw [eq_iff_iff]
        exact ⟨fun h ↦ ⟨by omega, by omega, h.2, hb⟩, fun h ↦ ⟨rfl, h.2.2.1⟩⟩
      · rw [if_neg fun h ↦ hk h.1]
        congr 1
        rw [eq_iff_iff]
        constructor
        · rintro ⟨hle, hlt, hrest⟩
          exact ⟨hle, by omega, hrest⟩
        · rintro ⟨hle, hlt, hrest⟩
          exact ⟨hle, by omega, hrest⟩
    · rw [if_neg hb]
      refine ⟨hlength, fun k ↦ ?_⟩
      rw [hcells]
      congr 1
      rw [eq_iff_iff]
      constructor
      · rintro ⟨hle, hlt, hrest⟩
        exact ⟨hle, by omega, hrest⟩
      · rintro ⟨hle, hlt, hin, hne⟩
        refine ⟨hle, ?_, hin, hne⟩
        by_contra hge
        obtain rfl : k = shift + j := by omega
        rw [Nat.add_sub_cancel_left] at hne
        exact hb hne

theorem ok_addShifted {i shift count : ℕ} {m : ℤ} (hshift : (shift : ℤ) = i - m)
    (hb : count ≤ b.length) (hc : shift + count ≤ c.length) :
    (addShifted b i m count c).ok = true := by
  have hloop := foldlM_range' (flipShifted b i m) (fun _ v ↦ v.length = c.length) (a := c) 0 count
    rfl fun j v _ hj hv ↦ ?_
  · exact hloop.1
  · rw [val_flipShifted hshift, flipShifted, ok_bind, val_readAt_natCast,
      ok_readAt (by omega) (by omega), Bool.true_and]
    split_ifs
    · rw [ok_bind, ok_bind, ok_evalInt, ok_evalInt, val_evalInt, val_evalInt, Bool.true_and,
        Bool.true_and]
      exact ⟨ok_flipAt (by omega) (by omega), (length_flipAt v _).trans hv⟩
    · exact ⟨rfl, hv⟩

theorem runs_addShifted {i count : ℕ} {m : ℤ} (hm : -1 ≤ m) (hmi : m ≤ i)
    (hsize : count + i < 2 ^ 31) : (addShifted b i m count c).runs = true := by
  refine runs_foldlM_range' (flipShifted b i m) (fun _ _ ↦ True) 0 count trivial
    fun j v _ hj _ ↦ ⟨?_, trivial⟩
  rw [flipShifted, runs_bind, runs_readAt, Bool.true_and]
  split_ifs
  · rw [runs_bind, runs_bind, runs_flipAt, val_evalInt, (Safe.evalInt (by omega) (by omega)).runs,
      (Safe.evalInt (by omega) (by omega)).runs]
    rfl
  · rfl

end

/-! ## A turn -/

section Turn

variable {s : List ℕ} {count i : ℕ} {st : Lfsr}

theorem val_masseyTurn_of_zero (h : (discrepancy s st.c st.l i).val = 0) :
    (masseyTurn s count i st).val = st := by
  rw [masseyTurn, val_bind, if_pos h, val_pure]

theorem val_masseyTurn_of_short (h : (discrepancy s st.c st.l i).val ≠ 0) (hl : 2 * st.l ≤ i) :
    (masseyTurn s count i st).val
      = { c := (addShifted st.b i st.m count st.c).val, b := st.c, l := i + 1 - st.l
          m := i } := by
  rw [masseyTurn, val_bind, if_neg h, val_bind, val_bind, val_evalInt,
    if_pos (by exact_mod_cast hl), val_pure]

theorem val_masseyTurn_of_long (h : (discrepancy s st.c st.l i).val ≠ 0) (hl : ¬2 * st.l ≤ i) :
    (masseyTurn s count i st).val
      = { st with c := (addShifted st.b i st.m count st.c).val } := by
  rw [masseyTurn, val_bind, if_neg h, val_bind, val_bind, val_evalInt,
    if_neg (by exact_mod_cast hl), val_pure]

theorem val_masseyTurn_of_unset (hl : st.l = 0) (hi : s.getD i 0 = 0) :
    (masseyTurn s count i st).val = st := by
  refine val_masseyTurn_of_zero ?_
  rw [val_discrepancy, hl]
  exact hi

theorem ok_masseyTurn (hd : (discrepancy s st.c st.l i).ok = true)
    (hadd : (addShifted st.b i st.m count st.c).ok = true) :
    (masseyTurn s count i st).ok = true := by
  rw [masseyTurn, ok_bind, hd, Bool.true_and]
  by_cases hzero : (discrepancy s st.c st.l i).val = 0
  · rw [if_pos hzero, ok_pure]
  · rw [if_neg hzero, ok_bind, hadd, ok_bind, ok_evalInt, Bool.true_and, Bool.true_and]
    split_ifs
    · rfl
    · rfl

theorem runs_masseyTurn (hm : -1 ≤ st.m) (hmi : st.m ≤ i) (hsize : count + i < 2 ^ 31)
    (hl : st.l < 2 ^ 30) : (masseyTurn s count i st).runs = true := by
  rw [masseyTurn, runs_bind, runs_discrepancy, Bool.true_and]
  split_ifs
  · rfl
  · rw [runs_bind, runs_addShifted hm hmi hsize, runs_bind,
      (Safe.evalInt (by omega) (by omega)).runs, Bool.true_and, Bool.true_and]
    split_ifs
    · rfl
    · rfl

theorem not_runs_masseyTurn (h : (discrepancy s st.c st.l i).val ≠ 0) (hl : 2 ^ 30 ≤ st.l) :
    (masseyTurn s count i st).runs = false := by
  rw [masseyTurn, runs_bind, if_neg h, runs_bind, runs_bind, not_runs_evalInt (by omega),
    Bool.false_and, Bool.and_false, Bool.and_false]

end Turn

/-! ## Vectors and series -/

/-- The vector holds the first `n` coefficients of the series. -/
structure Represents (n : ℕ) (v : List ℕ) (P : (ZMod 2)⟦X⟧) : Prop where
  length : v.length = n
  bit : ∀ k, v.getD k 0 < 2
  coeff : ∀ k < n, (v.getD k 0 : ZMod 2) = PowerSeries.coeff k P

section

variable {n count shift i l : ℕ} {s b c : List ℕ} {B C : (ZMod 2)⟦X⟧}

theorem getD_initial (n k : ℕ) :
    (writeAt (List.replicate n 0) 0 1).val.getD k 0 = if k = 0 ∧ k < n then 1 else 0 := by
  have hzeros : (List.replicate n 0).getD k 0 = 0 := by
    rw [List.getD_eq_getElem?_getD, List.getElem?_getD_replicate_default_eq]
  have h := getD_writeAt (List.replicate n 0) 0 k 1
  rw [List.length_replicate, hzeros] at h
  exact h

theorem represents_one (n : ℕ) :
    Represents n (writeAt (List.replicate n 0) 0 1).val 1 := by
  refine ⟨by rw [length_writeAt, List.length_replicate], fun k ↦ ?_, fun k hk ↦ ?_⟩
  · rw [getD_initial]
    split_ifs
    · decide
    · decide
  · rw [getD_initial, coeff_one]
    by_cases hzero : k = 0
    · rw [if_pos ⟨hzero, hk⟩, if_pos hzero, Nat.cast_one]
    · rw [if_neg fun h ↦ hzero h.1, if_neg hzero, Nat.cast_zero]

theorem Represents.addShifted (hc : Represents n c C) (hb : Represents n b B) {m : ℤ}
    (hshift : (shift : ℤ) = i - m) (hcount : shift + count = n) :
    Represents n (addShifted b i m count c).val (C - (1 : ZMod 2) • (X ^ shift * B)) := by
  obtain ⟨hlength, hcells⟩ := addShifted_spec b c hshift count
  refine ⟨hlength.trans hc.length, fun k ↦ ?_, fun k hk ↦ ?_⟩
  · rw [hcells]
    split_ifs
    · exact xor_lt_two (hc.bit k) (by decide)
    · exact hc.bit k
  · rw [hcells, map_sub, coeff_smul, one_smul, coeff_X_pow_mul', CharTwo.sub_eq_add,
      ← hc.coeff k hk]
    by_cases hle : shift ≤ k
    · rw [if_pos hle, ← hb.coeff (k - shift) (by omega)]
      by_cases hbit : b.getD (k - shift) 0 = 0
      · rw [if_neg fun h ↦ h.2.2.2 hbit, hbit, Nat.cast_zero, add_zero]
      · have hone : b.getD (k - shift) 0 = 1 := by
          have := hb.bit (k - shift)
          omega
        rw [if_pos ⟨hle, by omega, by rw [hc.length]; exact hk, hbit⟩, natCast_xor, hone]
    · rw [if_neg fun h ↦ hle h.1, if_neg hle, add_zero]

theorem discrepancy_lt_two (hs : ∀ k, s.getD k 0 < 2) (hc : ∀ k, c.getD k 0 < 2) (l i : ℕ) :
    (discrepancy s c l i).val < 2 := by
  rw [val_discrepancy]
  refine xorSum_lt_two (fun j ↦ mul_lt_two (hc j) ?_) (hs i) l
  rw [readAt]
  split_ifs
  · exact hs _
  · exact Nat.zero_lt_two

/-- **The discrepancy is a coefficient** of the product of recurrence and stream. -/
theorem natCast_discrepancy (hc : Represents n c C) (hzero : coeff 0 C = 1)
    (hsupport : ∀ j, l < j → coeff j C = 0) (hl : l ≤ i) (hi : i < n) :
    ((discrepancy s c l i).val : ZMod 2) = coeff i (C * series s) := by
  rw [val_discrepancy, natCast_xorSum, coeff_mul_series hzero hsupport hl]
  congr 1
  refine Finset.sum_congr rfl fun j hj ↦ ?_
  rw [Finset.mem_range] at hj
  have hindex : ((i : ℤ) - (j + 1 : ℕ)) = ((i - (j + 1) : ℕ) : ℤ) := by omega
  rw [Nat.cast_mul, hindex, val_readAt_natCast, hc.coeff (j + 1) (by omega)]

end

/-! ## The main loop -/

/-- What the loop of `berlekamp_massey` keeps if `n` is the size it sees: before term `i` its
variables represent a state of Massey's algorithm for the first `i` terms. -/
def LfsrInv (s : List ℕ) (n i : ℕ) (st : Lfsr) : Prop :=
  ∃ C B, Represents n st.c C ∧ Represents n st.b B ∧ MasseyState (series s) C B st.l st.m i

section

variable {s : List ℕ} {n i : ℕ} {st : Lfsr}

/-- **One turn of the main loop.** -/
theorem masseyTurn_spec (hs : ∀ k, s.getD k 0 < 2) (hn : n ≤ s.length) (hi : i < n)
    (h : LfsrInv s n i st) :
    (masseyTurn s ((n : ℤ) - i + st.m).toNat i st).ok = true ∧
      LfsrInv s n (i + 1) (masseyTurn s ((n : ℤ) - i + st.m).toNat i st).val := by
  obtain ⟨C, B, hc, hb, hstate⟩ := h
  have hlength := hstate.length_le
  have hlt := hstate.change_lt
  have hchange := hstate.length_le_change
  -- shifted by `i - m`, exactly `count` coefficients fit
  have hshift : ((i - st.m).toNat : ℤ) = i - st.m := by omega
  have hcount : (i - st.m).toNat + ((n : ℤ) - i + st.m).toNat = n := by omega
  have hd := natCast_discrepancy (s := s) hc hstate.shortest.constant hstate.shortest.support
    hlength hi
  have hbit := discrepancy_lt_two hs hc.bit st.l i
  refine ⟨ok_masseyTurn (ok_discrepancy (by rw [hc.length]; omega) hlength (by omega)) ?_, ?_⟩
  · exact ok_addShifted hshift (by rw [hb.length]; omega) (by rw [hc.length]; omega)
  · by_cases hzero : (discrepancy s st.c st.l i).val = 0
    · rw [val_masseyTurn_of_zero hzero]
      rw [hzero, Nat.cast_zero] at hd
      exact ⟨C, B, hc, hb, hstate.keep hd.symm⟩
    · -- both the failure here and the earlier one are 1
      have hN : coeff i (C * series s) ≠ 0 := by
        rw [← hd]
        exact mt (natCast_eq_zero_of_lt_two hbit).mp hzero
      have hu : ∀ t : ℕ, t = st.m →
          coeff i (C * series s) = 1 * coeff t (B * series s) := fun t ht ↦ by
        rw [zmod_two_eq_one hN, zmod_two_eq_one (hstate.fail t ht), one_mul]
      have hc' := hc.addShifted hb hshift hcount
      by_cases hl : 2 * st.l ≤ i
      · rw [val_masseyTurn_of_short hzero hl]
        exact ⟨_, C, hc', hc, hstate.new_length hshift hN hu hl⟩
      · rw [val_masseyTurn_of_long hzero hl]
        exact ⟨_, B, hc', hb, hstate.same_length hshift hN hu (by omega)⟩

theorem runs_masseyTurn_of_inv (hn : n ≤ 2 ^ 30) (hi : i < n) (h : LfsrInv s n i st) :
    (masseyTurn s ((n : ℤ) - i + st.m).toNat i st).runs = true := by
  obtain ⟨C, B, -, -, hstate⟩ := h
  have hlength := hstate.length_le
  have hlt := hstate.change_lt
  have hchange := hstate.length_le_change
  exact runs_masseyTurn (by omega) (by omega) (by omega) (by omega)

theorem lfsrInv_initial (s : List ℕ) (n : ℕ) :
    LfsrInv s n 0 ⟨(writeAt (List.replicate n 0) 0 1).val,
      (writeAt (List.replicate n 0) 0 1).val, 0, -1⟩ :=
  ⟨1, 1, represents_one n, represents_one n, MasseyState.init _⟩

theorem berlekampMassey_shortest_of_narrow (hs : ∀ k, s.getD k 0 < 2) (hn : narrow s.length = n)
    (hpos : 0 < n) :
    (berlekampMassey s).ok = true ∧ ∃ C, Shortest C (series s) (berlekampMassey s).val n := by
  have hle : n ≤ s.length := by
    have := narrow_le s.length
    omega
  have hinit : (writeAt (List.replicate n 0) 0 1).ok = true :=
    ok_writeAt le_rfl (by rw [List.length_replicate]; omega) 1
  obtain ⟨hok, C, B, -, -, hstate⟩ := foldlM_range'
    (fun st (i : ℕ) ↦ masseyTurn s ((n : ℤ) - i + st.m).toNat i st) (LfsrInv s n)
    0 n (lfsrInv_initial s n) fun i st _ hi h ↦ masseyTurn_spec hs hle (by omega) h
  rw [Nat.zero_add] at hstate
  rw [berlekampMassey, hn]
  refine ⟨?_, C, hstate.shortest⟩
  simp only [ok_bind, ok_newVector, val_newVector_natCast, Int.toNat_natCast, hinit, hok, ok_pure,
    Bool.and_self]

theorem runs_berlekampMassey (hs : ∀ k, s.getD k 0 < 2) (hlength : s.length ≤ 2 ^ 30) :
    (berlekampMassey s).runs = true := by
  have hn : narrow s.length = s.length := narrow_of_lt (by omega)
  have hloop := runs_foldlM_range'
    (fun st (i : ℕ) ↦ masseyTurn s ((s.length : ℤ) - i + st.m).toNat i st) (LfsrInv s s.length)
    0 s.length (lfsrInv_initial s s.length) fun i st _ hi h ↦
      ⟨runs_masseyTurn_of_inv hlength (by omega) h, (masseyTurn_spec hs le_rfl (by omega) h).2⟩
  rw [berlekampMassey, hn]
  simp only [runs_bind, runs_newVector_natCast, val_newVector_natCast, Int.toNat_natCast,
    runs_writeAt, hloop, runs_pure, Bool.and_self]

/-- **A run of `berlekamp_massey`** within `2 ^ 30` bits. -/
theorem berlekampMassey_shortest (hs : ∀ k, s.getD k 0 < 2) (hne : s ≠ [])
    (hlength : s.length ≤ 2 ^ 30) :
    (berlekampMassey s).Safe ∧
      ∃ C, Shortest C (series s) (berlekampMassey s).val s.length := by
  have h := berlekampMassey_shortest_of_narrow hs (narrow_of_lt (by omega))
    (List.length_pos_iff.mpr hne)
  exact ⟨⟨h.1, runs_berlekampMassey hs hlength⟩, h.2⟩

theorem berlekampMassey_spec (hs : ∀ k, s.getD k 0 < 2) (hne : s ≠ [])
    (hlength : s.length ≤ 2 ^ 30) :
    (berlekampMassey s).Safe ∧ IsLeast {L | ∃ c, Recurs s c L} (berlekampMassey s).val := by
  obtain ⟨hsafe, C, hshortest⟩ := berlekampMassey_shortest hs hne hlength
  refine ⟨hsafe, (exists_recurs_iff hs).mpr ⟨C, hshortest.toGenerates⟩, fun L hL ↦ ?_⟩
  obtain ⟨C', hC'⟩ := (exists_recurs_iff hs).mp hL
  exact hshortest.least C' L hC'

end

/-! ## Linear complexity -/

theorem getD_map_toNat_lt_two (bits : List Bool) (k : ℕ) : (bits.map Bool.toNat).getD k 0 < 2 := by
  rw [← Bool.toNat_false, List.getD_map]
  exact toNat_lt_two _

/-- What is asked of `berlekamp_massey`: it returns, indexes its vectors only inside their bounds,
and its result is the linear complexity of the stream, the least length of a recurrence that the
stream satisfies. -/
structure ComputesComplexity (s : List ℕ) : Prop where
  returns : (berlekampMassey s).runs = true
  inBounds : (berlekampMassey s).ok = true
  isLeast : IsLeast {L | ∃ c, Recurs s c L} (berlekampMassey s).val

theorem computesComplexity_of_le {bits : List Bool} (h : bits ≠ [])
    (hlength : bits.length ≤ 2 ^ 30) : ComputesComplexity (bits.map Bool.toNat) := by
  obtain ⟨hsafe, hleast⟩ := berlekampMassey_spec (getD_map_toNat_lt_two bits)
    (List.map_eq_nil_iff.not.mpr h) (by rwa [List.length_map])
  exact ⟨hsafe.runs, hsafe.ok, hleast⟩

/-! ## Streams that are too long -/

section

variable {a : ℕ} {rest : List ℕ}

theorem getD_twoOnes (a : ℕ) (rest : List ℕ) :
    (∀ i < a, (List.replicate a 0 ++ 1 :: 1 :: rest).getD i 0 = 0) ∧
      (List.replicate a 0 ++ 1 :: 1 :: rest).getD a 0 = 1 ∧
      (List.replicate a 0 ++ 1 :: 1 :: rest).getD (a + 1) 0 = 1 := by
  refine ⟨fun i hi ↦ ?_, ?_, ?_⟩
  · rw [List.getD_append _ _ _ _ (by rwa [List.length_replicate]), List.getD_replicate _ hi]
  · rw [List.getD_append_right _ _ _ _ (by rw [List.length_replicate]), List.length_replicate,
      Nat.sub_self]
    rfl
  · rw [List.getD_append_right _ _ _ _ (by rw [List.length_replicate]; omega),
      List.length_replicate, Nat.add_sub_cancel_left]
    rfl

/-- **Zeros and two ones.** The first one makes the length `a + 1`, the second is not predicted, and
the length is doubled. -/
theorem not_runs_berlekampMassey (ha : 2 ^ 30 ≤ a + 1)
    (hlength : (List.replicate a 0 ++ 1 :: 1 :: rest).length < 2 ^ 31) :
    (berlekampMassey (List.replicate a 0 ++ 1 :: 1 :: rest)).runs = false := by
  obtain ⟨hzeros, hfirst, hsecond⟩ := getD_twoOnes a rest
  have hsize : a + 1 < (List.replicate a 0 ++ 1 :: 1 :: rest).length := by
    rw [List.length_append, List.length_replicate, List.length_cons, List.length_cons]
    omega
  generalize List.replicate a 0 ++ 1 :: 1 :: rest = s at *
  have hn : narrow s.length = s.length := narrow_of_lt hlength
  have hloop := not_runs_foldlM_range'
    (fun st (i : ℕ) ↦ masseyTurn s ((s.length : ℤ) - i + st.m).toNat i st)
    (fun i st ↦ (i ≤ a → st = ⟨(writeAt (List.replicate s.length 0) 0 1).val,
        (writeAt (List.replicate s.length 0) 0 1).val, 0, -1⟩) ∧
      (i = a + 1 → st.l = a + 1 ∧ st.c.getD 1 0 = 0))
    0 s.length (k := a + 1) (Nat.zero_le _) (by omega)
    ⟨fun _ ↦ rfl, fun h ↦ absurd h (Nat.succ_ne_zero a).symm⟩ (fun i st _ hi hst ↦ ?_)
    fun st hst ↦ ?_
  · rw [berlekampMassey, hn]
    simp only [runs_bind, runs_newVector_natCast, val_newVector_natCast, Int.toNat_natCast,
      runs_writeAt, hloop, Bool.and_false, Bool.false_and]
  · obtain rfl := hst.1 (Nat.le_of_lt_succ hi)
    rcases Nat.lt_succ_iff_lt_or_eq.mp hi with hlt | rfl
    · rw [val_masseyTurn_of_unset rfl (hzeros i hlt)]
      exact ⟨fun _ ↦ rfl, fun h ↦ by omega⟩
    · -- the first one
      refine ⟨fun h ↦ absurd h (Nat.not_succ_le_self i), fun _ ↦ ?_⟩
      rw [val_masseyTurn_of_short _ (Nat.zero_le i)]
      · refine ⟨rfl, ?_⟩
        rw [(addShifted_spec _ _ (show ((i + 1 : ℕ) : ℤ) = i - -1 by omega) _).2 1,
          if_neg (by omega), getD_initial, if_neg fun h ↦ absurd h.1 Nat.one_ne_zero]
      · rw [val_discrepancy]
        exact hfirst ▸ Nat.one_ne_zero
  · obtain ⟨hl, hc⟩ := hst.2 rfl
    refine not_runs_masseyTurn ?_ (hl ▸ ha)
    -- the taps meet the zeros, but for the first tap, which is not set
    rw [val_discrepancy_of_zeros fun j hj _ _ ↦ ?_, hsecond]
    · exact Nat.one_ne_zero
    · rcases Nat.eq_or_lt_of_le hj with rfl | hgt
      · exact .inl hc
      · exact .inr (hzeros _ (by omega))

end

section

variable {s : List ℕ}

theorem val_berlekampMassey_of_unset (h : ∀ i : ℕ, (i : ℤ) < narrow s.length → s.getD i 0 = 0) :
    (berlekampMassey s).val = 0 := by
  have hloop := val_foldlM_range'
    (fun st (i : ℕ) ↦ masseyTurn s (narrow s.length - i + st.m).toNat i st) (fun _ st ↦ st.l = 0)
    (a := ⟨(writeAt (newVector (narrow s.length)).val 0 1).val,
      (writeAt (newVector (narrow s.length)).val 0 1).val, 0, -1⟩)
    0 (narrow s.length).toNat rfl fun i st _ hi hst ↦ ?_
  · exact hloop
  · rw [val_masseyTurn_of_unset hst (h i (by omega))]
    exact hst

theorem val_berlekampMassey_le (hs : ∀ k, s.getD k 0 < 2) :
    (berlekampMassey s).val ≤ s.length := by
  rcases Int.lt_or_le 0 (narrow s.length) with hpos | hnone
  · obtain ⟨-, C, hC⟩ := berlekampMassey_shortest_of_narrow hs (n := (narrow s.length).toNat)
      (by omega) (by omega)
    have hle := narrow_le s.length
    have hlength := hC.length_le
    omega
  · rw [val_berlekampMassey_of_unset fun i hi ↦ by omega]
    exact Nat.zero_le _

theorem not_recurs_zero {i : ℕ} (hi : i < s.length) (hbit : s.getD i 0 ≠ 0) (c : ℕ → Bool) :
    ¬Recurs s c 0 := fun hc ↦ hbit (hc i (Nat.zero_le i) hi)

end

/-! The stream of `n` zeros and a one at the end. -/

section

variable {n : ℕ}

theorem getD_lastOne (n : ℕ) : (List.replicate n 0 ++ [1]).getD n 0 = 1 := by
  rw [List.getD_append_right _ _ _ _ (by rw [List.length_replicate]), List.length_replicate,
    Nat.sub_self]
  rfl

theorem getD_lastOne_of_lt : ∀ i < n, (List.replicate n 0 ++ [1]).getD i 0 = 0 := fun i hi ↦ by
  rw [List.getD_append _ _ _ _ (by rwa [List.length_replicate]), List.getD_replicate _ hi]

theorem val_berlekampMassey_lastOne (hn : 2 ^ 31 ≤ n + 1) :
    (berlekampMassey (List.replicate n 0 ++ [1])).val = 0 := by
  refine val_berlekampMassey_of_unset fun i hi ↦ getD_lastOne_of_lt i ?_
  have hlt := narrow_lt (List.replicate n 0 ++ [1]).length
  omega

end

theorem not_runs_of_narrow_neg {s : List ℕ} (h : narrow s.length < 0) :
    (berlekampMassey s).runs = false := by
  rw [berlekampMassey, runs_bind, not_runs_newVector h, Bool.false_and]

theorem not_computesComplexity_of_narrow {s : List ℕ} (h : narrow s.length ≤ 0) :
    ¬ComputesComplexity s := by
  intro hcomputes
  rcases h.lt_or_eq with hneg | hzero
  · exact Bool.false_ne_true ((not_runs_of_narrow_neg hneg).symm.trans hcomputes.returns)
  · have hbounds := hcomputes.inBounds
    rw [berlekampMassey, hzero] at hbounds
    exact Bool.false_ne_true hbounds

theorem twoOnes_not_computed {n : ℕ} (hlong : 2 ^ 30 < n) (hlt : n < 2 ^ 31) :
    ¬ComputesComplexity ((List.replicate (2 ^ 30 - 1) false ++
      true :: true :: List.replicate (n - 2 ^ 30 - 1) false).map Bool.toNat) := by
  intro hcomputes
  have hreturns := hcomputes.returns
  rw [List.map_append, List.map_replicate, List.map_cons, List.map_cons, List.map_replicate,
    Bool.toNat_false, Bool.toNat_true, not_runs_berlekampMassey] at hreturns
  · exact Bool.false_ne_true hreturns
  · omega
  · rw [List.length_append, List.length_replicate, List.length_cons, List.length_cons,
      List.length_replicate]
    omega

theorem lastOne_not_computed {n : ℕ} (hn : 2 ^ 31 ≤ n + 1) :
    ¬ComputesComplexity ((List.replicate n false ++ [true]).map Bool.toNat) := by
  intro hcomputes
  have hleast := hcomputes.isLeast
  rw [List.map_append, List.map_replicate, List.map_singleton, Bool.toNat_false, Bool.toNat_true,
    val_berlekampMassey_lastOne hn] at hleast
  obtain ⟨c, hc⟩ := hleast.1
  refine not_recurs_zero (i := n) (by simp) ?_ c hc
  rw [getD_lastOne]
  exact Nat.one_ne_zero

/-- **For which lengths `berlekamp_massey` computes the linear complexity** of all streams: those of
at most `2 ^ 30` bits. Where the `int` size is not positive, it is that of no stream. -/
theorem berlekampMassey_isLeast (n : ℕ) (h : n ≠ 0) :
    ((∀ bits : List Bool, bits.length = n → ComputesComplexity (bits.map Bool.toNat))
      ↔ n ≤ 2 ^ 30) ∧
      (narrow n ≤ 0 →
        ∀ bits : List Bool, bits.length = n → ¬ComputesComplexity (bits.map Bool.toNat)) := by
  refine ⟨⟨fun hall ↦ ?_, ?_⟩, fun hnarrow bits hbits ↦ ?_⟩
  · by_contra hlong
    rw [Nat.not_le] at hlong
    rcases Nat.lt_or_ge n (2 ^ 31) with hlt | hge
    · refine twoOnes_not_computed hlong hlt (hall _ ?_)
      rw [List.length_append, List.length_replicate, List.length_cons, List.length_cons,
        List.length_replicate]
      omega
    · obtain ⟨n, rfl⟩ := Nat.exists_eq_succ_of_ne_zero h
      exact lastOne_not_computed hge (hall _ (by simp))
  · rintro hle bits rfl
    exact computesComplexity_of_le (List.ne_nil_of_length_pos (Nat.pos_of_ne_zero h)) hle
  · refine not_computesComplexity_of_narrow ?_
    rwa [List.length_map, hbits]

/-- The stream 0, 0, 1, 1. -/
theorem berlekampMassey_isLeast_four :
    ComputesComplexity ([false, false, true, true].map Bool.toNat) :=
  (berlekampMassey_isLeast 4 (by decide)).1.mpr (by decide) _ rfl

/-- **A stream of `2 ^ 31` zeros** has a negative number as its size, and nothing is returned. -/
theorem manyZeros_not_computed :
    ¬ComputesComplexity ((List.replicate (2 ^ 31) false).map Bool.toNat) := by
  refine not_computesComplexity_of_narrow ?_
  rw [List.length_map, List.length_replicate]
  decide

end NatGhost
