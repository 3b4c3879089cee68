import Mathlib.Algebra.Field.ZMod
import Mathlib.Data.Nat.Bitwise
import Mathlib.Order.Bounds.Basic
import NatGhost.Foundation.LinearRecurrence

/-!
# Sequences of bits

Bits are numbers below two, combined with `^^^` and `&&&`. Their casts to `ZMod 2` turn the former
into addition, which makes a list of bits the beginning of a power series and a recurrence over bits
a recurrence in the sense of `Generates` (`exists_recurs_iff`).
-/

namespace NatGhost

open PowerSeries Finset

/-! ## Casts -/

theorem natCast_xor (a b : ℕ) : ((a ^^^ b : ℕ) : ZMod 2) = a + b := by
  rw [← Nat.cast_add, ZMod.natCast_eq_natCast_iff']
  exact Nat.xor_mod_two_eq

theorem natCast_inj_of_lt_two {a b : ℕ} (ha : a < 2) (hb : b < 2) : (a : ZMod 2) = b ↔ a = b := by
  rw [ZMod.natCast_eq_natCast_iff', Nat.mod_eq_of_lt ha, Nat.mod_eq_of_lt hb]

theorem natCast_eq_zero_of_lt_two {a : ℕ} (ha : a < 2) : (a : ZMod 2) = 0 ↔ a = 0 := by
  have h := natCast_inj_of_lt_two ha (b := 0) (by decide)
  rwa [Nat.cast_zero] at h

theorem xor_lt_two {a b : ℕ} (ha : a < 2) (hb : b < 2) : a ^^^ b < 2 :=
  Nat.xor_lt_two_pow (n := 1) ha hb

theorem mul_lt_two {a b : ℕ} (ha : a < 2) (hb : b < 2) : a * b < 2 := by
  have h := Nat.mul_le_mul (Nat.le_of_lt_succ ha) (Nat.le_of_lt_succ hb)
  omega

theorem toNat_lt_two (b : Bool) : b.toNat < 2 := by
  cases b <;> decide

theorem natCast_toNat_and (b : Bool) (x : ℕ) :
    ((b.toNat &&& x : ℕ) : ZMod 2) = (b.toNat : ZMod 2) * x := by
  cases b with
  | false => simp
  | true =>
    rw [Bool.toNat_true, Nat.one_and_eq_mod_two, Nat.cast_one, one_mul, ZMod.natCast_mod]

theorem toNat_and_eq_mul (b : Bool) {x : ℕ} (hx : x < 2) : b.toNat &&& x = b.toNat * x := by
  cases b with
  | false => simp
  | true => rw [Bool.toNat_true, Nat.one_and_eq_mod_two, Nat.mod_eq_of_lt hx, one_mul]

theorem toNat_and_lt_two (b : Bool) (x : ℕ) : b.toNat &&& x < 2 :=
  lt_of_le_of_lt Nat.and_le_left (toNat_lt_two b)

theorem zmod_two_eq_one {x : ZMod 2} (h : x ≠ 0) : x = 1 := by
  revert x
  decide

/-! ## Sums of bits -/

/-- An exclusive or over the indices `1, …, l`. -/
def xorSum (f : ℕ → ℕ) (l d : ℕ) : ℕ := (List.range' 1 l).foldl (fun d j ↦ d ^^^ f j) d

theorem xorSum_succ (f : ℕ → ℕ) (l d : ℕ) : xorSum f (l + 1) d = xorSum f l d ^^^ f (l + 1) := by
  rw [xorSum, List.range'_1_concat, List.foldl_append, List.foldl_cons, List.foldl_nil,
    Nat.add_comm 1]
  rfl

theorem xorSum_congr {f g : ℕ → ℕ} {l : ℕ} (h : ∀ j, 1 ≤ j → j ≤ l → f j = g j) (d : ℕ) :
    xorSum f l d = xorSum g l d := by
  induction l with
  | zero => rfl
  | succ l ih =>
    rw [xorSum_succ, xorSum_succ, ih fun j hj hjl ↦ h j hj (Nat.le_succ_of_le hjl),
      h (l + 1) (Nat.le_add_left 1 l) le_rfl]

theorem xorSum_of_zeros {f : ℕ → ℕ} {l : ℕ} (h : ∀ j, 1 ≤ j → j ≤ l → f j = 0) (d : ℕ) :
    xorSum f l d = d := by
  induction l with
  | zero => rfl
  | succ l ih =>
    rw [xorSum_succ, ih fun j hj hjl ↦ h j hj (Nat.le_succ_of_le hjl),
      h (l + 1) (Nat.le_add_left 1 l) le_rfl, Nat.xor_zero]

theorem xorSum_eq_xor (f : ℕ → ℕ) (l d : ℕ) : xorSum f l d = d ^^^ xorSum f l 0 := by
  induction l with
  | zero => exact (Nat.xor_zero d).symm
  | succ l ih => rw [xorSum_succ, ih, xorSum_succ, Nat.xor_assoc]

theorem xorSum_xor (f g : ℕ → ℕ) (l : ℕ) :
    xorSum (fun j ↦ f j ^^^ g j) l 0 = xorSum f l 0 ^^^ xorSum g l 0 := by
  induction l with
  | zero => exact (Nat.xor_self 0).symm
  | succ l ih =>
    rw [xorSum_succ, xorSum_succ, xorSum_succ, ih]
    ac_rfl

theorem xorSum_single {f : ℕ → ℕ} {i : ℕ} (hf : ∀ j, j ≠ i + 1 → f j = 0) (l : ℕ) :
    xorSum f l 0 = if i < l then f (i + 1) else 0 := by
  induction l with
  | zero => rw [if_neg (Nat.not_lt_zero i)]; rfl
  | succ l ih =>
    rw [xorSum_succ, ih]
    rcases Nat.lt_trichotomy i l with hlt | rfl | hgt
    · rw [if_pos hlt, if_pos (Nat.lt_succ_of_lt hlt), hf (l + 1) (by omega), Nat.xor_zero]
    · rw [if_neg (Nat.lt_irrefl i), if_pos (Nat.lt_succ_self i), Nat.zero_xor]
    · rw [if_neg (Nat.not_lt.mpr hgt.le), if_neg (Nat.not_lt.mpr hgt), hf (l + 1) (by omega),
        Nat.xor_zero]

theorem natCast_xorSum (f : ℕ → ℕ) (l d : ℕ) :
    (xorSum f l d : ZMod 2) = d + ∑ j ∈ range l, (f (j + 1) : ZMod 2) := by
  induction l with
  | zero => rw [range_zero, sum_empty, add_zero, xorSum]; rfl
  | succ l ih => rw [xorSum_succ, natCast_xor, ih, sum_range_succ, add_assoc]

theorem xorSum_lt_two {f : ℕ → ℕ} (hf : ∀ j, f j < 2) {d : ℕ} (hd : d < 2) (l : ℕ) :
    xorSum f l d < 2 := by
  induction l with
  | zero => exact hd
  | succ l ih =>
    rw [xorSum_succ]
    exact xor_lt_two ih (hf _)

/-! ## Recurrences -/

/-- From its term `L` on, the sequence satisfies the recurrence with these coefficients: every term
is the exclusive or of the `L` terms before it, each with its coefficient. -/
def Recurs (x : List ℕ) (c : ℕ → Bool) (L : ℕ) : Prop :=
  ∀ i, L ≤ i → i < x.length →
    x.getD i 0 = xorSum (fun j ↦ (c j).toNat &&& x.getD (i - j) 0) L 0

theorem recurs_length (x : List ℕ) (c : ℕ → Bool) : Recurs x c x.length :=
  fun _ hi hix ↦ absurd hix (Nat.not_lt.mpr hi)

theorem Recurs.concat {x : List ℕ} {c : ℕ → Bool} {L next : ℕ} (h : Recurs x c L)
    (hL : L ≤ x.length)
    (hnext : next = xorSum (fun j ↦ (c j).toNat &&& x.getD (x.length - j) 0) L 0) :
    Recurs (x ++ [next]) c L := by
  have hold : ∀ i, i < x.length → (x ++ [next]).getD i 0 = x.getD i 0 := fun i hi ↦
    List.getD_append x [next] 0 i hi
  intro i hi hix
  rw [List.length_append, List.length_singleton] at hix
  rcases Nat.lt_or_ge i x.length with hlt | hge
  · rw [hold i hlt, h i hi hlt]
    refine xorSum_congr (fun j _ _ ↦ ?_) 0
    rw [hold (i - j) (by omega)]
  · obtain rfl : i = x.length := by omega
    rw [List.getD_append_right _ _ _ _ le_rfl, Nat.sub_self, List.getD_cons_zero]
    refine hnext.trans (xorSum_congr (fun j _ _ ↦ ?_) 0)
    rw [hold (x.length - j) (by omega)]

/-- The sequence as a power series. -/
noncomputable def series (x : List ℕ) : (ZMod 2)⟦X⟧ := mk fun i ↦ (x.getD i 0 : ZMod 2)

@[simp] theorem coeff_series (x : List ℕ) (i : ℕ) : coeff i (series x) = (x.getD i 0 : ZMod 2) :=
  coeff_mk _ _

/-- The connection series of a recurrence. -/
noncomputable def connection (c : ℕ → Bool) (L : ℕ) : (ZMod 2)⟦X⟧ :=
  mk fun j ↦ if j = 0 then 1 else if j ≤ L then ((c j).toNat : ZMod 2) else 0

theorem coeff_mul_series {C : (ZMod 2)⟦X⟧} {L i : ℕ} (hzero : coeff 0 C = 1)
    (hsupport : ∀ j, L < j → coeff j C = 0) (hi : L ≤ i) (x : List ℕ) :
    coeff i (C * series x)
      = x.getD i 0 + ∑ j ∈ range L, coeff (j + 1) C * (x.getD (i - (j + 1)) 0 : ZMod 2) := by
  rw [coeff_mul_of_support hsupport hi, sum_range_succ', hzero, one_mul, add_comm]
  simp only [coeff_series, Nat.sub_zero]

theorem Recurs.generates {x : List ℕ} {c : ℕ → Bool} {L : ℕ} (h : Recurs x c L) :
    Generates (connection c L) (series x) L x.length := by
  have hzero : coeff 0 (connection c L) = 1 := by rw [connection, coeff_mk, if_pos rfl]
  have hsupport : ∀ j, L < j → coeff j (connection c L) = 0 := fun j hj ↦ by
    rw [connection, coeff_mk, if_neg (by omega), if_neg (by omega)]
  refine ⟨hzero, hsupport, fun i hi hix ↦ ?_⟩
  have hterm := congrArg (fun t : ℕ ↦ (t : ZMod 2)) (h i hi hix)
  simp only [natCast_xorSum, Nat.cast_zero, zero_add, natCast_toNat_and] at hterm
  rw [coeff_mul_series hzero hsupport hi, hterm, ← sum_add_distrib]
  refine sum_eq_zero fun j hj ↦ ?_
  have hcoeff : coeff (j + 1) (connection c L) = ((c (j + 1)).toNat : ZMod 2) := by
    rw [mem_range] at hj
    rw [connection, coeff_mk, if_neg (by omega), if_pos (by omega)]
  rw [hcoeff]
  exact CharTwo.add_self_eq_zero _

theorem Generates.recurs {x : List ℕ} (hx : ∀ i, x.getD i 0 < 2) {C : (ZMod 2)⟦X⟧} {L : ℕ}
    (h : Generates C (series x) L x.length) : Recurs x (fun j ↦ decide (coeff j C ≠ 0)) L := by
  intro i hi hix
  have hsum := h.vanish i hi hix
  rw [coeff_mul_series h.constant h.support hi] at hsum
  refine (natCast_inj_of_lt_two (hx i) (xorSum_lt_two (fun j ↦ toNat_and_lt_two _ _)
    (by decide) L)).mp ?_
  rw [natCast_xorSum, Nat.cast_zero, zero_add, CharTwo.add_eq_zero.mp hsum]
  refine sum_congr rfl fun j _ ↦ ?_
  rw [natCast_toNat_and]
  by_cases hj : coeff (j + 1) C = 0
  · simp [hj]
  · simp [zmod_two_eq_one hj]

/-- **Recurrences over bits and over `ZMod 2`** have the same lengths. -/
theorem exists_recurs_iff {x : List ℕ} (hx : ∀ i, x.getD i 0 < 2) {L : ℕ} :
    (∃ c, Recurs x c L) ↔ ∃ C, Generates C (series x) L x.length := by
  constructor
  · rintro ⟨c, h⟩
    exact ⟨_, h.generates⟩
  · rintro ⟨C, h⟩
    exact ⟨_, h.recurs hx⟩

/-- **Terms that cannot refute the length**, over bits: a continuation up to twice the least length
of a recurrence satisfies one of that length, whatever it is. -/
theorem exists_recurs_append {x p : List ℕ} (hbits : ∀ i, (x ++ p).getD i 0 < 2)
    (hx : ∀ i, x.getD i 0 < 2) {L : ℕ} (h : IsLeast {L | ∃ c, Recurs x c L} L)
    (hp : x.length + p.length ≤ 2 * L) : ∃ c, Recurs (x ++ p) c L := by
  obtain ⟨C, hC⟩ := (exists_recurs_iff hx).mp h.1
  have hshortest : Shortest C (series x) L x.length :=
    ⟨hC, fun C' L' h' ↦ h.2 ((exists_recurs_iff hx).mpr ⟨C', h'⟩)⟩
  have hmark : ∀ i < x.length, coeff i (series x) = coeff i (series (x ++ p)) := fun i hi ↦ by
    rw [coeff_series, coeff_series, List.getD_append _ _ _ _ hi]
  rw [exists_recurs_iff hbits, List.length_append]
  exact (hshortest.congr hmark).exists_generates (Nat.le_add_right _ _) hp

end NatGhost
