import Mathlib.Data.List.GetD
import Mathlib.Tactic.Linarith
import NatGhost.Foundation.Visits

/-!
# Computations on vectors with unchecked indexing

`operator[]` of a C++ vector does not check its index. A `Checked` computation returns a value
together with a flag that says whether every access was in bounds. An access that is not has a
meaning all the same: a read gives zero, a write is ignored. So one definition answers two
questions, what a function computes under that convention and whether it ever needs the convention.

A second flag says whether the computation gets to its end at all. It does not if an exception is
thrown, if an `int` expression overflows, or if something is erased from an empty vector; what the
value is then means nothing.

Loops are `foldlM` over a range of indices. `foldlM_range'` is the rule for them: an invariant that
depends on the index, and accesses that are in bounds as long as it holds; `val_foldlM_range'` is
the same for the value alone, `safe_foldlM_range'` for both flags. `ok_foldlM_iff` says when a loop
stays in bounds: if every turn it takes does.
-/

namespace NatGhost

/-- A value, whether it was computed without leaving a vector, and whether it was computed. -/
structure Checked (α : Type) where
  val : α
  ok : Bool
  runs : Bool
  deriving DecidableEq

namespace Checked

variable {α β : Type}

instance : Monad Checked where
  pure a := ⟨a, true, true⟩
  bind x f := ⟨(f x.val).val, x.ok && (f x.val).ok, x.runs && (f x.val).runs⟩

@[simp] theorem val_pure (a : α) : (pure a : Checked α).val = a := rfl

@[simp] theorem ok_pure (a : α) : (pure a : Checked α).ok = true := rfl

@[simp] theorem runs_pure (a : α) : (pure a : Checked α).runs = true := rfl

@[simp] theorem val_bind (x : Checked α) (f : α → Checked β) : (x >>= f).val = (f x.val).val := rfl

@[simp] theorem ok_bind (x : Checked α) (f : α → Checked β) :
    (x >>= f).ok = (x.ok && (f x.val).ok) := rfl

@[simp] theorem runs_bind (x : Checked α) (f : α → Checked β) :
    (x >>= f).runs = (x.runs && (f x.val).runs) := rfl

@[simp] theorem pure_bind (a : α) (f : α → Checked β) : (pure a : Checked α) >>= f = f a := rfl

theorem eq_pure {x : Checked α} {a : α} (hok : x.ok = true) (hruns : x.runs = true)
    (hval : x.val = a) : x = pure a := by
  obtain ⟨val, ok, runs⟩ := x
  obtain rfl : ok = true := hok
  obtain rfl : runs = true := hruns
  obtain rfl : val = a := hval
  rfl

structure Safe (x : Checked α) : Prop where
  ok : x.ok = true
  runs : x.runs = true

theorem Safe.pure (a : α) : Safe (Pure.pure a : Checked α) := ⟨rfl, rfl⟩

theorem Safe.bind {x : Checked α} {f : α → Checked β} (hx : x.Safe) (hf : (f x.val).Safe) :
    (x >>= f).Safe where
  ok := by rw [ok_bind, hx.ok, hf.ok, Bool.and_self]
  runs := by rw [runs_bind, hx.runs, hf.runs, Bool.and_self]

/-! ## Accesses -/

/-- `v[i]` as a value. -/
def readAt (v : List ℕ) (i : ℤ) : Checked ℕ :=
  ⟨if 0 ≤ i then v.getD i.toNat 0 else 0, decide (0 ≤ i ∧ i < v.length), true⟩

/-- `v[i] = x`. -/
def writeAt (v : List ℕ) (i : ℤ) (x : ℕ) : Checked (List ℕ) :=
  ⟨if 0 ≤ i then v.set i.toNat x else v, decide (0 ≤ i ∧ i < v.length), true⟩

@[simp] theorem runs_readAt (v : List ℕ) (i : ℤ) : (readAt v i).runs = true := rfl

@[simp] theorem runs_writeAt (v : List ℕ) (i : ℤ) (x : ℕ) : (writeAt v i x).runs = true := rfl

@[simp] theorem val_readAt_natCast (v : List ℕ) (i : ℕ) : (readAt v i).val = v.getD i 0 := by
  simp [readAt]

theorem val_readAt_of_neg (v : List ℕ) {i : ℤ} (h : i < 0) : (readAt v i).val = 0 :=
  if_neg (Int.not_le.mpr h)

theorem not_ok_readAt_of_neg (v : List ℕ) {i : ℤ} (h : i < 0) : (readAt v i).ok = false := by
  rw [readAt, decide_eq_false fun hin ↦ absurd hin.1 (Int.not_le.mpr h)]

theorem ok_readAt {v : List ℕ} {i : ℤ} (h₀ : 0 ≤ i) (h : i < v.length) : (readAt v i).ok = true :=
  decide_eq_true ⟨h₀, h⟩

theorem Safe.readAt {v : List ℕ} {i : ℤ} (h₀ : 0 ≤ i) (h : i < v.length) :
    (Checked.readAt v i).Safe := ⟨ok_readAt h₀ h, rfl⟩

theorem ok_writeAt {v : List ℕ} {i : ℤ} (h₀ : 0 ≤ i) (h : i < v.length) (x : ℕ) :
    (writeAt v i x).ok = true := decide_eq_true ⟨h₀, h⟩

theorem Safe.writeAt {v : List ℕ} {i : ℤ} (h₀ : 0 ≤ i) (h : i < v.length) (x : ℕ) :
    (Checked.writeAt v i x).Safe := ⟨ok_writeAt h₀ h x, rfl⟩

@[simp] theorem length_writeAt (v : List ℕ) (i : ℤ) (x : ℕ) :
    (writeAt v i x).val.length = v.length := by
  rw [writeAt]
  split_ifs
  · exact List.length_set
  · rfl

theorem getD_writeAt (v : List ℕ) (i k : ℕ) (x : ℕ) :
    (writeAt v i x).val.getD k 0 = if k = i ∧ k < v.length then x else v.getD k 0 := by
  simp only [writeAt, Int.natCast_nonneg, if_true, Int.toNat_natCast]
  rcases Nat.lt_or_ge k v.length with hlt | hge
  · rw [List.getD_eq_getElem _ _ (by simpa using hlt), List.getElem_set,
      List.getD_eq_getElem _ _ hlt]
    by_cases hk : k = i
    · rw [if_pos hk.symm, if_pos ⟨hk, hlt⟩]
    · rw [if_neg (Ne.symm hk), if_neg fun h ↦ hk h.1]
  · rw [if_neg fun h ↦ absurd h.2 (Nat.not_lt.mpr hge),
      List.getD_eq_default _ _ (by simpa using hge), List.getD_eq_default _ _ hge]

/-! ## The type `int` -/

/-- The value of an `int` expression. -/
def evalInt (z : ℤ) : Checked ℤ := ⟨z, true, decide (-2 ^ 31 ≤ z ∧ z < 2 ^ 31)⟩

@[simp] theorem val_evalInt (z : ℤ) : (evalInt z).val = z := rfl

@[simp] theorem ok_evalInt (z : ℤ) : (evalInt z).ok = true := rfl

theorem Safe.evalInt {z : ℤ} (hle : -2 ^ 31 ≤ z) (hlt : z < 2 ^ 31) : (Checked.evalInt z).Safe :=
  ⟨rfl, decide_eq_true ⟨hle, hlt⟩⟩

theorem not_runs_evalInt {z : ℤ} (h : 2 ^ 31 ≤ z) : (evalInt z).runs = false :=
  decide_eq_false fun hz ↦ absurd hz.2 (Int.not_lt.mpr h)

/-- A `size_t` as an `int`. -/
def narrow (size : ℕ) : ℤ := (Int32.ofNat size).toInt

theorem narrow_lt (size : ℕ) : narrow size < 2 ^ 31 := Int32.toInt_lt _

theorem narrow_of_lt {size : ℕ} (h : size < 2 ^ 31) : narrow size = size :=
  Int32.toInt_ofNat_of_lt h

theorem narrow_le (size : ℕ) : narrow size ≤ size := by
  rcases Nat.lt_or_ge size (2 ^ 31) with hlt | hge
  · exact (narrow_of_lt hlt).le
  · exact (narrow_lt size).le.trans (by exact_mod_cast hge)

/-- `std::vector<int> v(n);` A negative number is converted to a size that no vector can have. -/
def newVector (n : ℤ) : Checked (List ℕ) := ⟨List.replicate n.toNat 0, true, decide (0 ≤ n)⟩

@[simp] theorem val_newVector_natCast (n : ℕ) : (newVector n).val = List.replicate n 0 := rfl

@[simp] theorem ok_newVector (n : ℤ) : (newVector n).ok = true := rfl

@[simp] theorem runs_newVector_natCast (n : ℕ) : (newVector n).runs = true :=
  decide_eq_true (Int.natCast_nonneg n)

theorem not_runs_newVector {n : ℤ} (h : n < 0) : (newVector n).runs = false :=
  decide_eq_false (Int.not_le.mpr h)

/-! ## Loops -/

theorem foldlM_range'_of_bind (F : Checked α → Prop) (hpure : ∀ a, F (pure a))
    (hbind : ∀ (x : Checked α) (f : α → Checked α), F x → F (f x.val) → F (x >>= f))
    (f : α → ℕ → Checked α) (I : ℕ → α → Prop) {a : α} (lo len : ℕ) (hinit : I lo a)
    (hstep : ∀ j a, lo ≤ j → j < lo + len → I j a → F (f a j) ∧ I (j + 1) (f a j).val) :
    F ((List.range' lo len).foldlM f a) ∧
      I (lo + len) ((List.range' lo len).foldlM f a).val := by
  induction len generalizing lo a with
  | zero => exact ⟨hpure a, hinit⟩
  | succ len ih =>
    obtain ⟨hfirst, hnext⟩ := hstep lo a le_rfl (by omega) hinit
    obtain ⟨hrest, hend⟩ := ih (lo + 1) hnext fun j a hlo hj ↦ hstep j a (by omega) (by omega)
    rw [List.range'_succ, List.foldlM_cons]
    refine ⟨hbind _ _ hfirst hrest, ?_⟩
    rwa [Nat.add_right_comm, Nat.add_assoc] at hend

/-- **The loop rule.** -/
theorem foldlM_range' (f : α → ℕ → Checked α) (I : ℕ → α → Prop) {a : α} (lo len : ℕ)
    (hinit : I lo a)
    (hstep : ∀ j a, lo ≤ j → j < lo + len → I j a → (f a j).ok = true ∧ I (j + 1) (f a j).val) :
    ((List.range' lo len).foldlM f a).ok = true ∧
      I (lo + len) ((List.range' lo len).foldlM f a).val :=
  foldlM_range'_of_bind (·.ok = true) (fun _ ↦ rfl)
    (fun x f hx hf ↦ by rw [ok_bind, hx, hf, Bool.and_self]) f I lo len hinit hstep

theorem safe_foldlM_range' (f : α → ℕ → Checked α) (I : ℕ → α → Prop) {a : α} (lo len : ℕ)
    (hinit : I lo a)
    (hstep : ∀ j a, lo ≤ j → j < lo + len → I j a → (f a j).Safe ∧ I (j + 1) (f a j).val) :
    ((List.range' lo len).foldlM f a).Safe ∧
      I (lo + len) ((List.range' lo len).foldlM f a).val :=
  foldlM_range'_of_bind Safe Safe.pure (fun _ _ ↦ Safe.bind) f I lo len hinit hstep

theorem runs_foldlM_range' (f : α → ℕ → Checked α) (I : ℕ → α → Prop) {a : α} (lo len : ℕ)
    (hinit : I lo a)
    (hstep : ∀ j a, lo ≤ j → j < lo + len → I j a → (f a j).runs = true ∧ I (j + 1) (f a j).val) :
    ((List.range' lo len).foldlM f a).runs = true :=
  (foldlM_range'_of_bind (·.runs = true) (fun _ ↦ rfl)
    (fun x f hx hf ↦ by rw [runs_bind, hx, hf, Bool.and_self]) f I lo len hinit hstep).1

theorem not_runs_foldlM_range' (f : α → ℕ → Checked α) (I : ℕ → α → Prop) {a : α} (lo len : ℕ)
    {k : ℕ} (hlo : lo ≤ k) (hk : k < lo + len) (hinit : I lo a)
    (hstep : ∀ j a, lo ≤ j → j < k → I j a → I (j + 1) (f a j).val)
    (hstop : ∀ a, I k a → (f a k).runs = false) :
    ((List.range' lo len).foldlM f a).runs = false := by
  induction len generalizing lo a with
  | zero => omega
  | succ len ih =>
    rw [List.range'_succ, List.foldlM_cons, runs_bind]
    rcases Nat.eq_or_lt_of_le hlo with rfl | hlt
    · rw [hstop a hinit, Bool.false_and]
    · rw [ih _ hlt (by omega) (hstep lo a le_rfl hlt hinit) fun j a hj ↦ hstep j a (by omega),
        Bool.and_false]

theorem val_foldlM_range' (f : α → ℕ → Checked α) (I : ℕ → α → Prop) {a : α} (lo len : ℕ)
    (hinit : I lo a)
    (hstep : ∀ j a, lo ≤ j → j < lo + len → I j a → I (j + 1) (f a j).val) :
    I (lo + len) ((List.range' lo len).foldlM f a).val := by
  induction len generalizing lo a with
  | zero => exact hinit
  | succ len ih =>
    have hend := ih (lo + 1) (hstep lo a le_rfl (by omega) hinit) fun j a hlo hj ↦
      hstep j a (by omega) (by omega)
    rw [List.range'_succ, List.foldlM_cons, val_bind]
    rwa [Nat.add_right_comm, Nat.add_assoc] at hend

theorem val_foldlM (f : α → β → Checked α) (a : α) (xs : List β) :
    (xs.foldlM f a).val = xs.foldl (fun a x ↦ (f a x).val) a := by
  induction xs generalizing a with
  | nil => rfl
  | cons x xs ih => rw [List.foldlM_cons, val_bind, ih, List.foldl_cons]

/-- **A loop stays in bounds** exactly if every turn does, in the state it meets. -/
theorem ok_foldlM_iff (f : α → β → Checked α) (a : α) (xs : List β) :
    (xs.foldlM f a).ok = true
      ↔ ∀ v ∈ visits (fun a x ↦ (f a x).val) a xs, (f v.1 v.2).ok = true := by
  induction xs generalizing a with
  | nil => exact ⟨fun _ v hv ↦ absurd hv List.not_mem_nil, fun _ ↦ rfl⟩
  | cons x xs ih =>
    rw [List.foldlM_cons, ok_bind, Bool.and_eq_true, ih, visits_cons, List.forall_mem_cons]

end Checked

end NatGhost
