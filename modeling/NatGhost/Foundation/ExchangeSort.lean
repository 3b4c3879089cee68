import Mathlib.Data.List.FinRange
import Mathlib.Logic.Equiv.Basic
import Mathlib.Order.Fin.Basic

/-!
# Sorting by exchange

Two nested loops over a table: entry `i` is compared with every later entry `j`, and exchanged with
it if that one goes first. After turn `i` of the outer loop no later entry goes before entry `i`.

The turn is an invariant over the places `j` that have been visited (`PassInv`): nothing but the
places from `i` on is rearranged, and none of the visited places goes before `i`. The outer loop
keeps what earlier turns have achieved, because a later turn only rearranges places behind them.

The comparison may be any that agrees with the order of some key on the entries of the table.
-/

namespace NatGhost

variable {α β : Type*} {n : ℕ}

/-! ## The loops -/

section

variable (goesFirst : α → α → Bool)

/-- `if (goesFirst(a[j], a[i])) swap(a[i], a[j]);` -/
def exchange (i : Fin n) (table : Fin n → α) (j : Fin n) : Fin n → α :=
  if goesFirst (table j) (table i) then table ∘ Equiv.swap i j else table

/-- The inner loop, over the places behind `i`. -/
def exchangePass (table : Fin n → α) (i : Fin n) : Fin n → α :=
  ((List.finRange n).filter fun j ↦ decide (i < j)).foldl (exchange goesFirst i) table

def exchangeSort (table : Fin n → α) : Fin n → α :=
  (List.finRange n).foldl (exchangePass goesFirst) table

end

/-! ## One turn of the outer loop -/

section

variable [LinearOrder β] {key : α → β} {goesFirst : α → α → Bool} {start table : Fin n → α}
  {i j : Fin n} {visited : List (Fin n)}

/-- The comparison of two entries is that of their keys. -/
def ComparesKeys (key : α → β) (goesFirst : α → α → Bool) (table : Fin n → α) : Prop :=
  ∀ i j, goesFirst (table i) (table j) = true ↔ key (table i) < key (table j)

theorem ComparesKeys.comp_perm (h : ComparesKeys key goesFirst table) (σ : Equiv.Perm (Fin n)) :
    ComparesKeys key goesFirst (table ∘ σ) := fun i j ↦ h (σ i) (σ j)

/-- The table in the middle of the inner loop. -/
structure PassInv (key : α → β) (start : Fin n → α) (i : Fin n) (visited : List (Fin n))
    (table : Fin n → α) : Prop where
  rearranged : ∃ σ : Equiv.Perm (Fin n), table = start ∘ σ ∧ ∀ k < i, σ k = k
  least : ∀ j ∈ visited, key (table i) ≤ key (table j)

theorem PassInv.exchange (hkey : ComparesKeys key goesFirst start)
    (h : PassInv key start i visited table) (hij : i < j) (hvisited : ∀ k ∈ visited, i < k) :
    PassInv key start i (visited ++ [j]) (NatGhost.exchange goesFirst i table j) := by
  obtain ⟨σ, rfl, hσ⟩ := h.rearranged
  have hcompare := hkey.comp_perm σ j i
  rw [NatGhost.exchange]
  by_cases hlt : key ((start ∘ σ) j) < key ((start ∘ σ) i)
  · rw [if_pos (hcompare.mpr hlt)]
    refine ⟨⟨(Equiv.swap i j).trans σ, rfl, fun k hk ↦ ?_⟩, fun k hk ↦ ?_⟩
    · rw [Equiv.trans_apply, Equiv.swap_apply_of_ne_of_ne hk.ne (hk.trans hij).ne, hσ k hk]
    · change key (start (σ (Equiv.swap i j i))) ≤ key (start (σ (Equiv.swap i j k)))
      rw [Equiv.swap_apply_left]
      rcases List.mem_append.mp hk with hk | hk
      · -- what was not before the old entry is not before the smaller new one
        rcases eq_or_ne k j with rfl | hne
        · rw [Equiv.swap_apply_right]
          exact hlt.le
        · rw [Equiv.swap_apply_of_ne_of_ne (hvisited k hk).ne' hne]
          exact hlt.le.trans (h.least k hk)
      · obtain rfl := List.mem_singleton.mp hk
        rw [Equiv.swap_apply_right]
        exact hlt.le
  · rw [if_neg (mt hcompare.mp hlt)]
    refine ⟨h.rearranged, fun k hk ↦ ?_⟩
    rcases List.mem_append.mp hk with hk | hk
    · exact h.least k hk
    · obtain rfl := List.mem_singleton.mp hk
      exact not_lt.mp hlt

theorem PassInv.foldl (hkey : ComparesKeys key goesFirst start) {js : List (Fin n)}
    (h : PassInv key start i visited table) (hvisited : ∀ k ∈ visited, i < k)
    (hjs : ∀ j ∈ js, i < j) :
    PassInv key start i (visited ++ js) (js.foldl (NatGhost.exchange goesFirst i) table) := by
  induction js generalizing visited table with
  | nil => rwa [List.append_nil]
  | cons j js ih =>
    obtain ⟨hj, hjs⟩ := List.forall_mem_cons.mp hjs
    have hnext := h.exchange hkey hj hvisited
    have hend := ih hnext (List.forall_mem_append.mpr ⟨hvisited, List.forall_mem_singleton.mpr hj⟩)
      hjs
    rwa [List.append_assoc, List.singleton_append] at hend

/-- **What a turn does.** It rearranges nothing in front of `i`, and afterwards nothing goes before
the entry at `i`. -/
theorem passInv_exchangePass (hkey : ComparesKeys key goesFirst table) (i : Fin n) :
    PassInv key table i ((List.finRange n).filter fun j ↦ decide (i < j))
      (exchangePass goesFirst table i) := by
  have hstart : PassInv key table i [] table :=
    ⟨⟨Equiv.refl _, rfl, fun _ _ ↦ rfl⟩, fun j hj ↦ absurd hj List.not_mem_nil⟩
  exact hstart.foldl hkey (fun k hk ↦ absurd hk List.not_mem_nil) fun j hj ↦
    of_decide_eq_true (List.mem_filter.mp hj).2

/-! ## The whole sort -/

/-- The table when the turns `turns` are done. -/
structure SortInv (key : α → β) (start : Fin n → α) (turns : List (Fin n)) (table : Fin n → α) :
    Prop where
  rearranged : ∃ σ : Equiv.Perm (Fin n), table = start ∘ σ
  ordered : ∀ i ∈ turns, ∀ j, i < j → key (table i) ≤ key (table j)

theorem SortInv.pass {turns : List (Fin n)} (hkey : ComparesKeys key goesFirst start)
    (h : SortInv key start turns table) (hturns : ∀ k, k < i ↔ k ∈ turns) :
    SortInv key start (turns ++ [i]) (exchangePass goesFirst table i) := by
  obtain ⟨σ, rfl⟩ := h.rearranged
  have hpass := passInv_exchangePass (hkey.comp_perm σ) i
  obtain ⟨τ, hτ, hfix⟩ := hpass.rearranged
  refine ⟨⟨τ.trans σ, hτ⟩, fun k hk j hkj ↦ ?_⟩
  rcases List.mem_append.mp hk with hk | hk
  · -- a place behind `k` is filled from a place behind `k`
    have hki := (hturns k).mpr hk
    have hkτ : k < τ j := by
      by_contra hle
      have hτj := hfix (τ j) (lt_of_le_of_lt (not_lt.mp hle) hki)
      rw [τ.injective hτj] at hle
      exact hle hkj
    rw [hτ, Function.comp_apply, Function.comp_apply (x := j), hfix k hki]
    exact h.ordered k hk (τ j) hkτ
  · obtain rfl := List.mem_singleton.mp hk
    exact hpass.least j (List.mem_filter.mpr ⟨List.mem_finRange j, decide_eq_true hkj⟩)

theorem lt_iff_mem_of_split {turns todo : List (Fin n)}
    (h : turns ++ i :: todo = List.finRange n) {k : Fin n} : k < i ↔ k ∈ turns := by
  have hsorted : (turns ++ i :: todo).Pairwise (· < ·) := h ▸ List.pairwise_lt_finRange n
  obtain ⟨-, htodo, hcross⟩ := List.pairwise_append.mp hsorted
  constructor
  · intro hlt
    have hmem : k ∈ turns ++ i :: todo := h ▸ List.mem_finRange k
    rcases List.mem_append.mp hmem with hk | hk
    · exact hk
    · rcases List.mem_cons.mp hk with rfl | hk
      · exact absurd hlt (lt_irrefl _)
      · exact absurd hlt (lt_asymm ((List.pairwise_cons.mp htodo).1 k hk))
  · exact fun hk ↦ hcross k hk i List.mem_cons_self

theorem SortInv.foldl {turns todo : List (Fin n)} (hkey : ComparesKeys key goesFirst start)
    (h : SortInv key start turns table) (hsplit : turns ++ todo = List.finRange n) :
    SortInv key start (List.finRange n) (todo.foldl (exchangePass goesFirst) table) := by
  induction todo generalizing turns table with
  | nil =>
    rw [List.append_nil] at hsplit
    exact hsplit ▸ h
  | cons i todo ih =>
    refine ih (h.pass hkey fun k ↦ lt_iff_mem_of_split hsplit) ?_
    rw [List.append_assoc, List.singleton_append, hsplit]

variable (goesFirst) in
/-- **The loops sort.** The result is a rearrangement of the table in which no key is less than an
earlier one. -/
theorem exchangeSort_sorts (hkey : ComparesKeys key goesFirst start) :
    ∃ σ : Equiv.Perm (Fin n), exchangeSort goesFirst start = start ∘ σ ∧
      ∀ i j, i ≤ j → key (start (σ i)) ≤ key (start (σ j)) := by
  have hstart : SortInv key start [] start :=
    ⟨⟨Equiv.refl _, rfl⟩, fun i hi ↦ absurd hi List.not_mem_nil⟩
  have hend := hstart.foldl hkey (List.nil_append _)
  obtain ⟨σ, hσ⟩ := hend.rearranged
  refine ⟨σ, hσ, fun i j hij ↦ ?_⟩
  rcases hij.eq_or_lt with rfl | hlt
  · exact le_rfl
  · have hle := hend.ordered i (List.mem_finRange i) j hlt
    rwa [hσ] at hle

end

end NatGhost
