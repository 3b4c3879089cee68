import Mathlib.Data.List.GetD
import Mathlib.Tactic.TypeStar
import NatGhost.Foundation.Words

/-!
# Byte strings in memory

A memory is a total function from addresses to cells. `Holds mem a xs` says that the cells from `a`
on spell out `xs`, and `overlay a xs mem` is the memory after `xs` has been copied to `a`.

Everything outside the copied range is arbitrary, so a statement about `overlay a xs mem` for every
`mem` is a statement about a buffer followed by whatever happened to be there.
-/

namespace NatGhost

variable {V : Type*}

/-- The cells from address `a` on are `xs`. -/
def Holds (mem : ℕ → V) (a : ℕ) (xs : List V) : Prop :=
  ∀ (i : ℕ) (h : i < xs.length), mem (a + i) = xs[i]

/-- Copy `xs` to address `a`. -/
def overlay (a : ℕ) (xs : List V) (mem : ℕ → V) : ℕ → V := fun p ↦
  if a ≤ p then xs.getD (p - a) (mem p) else mem p

/-! ## Copying -/

theorem overlay_of_lt {a p : ℕ} (xs : List V) (mem : ℕ → V) (h : p < a) :
    overlay a xs mem p = mem p := if_neg (by omega)

theorem overlay_of_ge {a p : ℕ} {xs : List V} (mem : ℕ → V) (h : a + xs.length ≤ p) :
    overlay a xs mem p = mem p := by
  rw [overlay, if_pos (by omega), List.getD_eq_default _ _ (by omega)]

theorem holds_overlay (a : ℕ) (xs : List V) (mem : ℕ → V) : Holds (overlay a xs mem) a xs := by
  intro i hi
  rw [overlay, if_pos (by omega), Nat.add_sub_cancel_left, List.getD_eq_getElem _ _ hi]

@[simp] theorem overlay_nil (a : ℕ) (mem : ℕ → V) : overlay a [] mem = mem := by
  funext p
  rw [overlay, List.getD_nil, ite_self]

theorem overlay_append (a : ℕ) (xs ys : List V) (mem : ℕ → V) :
    overlay (a + xs.length) ys (overlay a xs mem) = overlay a (xs ++ ys) mem := by
  funext p
  rcases Nat.lt_or_ge p a with hlt | hge
  · rw [overlay_of_lt _ _ (hlt.trans_le (Nat.le_add_right _ _)), overlay_of_lt _ _ hlt,
      overlay_of_lt _ _ hlt]
  · obtain ⟨k, rfl⟩ := Nat.exists_eq_add_of_le hge
    rcases Nat.lt_or_ge k xs.length with hk | hk
    · have hk' : k < (xs ++ ys).length := by
        rw [List.length_append]
        exact hk.trans_le (Nat.le_add_right _ _)
      rw [overlay_of_lt _ _ (Nat.add_lt_add_left hk a), holds_overlay a xs mem k hk,
        holds_overlay a (xs ++ ys) mem k hk', List.getElem_append_left hk]
    · obtain ⟨l, rfl⟩ := Nat.exists_eq_add_of_le hk
      rcases Nat.lt_or_ge l ys.length with hl | hl
      · have hl' : xs.length + l < (xs ++ ys).length := by
          rw [List.length_append]
          exact Nat.add_lt_add_left hl _
        rw [holds_overlay a (xs ++ ys) mem _ hl', ← Nat.add_assoc,
          holds_overlay (a + xs.length) ys _ l hl, List.getElem_append_right (Nat.le_add_right _ _)]
        simp only [Nat.add_sub_cancel_left]
      · have hall : a + (xs ++ ys).length ≤ a + (xs.length + l) := by
          rw [List.length_append]
          exact Nat.add_le_add_left (Nat.add_le_add_left hl _) a
        rw [overlay_of_ge _ hall, overlay_of_ge _ (by rw [Nat.add_assoc]; omega),
          overlay_of_ge _ (Nat.add_le_add_left hk a)]

/-! ## Taking a held string apart -/

theorem holds_append_iff {mem : ℕ → V} {a : ℕ} {xs ys : List V} :
    Holds mem a (xs ++ ys) ↔ Holds mem a xs ∧ Holds mem (a + xs.length) ys := by
  constructor
  · intro h
    refine ⟨fun i hi ↦ ?_, fun i hi ↦ ?_⟩
    · rw [h i (by rw [List.length_append]; omega), List.getElem_append_left hi]
    · rw [Nat.add_assoc, h (xs.length + i) (by rw [List.length_append]; omega),
        List.getElem_append_right (by omega)]
      congr 1
      omega
  · rintro ⟨hxs, hys⟩ i hi
    rcases Nat.lt_or_ge i xs.length with hlt | hge
    · rw [hxs i hlt, List.getElem_append_left hlt]
    · have hi' : i - xs.length < ys.length := by rw [List.length_append] at hi; omega
      have := hys (i - xs.length) hi'
      rw [Nat.add_assoc, Nat.add_sub_cancel' hge] at this
      rw [this, List.getElem_append_right hge]

theorem Holds.getD {mem : ℕ → V} {a : ℕ} {xs : List V} (h : Holds mem a xs) {i : ℕ}
    (hi : i < xs.length) (d : V) : mem (a + i) = xs.getD i d := by
  rw [h i hi, List.getD_eq_getElem _ _ hi]

theorem overlay_zero_eq_getD {xs : List V} (mem : ℕ → V) {i : ℕ} (hi : i < xs.length) (d : V) :
    overlay 0 xs mem i = xs.getD i d := by
  have h := (holds_overlay 0 xs mem).getD hi d
  rwa [Nat.zero_add] at h

theorem Holds.congr {mem mem' : ℕ → V} {a : ℕ} {xs : List V} (h : Holds mem a xs)
    (hmem : ∀ p, a ≤ p → p < a + xs.length → mem' p = mem p) : Holds mem' a xs := fun i hi ↦ by
  rw [hmem (a + i) (by omega) (by omega), h i hi]

theorem Holds.record {ι : Type*} {encode : ι → List V} {width : ℕ}
    (hwidth : ∀ x, (encode x).length = width) {mem : ℕ → V} {a : ℕ} {xs : List ι}
    (h : Holds mem a (xs.flatMap encode)) {i : ℕ} (hi : i < xs.length) :
    Holds mem (a + i * width) (encode xs[i]) := by
  induction xs generalizing a i with
  | nil => exact absurd hi (Nat.not_lt_zero i)
  | cons x xs ih =>
    rw [List.flatMap_cons, holds_append_iff, hwidth] at h
    cases i with
    | zero =>
      rw [Nat.zero_mul]
      exact h.1
    | succ i =>
      have hrest := ih h.2 (Nat.lt_of_succ_lt_succ hi)
      rwa [Nat.add_assoc, Nat.add_comm width, ← Nat.succ_mul] at hrest

def cellsAt (mem : ℕ → V) (a n : ℕ) : List V := (List.range n).map fun i ↦ mem (a + i)

theorem Holds.cellsAt_eq {mem : ℕ → V} {a : ℕ} {xs : List V} (h : Holds mem a xs) :
    cellsAt mem a xs.length = xs := by
  refine List.ext_getElem (by rw [cellsAt, List.length_map, List.length_range]) fun i hi hi' ↦ ?_
  have hcell : (cellsAt mem a xs.length)[i] = mem (a + i) := by simp [cellsAt]
  rw [hcell, h i hi']

/-! ## Loads -/

/-- The sixteen-bit word a little-endian host loads from address `a`. -/
def load16 (mem : ℕ → UInt8) (a : ℕ) : UInt16 := le16 (mem a) (mem (a + 1))

/-- The thirty-two-bit word a little-endian host loads from address `a`. -/
def load32 (mem : ℕ → UInt8) (a : ℕ) : UInt32 :=
  le32 (mem a) (mem (a + 1)) (mem (a + 2)) (mem (a + 3))

theorem Holds.load16_eq {mem : ℕ → UInt8} {a : ℕ} {x : UInt16} (h : Holds mem a (bytesLe16 x)) :
    load16 mem a = x := by
  have h₀ : mem a = x.toUInt8 := h 0 Nat.zero_lt_two
  have h₁ : mem (a + 1) = (x >>> 8).toUInt8 := h 1 Nat.one_lt_two
  rw [load16, h₀, h₁, le16_bytesLe16]

theorem Holds.load32_eq {mem : ℕ → UInt8} {a : ℕ} {x : UInt32} (h : Holds mem a (bytesLe32 x)) :
    load32 mem a = x := by
  have h₀ : mem a = x.toUInt8 := h 0 (show 0 < 4 by decide)
  have h₁ : mem (a + 1) = (x >>> 8).toUInt8 := h 1 (show 1 < 4 by decide)
  have h₂ : mem (a + 2) = (x >>> 16).toUInt8 := h 2 (show 2 < 4 by decide)
  have h₃ : mem (a + 3) = (x >>> 24).toUInt8 := h 3 (show 3 < 4 by decide)
  rw [load32, h₀, h₁, h₂, h₃, le32_bytesLe32]

/-! ## Numbers of type `int` -/

/-- The bytes of an `int`. -/
def intBytes (v : Int32) : List UInt8 := bytesLe32 v.toUInt32

@[simp] theorem length_intBytes (v : Int32) : (intBytes v).length = 4 := rfl

/-- Store an `int`. -/
def storeInt (mem : ℕ → UInt8) (a : ℕ) (v : Int32) : ℕ → UInt8 := overlay a (intBytes v) mem

/-- Load an `int`. -/
def loadInt (mem : ℕ → UInt8) (a : ℕ) : Int32 := (load32 mem a).toInt32

theorem loadInt_congr {mem mem' : ℕ → UInt8} {a : ℕ} (h : ∀ p, a ≤ p → p < a + 4 → mem p = mem' p) :
    loadInt mem a = loadInt mem' a := by
  rw [loadInt, loadInt, load32, load32, h a (by omega) (by omega), h (a + 1) (by omega) (by omega),
    h (a + 2) (by omega) (by omega), h (a + 3) (by omega) (by omega)]

theorem Holds.loadInt_eq {mem : ℕ → UInt8} {a : ℕ} {v : Int32} (h : Holds mem a (intBytes v)) :
    loadInt mem a = v := by
  rw [loadInt, Holds.load32_eq h, Int32.toInt32_toUInt32]

end NatGhost
