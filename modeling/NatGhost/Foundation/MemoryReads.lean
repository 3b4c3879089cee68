import NatGhost.Foundation.CText
import NatGhost.Foundation.Memory
import NatGhost.Foundation.ReadTree

/-!
# Reading words and strings from memory

The loads of `Foundation.Memory`, a copy and a comparison as programs that read single bytes. For
each of them there are two facts: the result is that of the load on the same memory, and the cells
it reads. A comparison stops at the first difference, so only a bound for the cells is given there.
-/

namespace NatGhost

namespace ReadTree

def read16 (a : ℕ) : ReadTree ℕ UInt8 UInt16 := do
  let b₀ ← cell a
  let b₁ ← cell (a + 1)
  pure (le16 b₀ b₁)

def read32 (a : ℕ) : ReadTree ℕ UInt8 UInt32 := do
  let b₀ ← cell a
  let b₁ ← cell (a + 1)
  let b₂ ← cell (a + 2)
  let b₃ ← cell (a + 3)
  pure (le32 b₀ b₁ b₂ b₃)

/-- Load an `int`. -/
def readInt (a : ℕ) : ReadTree ℕ UInt8 Int32 := do
  let x ← read32 a
  pure x.toInt32

/-- Copy `n` cells. -/
def readCells {V : Type} (a : ℕ) : ℕ → ReadTree ℕ V (List V)
  | 0 => pure []
  | n + 1 => do
    let x ← cell a
    let xs ← readCells (a + 1) n
    pure (x :: xs)

/-- `strncmp(a, text, n) == 0`. -/
def readStrncmpEq : ℕ → ℕ → (ℕ → UInt8) → ReadTree ℕ UInt8 Bool
  | 0, _, _ => pure true
  | n + 1, a, text => do
    let c ← cell a
    if c = text 0 then
      if c = 0 then pure true else readStrncmpEq n (a + 1) fun i ↦ text (i + 1)
    else pure false

/-! ## Results -/

section

variable (mem : ℕ → UInt8) (a : ℕ)

@[simp] theorem run_read16 : run mem (read16 a) = load16 mem a := rfl

@[simp] theorem run_read32 : run mem (read32 a) = load32 mem a := rfl

@[simp] theorem run_readInt : run mem (readInt a) = loadInt mem a := rfl

@[simp] theorem run_readCells {V : Type} (mem : ℕ → V) (a n : ℕ) :
    run mem (readCells a n) = cellsAt mem a n := by
  induction n generalizing a with
  | zero => rfl
  | succ n ih =>
    have hshift : ∀ i, mem (a + 1 + i) = mem (a + (i + 1)) := fun i ↦ by
      rw [Nat.add_right_comm, Nat.add_assoc]
    rw [readCells, run_bind, run_cell, run_bind, ih, run_pure, cellsAt, cellsAt,
      List.range_succ_eq_map, List.map_cons, List.map_map, Nat.add_zero]
    simp only [hshift]
    rfl

@[simp] theorem run_readStrncmpEq (n : ℕ) (text : ℕ → UInt8) :
    run mem (readStrncmpEq n a text) = strncmpEq n (fun i ↦ mem (a + i)) text := by
  induction n generalizing a text with
  | zero => rfl
  | succ n ih =>
    have hshift : (fun i ↦ mem (a + 1 + i)) = fun i ↦ mem (a + (i + 1)) := by
      funext i
      rw [Nat.add_right_comm, Nat.add_assoc]
    rw [readStrncmpEq, strncmpEq, run_bind, run_cell]
    simp only [Nat.add_zero]
    by_cases hsame : mem a = text 0
    · rw [if_pos hsame, beq_iff_eq.mpr hsame, Bool.true_and]
      by_cases hzero : mem a = 0
      · rw [if_pos hzero, beq_iff_eq.mpr hzero, Bool.true_or]
        rfl
      · rw [if_neg hzero, beq_eq_false_iff_ne.mpr hzero, Bool.false_or, ih, hshift]
    · rw [if_neg hsame, beq_eq_false_iff_ne.mpr hsame, Bool.false_and]
      rfl

/-! ## Cells read -/

@[simp] theorem reads_read16 : reads mem (read16 a) = [a, a + 1] := rfl

@[simp] theorem reads_read32 : reads mem (read32 a) = [a, a + 1, a + 2, a + 3] := rfl

@[simp] theorem reads_readInt : reads mem (readInt a) = [a, a + 1, a + 2, a + 3] := rfl

@[simp] theorem reads_readCells {V : Type} (mem : ℕ → V) (a n : ℕ) :
    reads mem (readCells a n) = List.range' a n := by
  induction n generalizing a with
  | zero => rfl
  | succ n ih =>
    rw [readCells, reads_bind, reads_cell, reads_bind, ih, reads_pure, List.append_nil,
      List.range'_succ]
    rfl

theorem lt_of_mem_reads_readStrncmpEq {n : ℕ} {text : ℕ → UInt8} {x : ℕ}
    (h : x ∈ reads mem (readStrncmpEq n a text)) : x < a + n := by
  induction n generalizing a text with
  | zero => exact absurd h List.not_mem_nil
  | succ n ih =>
    rw [readStrncmpEq, reads_bind, reads_cell, run_cell, List.mem_append, List.mem_singleton] at h
    rcases h with rfl | h
    · exact Nat.lt_add_of_pos_right (Nat.succ_pos n)
    · split_ifs at h
      · exact absurd h List.not_mem_nil
      · have hrest := ih (a + 1) h
        omega
      · exact absurd h List.not_mem_nil

end

end ReadTree

end NatGhost
