import Mathlib.Data.List.Range

/-!
# Chunks of equal size

The numbers from `a` on, cut into chunks of `size` numbers each: `chunk a size i` is chunk number
`i`. A number lies in one chunk at most, and the first `k` chunks one behind the other are the first
`k * size` numbers.
-/

namespace NatGhost

/-- The numbers `a + i * size, …, a + (i + 1) * size - 1`. -/
def chunk (a size i : ℕ) : List ℕ := List.range' (a + i * size) size

variable {a size i j p : ℕ}

theorem mem_chunk : p ∈ chunk a size i ↔ a + i * size ≤ p ∧ p < a + (i + 1) * size := by
  rw [chunk, List.mem_range'_1, Nat.succ_mul, Nat.add_assoc]

theorem nodup_chunk : (chunk a size i).Nodup := List.nodup_range'

theorem length_chunk : (chunk a size i).length = size := List.length_range'

theorem chunk_end_le (h : i < j) : a + (i + 1) * size ≤ a + j * size :=
  Nat.add_le_add_left (Nat.mul_le_mul_right size h) a

/-- **Chunks are disjoint.** -/
theorem chunk_unique (hi : p ∈ chunk a size i) (hj : p ∈ chunk a size j) : i = j := by
  rw [mem_chunk] at hi hj
  rcases Nat.lt_trichotomy i j with h | h | h
  · exact absurd (hi.2.trans_le (chunk_end_le h)) (Nat.not_lt.mpr hj.1)
  · exact h
  · exact absurd (hj.2.trans_le (chunk_end_le h)) (Nat.not_lt.mpr hi.1)

theorem mem_chunk_div (hsize : 0 < size) (hp : a ≤ p) : p ∈ chunk a size ((p - a) / size) := by
  have hle := Nat.div_mul_le_self (p - a) size
  have hlt := Nat.lt_mul_div_succ (p - a) hsize
  rw [Nat.mul_comm] at hlt
  rw [mem_chunk]
  omega

/-- **Chunks one behind the other.** -/
theorem flatMap_chunk (a size k : ℕ) :
    (List.range k).flatMap (chunk a size) = List.range' a (k * size) := by
  induction k with
  | zero => rw [Nat.zero_mul]; rfl
  | succ k ih =>
    rw [List.range_succ, List.flatMap_append, ih, List.flatMap_singleton, chunk,
      List.range'_append_1, Nat.succ_mul]

end NatGhost
