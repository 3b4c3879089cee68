import Mathlib.Algebra.Group.Nat.Defs
import Mathlib.Data.List.Induction
import Mathlib.Data.Nat.Notation

/-!
# Bits of a number, most significant first

`bitsMsb n v` are the lowest `n` bits of `v`, most significant first, and `ofBitsMsb` shifts bits
into a number one after another. On `n` bits and numbers below `2 ^ n` they are inverse to each
other. Both are followed at the least significant end, where a step of the one undoes a step of the
other.
-/

namespace NatGhost

/-- The lowest `n` bits of a number, most significant first. -/
def bitsMsb (n v : ℕ) : List ℕ := (List.range n).reverse.map fun i ↦ v >>> i &&& 1

def ofBitsMsb (bits : List ℕ) : ℕ := bits.foldl (fun v b ↦ 2 * v + b) 0

@[simp] theorem length_bitsMsb (n v : ℕ) : (bitsMsb n v).length = n := by
  rw [bitsMsb, List.length_map, List.length_reverse, List.length_range]

theorem lt_two_of_mem_bitsMsb {n v b : ℕ} (h : b ∈ bitsMsb n v) : b < 2 := by
  obtain ⟨i, -, rfl⟩ := List.mem_map.mp h
  rw [Nat.and_one_is_mod]
  exact Nat.mod_lt _ Nat.two_pos

theorem bitsMsb_succ (n v : ℕ) : bitsMsb (n + 1) v = bitsMsb n (v / 2) ++ [v % 2] := by
  rw [bitsMsb, List.range_succ_eq_map, List.reverse_cons, List.map_append, List.map_singleton,
    Nat.shiftRight_zero, Nat.and_one_is_mod, ← List.map_reverse, List.map_map, bitsMsb]
  congr 1
  refine List.map_congr_left fun i _ ↦ ?_
  change v >>> (i + 1) &&& 1 = (v / 2) >>> i &&& 1
  rw [Nat.add_comm, Nat.shiftRight_add]
  rfl

theorem ofBitsMsb_concat (bits : List ℕ) (b : ℕ) :
    ofBitsMsb (bits ++ [b]) = 2 * ofBitsMsb bits + b := by
  rw [ofBitsMsb, List.foldl_append]
  rfl

theorem ofBitsMsb_lt {bits : List ℕ} (h : ∀ b ∈ bits, b < 2) :
    ofBitsMsb bits < 2 ^ bits.length := by
  induction bits using List.reverseRecOn with
  | nil => exact Nat.one_pos
  | append_singleton bits b ih =>
    have hbits := ih fun c hc ↦ h c (List.mem_append_left _ hc)
    have hb : b < 2 := h b (List.mem_append_right _ (List.mem_singleton_self b))
    rw [ofBitsMsb_concat, List.length_append, List.length_singleton, Nat.pow_succ]
    omega

/-- **The bits of a number give the number back.** -/
theorem ofBitsMsb_bitsMsb {n v : ℕ} (h : v < 2 ^ n) : ofBitsMsb (bitsMsb n v) = v := by
  induction n generalizing v with
  | zero =>
    rw [Nat.pow_zero, Nat.lt_one_iff] at h
    rw [h]
    rfl
  | succ n ih =>
    rw [Nat.pow_succ] at h
    rw [bitsMsb_succ, ofBitsMsb_concat, ih (Nat.div_lt_of_lt_mul (by rwa [Nat.mul_comm])),
      Nat.div_add_mod]

/-- **The number gives its bits back.** -/
theorem bitsMsb_ofBitsMsb {bits : List ℕ} (h : ∀ b ∈ bits, b < 2) :
    bitsMsb bits.length (ofBitsMsb bits) = bits := by
  induction bits using List.reverseRecOn with
  | nil => rfl
  | append_singleton bits b ih =>
    have hb : b < 2 := h b (List.mem_append_right _ (List.mem_singleton_self b))
    have hhalf : (2 * ofBitsMsb bits + b) / 2 = ofBitsMsb bits := by omega
    have hparity : (2 * ofBitsMsb bits + b) % 2 = b := by omega
    rw [List.length_append, List.length_singleton, ofBitsMsb_concat, bitsMsb_succ, hhalf, hparity,
      ih fun c hc ↦ h c (List.mem_append_left _ hc)]

end NatGhost
