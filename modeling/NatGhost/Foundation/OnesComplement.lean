import Mathlib.Algebra.BigOperators.Group.List.Basic
import Mathlib.Data.Nat.ModEq
import Mathlib.Tactic.Ring
import NatGhost.Foundation.Words

/-!
# Ones-complement sums

The Internet checksum adds sixteen-bit words in ones-complement arithmetic: a carry out of the top
is added back at the bottom. Modulo 65535 that is ordinary addition, and the only other thing to
know is that a sum of words is zero only if every word is, so a sum that is a multiple of 65535 and
not zero is exactly 65535.

A string of bytes is summed as words in network order by a receiver, and as words in host order by
code that loads words from memory. On a little-endian host the two sums differ by a factor of 256
modulo 65535, which is a unit, so they are multiples of 65535 together.
-/

namespace NatGhost

/-! ## End-around carry -/

/-- Add the carry of a sum back to its low sixteen bits. -/
def foldCarry (s : ℕ) : ℕ := s % 65536 + s / 65536

def onesSum (ws : List ℕ) : ℕ := ws.foldl (fun sum w ↦ foldCarry (sum + w)) 0

theorem foldCarry_modEq (s : ℕ) : foldCarry s ≡ s [MOD 65535] := by
  have hsplit := Nat.mod_add_div s 65536
  rw [Nat.ModEq, foldCarry]
  omega

theorem foldCarry_eq_zero {s : ℕ} : foldCarry s = 0 ↔ s = 0 := by
  rw [foldCarry]
  omega

theorem foldCarry_lt {a b : ℕ} (ha : a < 65536) (hb : b < 65536) : foldCarry (a + b) < 65536 := by
  rw [foldCarry]
  omega

/-- **Residue and zero.** A word is determined by its residue modulo 65535 and by whether it is
zero. -/
theorem word_eq_of_modEq {a b : ℕ} (ha : a < 65536) (hb : b < 65536) (h : a ≡ b [MOD 65535])
    (hzero : a = 0 ↔ b = 0) : a = b := by
  rw [Nat.ModEq] at h
  omega

private theorem onesSum_loop (ws : List ℕ) (hws : ∀ w ∈ ws, w < 65536) {s : ℕ}
    (hsum : s < 65536) :
    ws.foldl (fun sum w ↦ foldCarry (sum + w)) s < 65536 ∧
      ws.foldl (fun sum w ↦ foldCarry (sum + w)) s ≡ s + ws.sum [MOD 65535] ∧
      (ws.foldl (fun sum w ↦ foldCarry (sum + w)) s = 0 ↔ s + ws.sum = 0) := by
  induction ws generalizing s with
  | nil => exact ⟨hsum, Nat.ModEq.rfl, Iff.rfl⟩
  | cons w ws ih =>
    have hw := hws w List.mem_cons_self
    obtain ⟨hlt, hmod, hzero⟩ := ih (fun v hv ↦ hws v (List.mem_cons_of_mem w hv))
      (foldCarry_lt hsum hw)
    rw [List.foldl_cons, List.sum_cons, ← Nat.add_assoc]
    refine ⟨hlt, hmod.trans ((foldCarry_modEq _).add_right _), hzero.trans ?_⟩
    rw [Nat.add_eq_zero_iff, foldCarry_eq_zero, ← Nat.add_eq_zero_iff]

section

variable {ws : List ℕ} (hws : ∀ w ∈ ws, w < 65536)
include hws

theorem onesSum_lt : onesSum ws < 65536 := (onesSum_loop ws hws (by decide)).1

theorem onesSum_modEq : onesSum ws ≡ ws.sum [MOD 65535] := by
  have h := (onesSum_loop ws hws (s := 0) (by decide)).2.1
  rwa [Nat.zero_add] at h

theorem onesSum_eq_zero : onesSum ws = 0 ↔ ws.sum = 0 := by
  have h := (onesSum_loop ws hws (s := 0) (by decide)).2.2
  rwa [Nat.zero_add] at h

theorem eq_onesSum {w : ℕ} (hw : w < 65536) (hmod : w ≡ ws.sum [MOD 65535])
    (hzero : w = 0 ↔ ws.sum = 0) : w = onesSum ws :=
  word_eq_of_modEq hw (onesSum_lt hws) (hmod.trans (onesSum_modEq hws).symm)
    (hzero.trans (onesSum_eq_zero hws).symm)

/-- **A ones-complement sum is all ones** if the ordinary sum is a multiple of 65535 and not
zero. -/
theorem onesSum_eq (hmod : ws.sum ≡ 0 [MOD 65535]) (hpos : 0 < ws.sum) : onesSum ws = 65535 := by
  refine (eq_onesSum hws (by decide) ?_ ?_).symm
  · exact Nat.ModEq.symm hmod
  · exact iff_of_false (by decide) hpos.ne'

theorem onesSum_eq_iff : onesSum ws = 65535 ↔ 65535 ∣ ws.sum ∧ 0 < ws.sum := by
  constructor
  · intro h
    refine ⟨?_, Nat.pos_of_ne_zero fun hzero ↦ ?_⟩
    · have hmod := onesSum_modEq hws
      rw [h] at hmod
      exact Nat.modEq_zero_iff_dvd.mp hmod.symm
    · rw [(onesSum_eq_zero hws).mpr hzero] at h
      exact absurd h (by decide)
  · rintro ⟨hdvd, hpos⟩
    exact onesSum_eq hws (Nat.modEq_zero_iff_dvd.mpr hdvd) hpos

end

/-! ## Bytes as words -/

/-- The words of a byte string in network order, padded with a zero byte if its length is odd. -/
def beWords : List UInt8 → List ℕ
  | b₀ :: b₁ :: bytes => (be16 b₀ b₁).toNat :: beWords bytes
  | [b₀] => [(be16 b₀ 0).toNat]
  | [] => []

/-- The words a little-endian host loads; an odd byte at the end counts as itself. -/
def leWords : List UInt8 → List ℕ
  | b₀ :: b₁ :: bytes => (le16 b₀ b₁).toNat :: leWords bytes
  | [b₀] => [b₀.toNat]
  | [] => []

def leSum (bytes : List UInt8) : ℕ := (leWords bytes).sum

@[simp] theorem leSum_nil : leSum [] = 0 := rfl

@[simp] theorem leSum_cons_cons (b₀ b₁ : UInt8) (bytes : List UInt8) :
    leSum (b₀ :: b₁ :: bytes) = b₀.toNat + b₁.toNat * 256 + leSum bytes := by
  rw [leSum, leWords, List.sum_cons, le16_toNat]
  rfl

@[simp] theorem leSum_singleton (b₀ : UInt8) : leSum [b₀] = b₀.toNat := by
  rw [leSum, leWords, List.sum_singleton]

theorem leSum_append {bytes : List UInt8} (h : bytes.length % 2 = 0) (rest : List UInt8) :
    leSum (bytes ++ rest) = leSum bytes + leSum rest := by
  induction bytes using leWords.induct with
  | case1 b₀ b₁ bytes ih =>
    rw [List.length_cons, List.length_cons] at h
    rw [List.cons_append, List.cons_append, leSum_cons_cons, leSum_cons_cons, ih (by omega),
      Nat.add_assoc (b₀.toNat + b₁.toNat * 256)]
  | case2 b₀ => exact absurd h (by simp)
  | case3 => simp

theorem leSum_le (bytes : List UInt8) : leSum bytes ≤ 65535 * ((bytes.length + 1) / 2) := by
  induction bytes using leWords.induct with
  | case1 b₀ b₁ bytes ih =>
    have h₀ := b₀.toNat_lt
    have h₁ := b₁.toNat_lt
    rw [leSum_cons_cons, List.length_cons, List.length_cons]
    omega
  | case2 b₀ =>
    have h₀ := b₀.toNat_lt
    rw [leSum_singleton, List.length_singleton]
    omega
  | case3 => simp

theorem lt_of_mem_beWords {bytes : List UInt8} {w : ℕ} (h : w ∈ beWords bytes) : w < 65536 := by
  induction bytes using beWords.induct with
  | case1 b₀ b₁ bytes ih =>
    rcases List.mem_cons.mp h with rfl | h
    · exact (be16 b₀ b₁).toNat_lt
    · exact ih h
  | case2 b₀ =>
    rw [List.mem_singleton.mp h]
    exact (be16 b₀ 0).toNat_lt
  | case3 => exact absurd h List.not_mem_nil

/-- **Network order and host order.** Exchanging the bytes of a word multiplies it by 256. -/
theorem sum_beWords_modEq (bytes : List UInt8) :
    (beWords bytes).sum ≡ 256 * leSum bytes [MOD 65535] := by
  induction bytes using beWords.induct with
  | case1 b₀ b₁ bytes ih =>
    rw [beWords, List.sum_cons, leSum_cons_cons, Nat.mul_add, be16_toNat]
    refine Nat.ModEq.add ?_ ih
    rw [Nat.ModEq]
    omega
  | case2 b₀ =>
    rw [beWords, List.sum_singleton, leSum_singleton, be16_toNat, Nat.mul_comm]
    exact Nat.ModEq.rfl
  | case3 => exact Nat.ModEq.rfl

theorem sum_beWords_pos {bytes : List UInt8} {b : UInt8} (hb : b ∈ bytes) (hne : b ≠ 0) :
    0 < (beWords bytes).sum := by
  have hpos : 0 < b.toNat := Nat.pos_of_ne_zero fun h ↦ hne (UInt8.toNat_inj.mp h)
  induction bytes using beWords.induct with
  | case1 b₀ b₁ bytes ih =>
    rw [beWords, List.sum_cons, be16_toNat]
    rcases List.mem_cons.mp hb with rfl | hb
    · omega
    · rcases List.mem_cons.mp hb with rfl | hb
      · omega
      · have := ih hb
        omega
  | case2 b₀ =>
    obtain rfl := List.mem_singleton.mp hb
    rw [beWords, List.sum_singleton, be16_toNat]
    omega
  | case3 => exact absurd hb List.not_mem_nil

theorem beWords_append {bytes : List UInt8} (h : bytes.length % 2 = 0) (rest : List UInt8) :
    beWords (bytes ++ rest) = beWords bytes ++ beWords rest := by
  induction bytes using beWords.induct with
  | case1 b₀ b₁ bytes ih =>
    rw [List.length_cons, List.length_cons] at h
    rw [List.cons_append, List.cons_append, beWords, beWords, ih (by omega), List.cons_append]
  | case2 b₀ => exact absurd h (by simp)
  | case3 => rfl

theorem beWords_bytesBe16 (x : UInt16) : beWords (bytesBe16 x) = [x.toNat] := by
  rw [bytesBe16, beWords, be16_bytesBe16, beWords]

theorem lt_of_mem_leWords {bytes : List UInt8} {w : ℕ} (h : w ∈ leWords bytes) : w < 65536 := by
  induction bytes using leWords.induct with
  | case1 b₀ b₁ bytes ih =>
    rcases List.mem_cons.mp h with rfl | h
    · exact (le16 b₀ b₁).toNat_lt
    · exact ih h
  | case2 b₀ =>
    rw [List.mem_singleton.mp h]
    exact b₀.toNat_lt.trans (by decide)
  | case3 => exact absurd h List.not_mem_nil

/-- **Verification.** A byte string whose sum in host order is a multiple of 65535, and which is not
all zero, has the ones-complement sum a receiver expects. -/
theorem onesSum_beWords_eq {bytes : List UInt8} (hmod : leSum bytes ≡ 0 [MOD 65535]) {b : UInt8}
    (hb : b ∈ bytes) (hne : b ≠ 0) : onesSum (beWords bytes) = 65535 :=
  onesSum_eq (fun _ hw ↦ lt_of_mem_beWords hw)
    ((sum_beWords_modEq bytes).trans (hmod.mul_left 256)) (sum_beWords_pos hb hne)

/-! ## Byte order -/

def swapBytes (w : ℕ) : ℕ := w % 256 * 256 + w / 256

theorem swapBytes_lt {w : ℕ} (h : w < 65536) : swapBytes w < 65536 := by
  rw [swapBytes]
  omega

theorem swapBytes_eq_zero {w : ℕ} : swapBytes w = 0 ↔ w = 0 := by
  rw [swapBytes]
  omega

theorem swapBytes_swapBytes {w : ℕ} (h : w < 65536) : swapBytes (swapBytes w) = w := by
  rw [swapBytes, swapBytes]
  omega

theorem swapBytes_modEq (w : ℕ) : swapBytes w ≡ 256 * w [MOD 65535] := by
  have hsplit := Nat.mod_add_div w 256
  rw [Nat.ModEq, swapBytes]
  omega

theorem swapBytes_complement {w : ℕ} (h : w < 65536) :
    swapBytes (65535 - w) = 65535 - swapBytes w := by
  rw [swapBytes, swapBytes]
  omega

theorem toNat_htons (x : UInt16) : (htons x).toNat = swapBytes x.toNat := by
  have hx := x.toNat_lt
  rw [htons, le16_toNat, UInt16.toNat_toUInt8, UInt16.toNat_toUInt8,
    UInt16.toNat_shiftRight, swapBytes, Nat.add_comm]
  simp only [UInt16.reduceToNat, Nat.reduceMod, Nat.shiftRight_eq_div_pow]
  omega

theorem sum_beWords_eq_zero {bytes : List UInt8} : (beWords bytes).sum = 0 ↔ leSum bytes = 0 := by
  induction bytes using beWords.induct with
  | case1 b₀ b₁ bytes ih =>
    rw [beWords, List.sum_cons, leSum_cons_cons, be16_toNat, Nat.add_eq_zero_iff, ih]
    omega
  | case2 b₀ =>
    rw [beWords, List.sum_singleton, leSum_singleton, be16_toNat]
    change b₀.toNat * 256 + 0 = 0 ↔ _
    omega
  | case3 => exact Iff.rfl

/-- **Byte order does not matter** in ones-complement arithmetic: the sum over a string in the other
byte order is the same sum with its bytes exchanged. -/
theorem onesSum_beWords (bytes : List UInt8) :
    onesSum (beWords bytes) = swapBytes (onesSum (leWords bytes)) := by
  have hle : ∀ w ∈ leWords bytes, w < 65536 := fun _ ↦ lt_of_mem_leWords
  refine (eq_onesSum (fun _ ↦ lt_of_mem_beWords) (swapBytes_lt (onesSum_lt hle)) ?_ ?_).symm
  · calc swapBytes (onesSum (leWords bytes))
        ≡ 256 * onesSum (leWords bytes) [MOD 65535] := swapBytes_modEq _
      _ ≡ 256 * leSum bytes [MOD 65535] := (onesSum_modEq hle).mul_left 256
      _ ≡ (beWords bytes).sum [MOD 65535] := (sum_beWords_modEq bytes).symm
  · rw [swapBytes_eq_zero, onesSum_eq_zero hle, sum_beWords_eq_zero, leSum]

end NatGhost
