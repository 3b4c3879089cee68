import NatGhost.Foundation.OnesComplement

/-!
# The two checksum functions

`checksum` of the kernel's `net.c` and `ip_checksum` of `natghost_forge` sum the bytes as
sixteen-bit words in host order, in a 32-bit accumulator, and return the complement. They fold the
carries differently: the first does it twice, the second until none is left.

In ones-complement arithmetic the difference does not show. What a caller needs is the same for both
(`checksum_modEq`, `ipChecksum_modEq`): the checksum and the sum it was computed from add up to a
multiple of 65535.
-/

namespace NatGhost

/-! ## The two functions -/

/-- The summing loop of both checksum functions: words as a little-endian host loads them. -/
def sumWords : List UInt8 → UInt32 → UInt32
  | b₀ :: b₁ :: data, sum => sumWords data (sum + (le16 b₀ b₁).toUInt32)
  | [b], sum => sum + b.toUInt32
  | [], sum => sum

/-- `checksum` of `net.c`: two folds. -/
def checksum (data : List UInt8) : UInt16 :=
  let sum := sumWords data 0
  let sum := (sum >>> 16) + (sum &&& (0xFFFF : UInt32))
  let sum := sum + (sum >>> 16)
  (~~~sum).toUInt16

theorem toNat_shiftRight_sixteen (x : UInt32) : (x >>> 16).toNat = x.toNat / 65536 := by
  rw [UInt32.toNat_shiftRight]
  simp [Nat.shiftRight_eq_div_pow]

theorem toNat_and_low (x : UInt32) : (x &&& (0xFFFF : UInt32)).toNat = x.toNat % 65536 := by
  rw [UInt32.toNat_and]
  exact Nat.and_two_pow_sub_one_eq_mod x.toNat 16

theorem toNat_foldCarry (x : UInt32) :
    ((x &&& (0xFFFF : UInt32)) + (x >>> 16)).toNat = foldCarry x.toNat := by
  have hx := x.toNat_lt
  rw [UInt32.toNat_add, toNat_and_low, toNat_shiftRight_sixteen, foldCarry]
  exact Nat.mod_eq_of_lt (by omega)

theorem toNat_foldCarry_lt {x : UInt32} (h : x >>> 16 ≠ 0) :
    ((x &&& (0xFFFF : UInt32)) + (x >>> 16)).toNat < x.toNat := by
  have hne : x.toNat / 65536 ≠ 0 := fun hzero ↦
    h (UInt32.toNat_inj.mp ((toNat_shiftRight_sixteen x).trans hzero))
  rw [toNat_foldCarry, foldCarry]
  omega

/-- The loop `while (sum >> 16)` of `ip_checksum`. -/
def foldCarries (sum : UInt32) : UInt32 :=
  if sum >>> 16 ≠ 0 then foldCarries ((sum &&& (0xFFFF : UInt32)) + (sum >>> 16)) else sum
termination_by sum.toNat
decreasing_by
  rename_i h
  exact toNat_foldCarry_lt h

/-- `ip_checksum` of `natghost_forge`. -/
def ipChecksum (data : List UInt8) : UInt16 := (~~~(foldCarries (sumWords data 0))).toUInt16

/-! ## What a checksum is -/

theorem toNat_sumWords {data : List UInt8} {sum : UInt32} (h : sum.toNat + leSum data < 2 ^ 32) :
    (sumWords data sum).toNat = sum.toNat + leSum data := by
  induction data, sum using sumWords.induct with
  | case1 b₀ b₁ data sum ih =>
    rw [leSum_cons_cons, ← le16_toNat] at h ⊢
    have hadd : (sum + (le16 b₀ b₁).toUInt32).toNat = sum.toNat + (le16 b₀ b₁).toNat := by
      rw [UInt32.toNat_add, UInt16.toNat_toUInt32]
      exact Nat.mod_eq_of_lt (by omega)
    rw [sumWords, ih (by omega), hadd, Nat.add_assoc]
  | case2 b sum =>
    rw [leSum_singleton] at h ⊢
    rw [sumWords, UInt32.toNat_add, UInt8.toNat_toUInt32]
    exact Nat.mod_eq_of_lt h
  | case3 sum => rfl

theorem toNat_complement (x : UInt32) : (~~~x).toUInt16.toNat = 65535 - x.toNat % 65536 := by
  have hx := x.toNat_lt
  rw [UInt32.toNat_toUInt16, UInt32.toNat_not]
  simp only [UInt32.size]
  omega

theorem toNat_sumWords_zero {data : List UInt8} (h : leSum data < 2 ^ 32) :
    (sumWords data 0).toNat = leSum data := by
  rw [toNat_sumWords (by simpa using h)]
  exact Nat.zero_add _

theorem complement_modEq {w s : ℕ} (hw : w < 65536) (h : w ≡ s [MOD 65535]) :
    65535 - w + s ≡ 0 [MOD 65535] := by
  rw [Nat.ModEq] at h ⊢
  omega

theorem secondFold_modEq {s : ℕ} (h : s ≤ 131070) : (s + s / 65536) % 65536 ≡ s [MOD 65535] := by
  rw [Nat.ModEq]
  rcases Nat.lt_or_ge s 65536 with hlt | hge
  · rw [Nat.div_eq_of_lt hlt, Nat.add_zero, Nat.mod_eq_of_lt hlt]
  · have hcarry : s / 65536 = 1 := by omega
    have hlow : (s + 1) % 65536 = s - 65535 := by omega
    rw [hcarry, hlow]
    omega

theorem checksum_modEq {data : List UInt8} (h : leSum data < 2 ^ 32) :
    (checksum data).toNat + leSum data ≡ 0 [MOD 65535] := by
  have hfirst := toNat_foldCarry (sumWords data 0)
  rw [UInt32.add_comm, toNat_sumWords_zero h] at hfirst
  have hmod := foldCarry_modEq (leSum data)
  have hle : foldCarry (leSum data) ≤ 131070 := by
    rw [foldCarry]
    omega
  rw [← hfirst] at hmod hle
  rw [checksum]
  generalize (sumWords data 0 >>> 16) + (sumWords data 0 &&& (0xFFFF : UInt32)) = first at hmod hle
  have hsecond : (first + (first >>> 16)).toNat = first.toNat + first.toNat / 65536 := by
    rw [UInt32.toNat_add, toNat_shiftRight_sixteen]
    exact Nat.mod_eq_of_lt (by omega)
  rw [toNat_complement, hsecond]
  exact complement_modEq (Nat.mod_lt _ (by decide)) ((secondFold_modEq hle).trans hmod)

theorem foldCarries_spec (sum : UInt32) :
    (foldCarries sum).toNat < 65536 ∧ (foldCarries sum).toNat ≡ sum.toNat [MOD 65535] := by
  induction sum using foldCarries.induct with
  | case1 sum h ih =>
    rw [foldCarries, if_pos h]
    refine ⟨ih.1, ih.2.trans ?_⟩
    rw [toNat_foldCarry]
    exact foldCarry_modEq _
  | case2 sum h =>
    rw [foldCarries, if_neg h]
    refine ⟨?_, Nat.ModEq.rfl⟩
    have hzero := toNat_shiftRight_sixteen sum
    rw [not_not.mp h] at hzero
    change 0 = sum.toNat / 65536 at hzero
    omega

theorem ipChecksum_modEq {data : List UInt8} (h : leSum data < 2 ^ 32) :
    (ipChecksum data).toNat + leSum data ≡ 0 [MOD 65535] := by
  obtain ⟨hlt, hmod⟩ := foldCarries_spec (sumWords data 0)
  rw [toNat_sumWords_zero h] at hmod
  rw [ipChecksum, toNat_complement, Nat.mod_eq_of_lt hlt]
  exact complement_modEq hlt hmod

theorem leSum_lt {data : List UInt8} (h : data.length ≤ 131000) : leSum data < 2 ^ 32 := by
  have := leSum_le data
  omega

end NatGhost
