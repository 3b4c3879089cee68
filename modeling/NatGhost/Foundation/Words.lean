import Mathlib.Data.Nat.Bits
import Mathlib.Data.UInt
import Mathlib.Tactic.Linarith

/-!
# Words in byte memory

Sixteen- and thirty-two-bit words, the bytes they occupy in memory in either byte order, and the
two byte-order conversions of the sockets library on a little-endian host.

A word is loaded by shifting its bytes into place and joining them with `|||`, the way the C
expressions do it; `be16_toNat` and `le16_toNat` turn that into arithmetic once, and nothing
downstream looks at bits again except through `le32_xor`.
-/

namespace NatGhost

/-! ## Loads and stores -/

/-- The word whose big-endian bytes are `hi`, `lo`. -/
def be16 (hi lo : UInt8) : UInt16 := (hi.toUInt16 <<< 8) ||| lo.toUInt16

/-- The word a little-endian host loads from the bytes `b₀`, `b₁`. -/
def le16 (b₀ b₁ : UInt8) : UInt16 := b₀.toUInt16 ||| (b₁.toUInt16 <<< 8)

/-- The word a little-endian host loads from four bytes. -/
def le32 (b₀ b₁ b₂ b₃ : UInt8) : UInt32 :=
  b₀.toUInt32 ||| (b₁.toUInt32 <<< 8) ||| (b₂.toUInt32 <<< 16) ||| (b₃.toUInt32 <<< 24)

def bytesBe16 (x : UInt16) : List UInt8 := [(x >>> 8).toUInt8, x.toUInt8]

/-- The bytes a little-endian host stores for a sixteen-bit word. -/
def bytesLe16 (x : UInt16) : List UInt8 := [x.toUInt8, (x >>> 8).toUInt8]

def bytesBe32 (x : UInt32) : List UInt8 :=
  [(x >>> 24).toUInt8, (x >>> 16).toUInt8, (x >>> 8).toUInt8, x.toUInt8]

/-- The bytes a little-endian host stores for a thirty-two-bit word. -/
def bytesLe32 (x : UInt32) : List UInt8 :=
  [x.toUInt8, (x >>> 8).toUInt8, (x >>> 16).toUInt8, (x >>> 24).toUInt8]

/-! ## Byte order conversion -/

/-- Host to network order, on a little-endian host. -/
def htons (x : UInt16) : UInt16 := le16 (x >>> 8).toUInt8 x.toUInt8

def htonl (x : UInt32) : UInt32 :=
  le32 (x >>> 24).toUInt8 (x >>> 16).toUInt8 (x >>> 8).toUInt8 x.toUInt8

def ntohs (x : UInt16) : UInt16 := htons x

def ntohl (x : UInt32) : UInt32 := htonl x

/-! ## Words as numbers -/

theorem be16_toNat (hi lo : UInt8) : (be16 hi lo).toNat = hi.toNat * 256 + lo.toNat := by
  have hhi := hi.toNat_lt
  have hlo := lo.toNat_lt
  have hshift : (hi.toUInt16 <<< 8).toNat = hi.toNat <<< 8 := by
    simp only [UInt16.toNat_shiftLeft, UInt8.toNat_toUInt16, UInt16.reduceToNat, Nat.reduceMod,
      Nat.shiftLeft_eq]
    exact Nat.mod_eq_of_lt (by omega)
  rw [be16, UInt16.toNat_or, hshift, UInt8.toNat_toUInt16, ← Nat.shiftLeft_add_eq_or_of_lt hlo,
    Nat.shiftLeft_eq]

theorem le16_eq_be16 (b₀ b₁ : UInt8) : le16 b₀ b₁ = be16 b₁ b₀ := UInt16.or_comm _ _

theorem le16_toNat (b₀ b₁ : UInt8) : (le16 b₀ b₁).toNat = b₀.toNat + b₁.toNat * 256 := by
  rw [le16_eq_be16, be16_toNat, Nat.add_comm]

theorem or_shiftLeft {a k : ℕ} (h : a < 2 ^ k) (b : ℕ) : a ||| b <<< k = a + b * 2 ^ k := by
  rw [Nat.or_comm, ← Nat.shiftLeft_add_eq_or_of_lt h, Nat.shiftLeft_eq, Nat.add_comm]

theorem toNat_byte_shiftLeft (b : UInt8) {k : UInt32} (h : k.toNat ≤ 24) :
    (b.toUInt32 <<< k).toNat = b.toNat <<< k.toNat := by
  have hlt : b.toNat <<< k.toNat < 2 ^ 32 := by
    rw [Nat.shiftLeft_eq]
    calc b.toNat * 2 ^ k.toNat < 2 ^ 8 * 2 ^ k.toNat :=
          Nat.mul_lt_mul_of_pos_right b.toNat_lt (Nat.two_pow_pos _)
      _ ≤ 2 ^ 8 * 2 ^ 24 := Nat.mul_le_mul_left _ (Nat.pow_le_pow_right (by decide) h)
      _ = 2 ^ 32 := by norm_num
  rw [UInt32.toNat_shiftLeft, UInt8.toNat_toUInt32,
    Nat.mod_eq_of_lt (Nat.lt_of_le_of_lt h (by decide)), Nat.mod_eq_of_lt hlt]

theorem le32_toNat (b₀ b₁ b₂ b₃ : UInt8) :
    (le32 b₀ b₁ b₂ b₃).toNat
      = b₀.toNat + b₁.toNat * 2 ^ 8 + b₂.toNat * 2 ^ 16 + b₃.toNat * 2 ^ 24 := by
  have h₀ := b₀.toNat_lt
  have h₁ := b₁.toNat_lt
  have h₂ := b₂.toNat_lt
  rw [le32, UInt32.toNat_or, UInt32.toNat_or, UInt32.toNat_or, UInt8.toNat_toUInt32,
    toNat_byte_shiftLeft _ (by decide), toNat_byte_shiftLeft _ (by decide),
    toNat_byte_shiftLeft _ (by decide)]
  change ((b₀.toNat ||| b₁.toNat <<< 8) ||| b₂.toNat <<< 16) ||| b₃.toNat <<< 24 = _
  have hlow : b₀.toNat ||| b₁.toNat <<< 8 = b₀.toNat + b₁.toNat * 2 ^ 8 := or_shiftLeft h₀ _
  have hmid : b₀.toNat + b₁.toNat * 2 ^ 8 ||| b₂.toNat <<< 16
      = b₀.toNat + b₁.toNat * 2 ^ 8 + b₂.toNat * 2 ^ 16 := or_shiftLeft (by omega) _
  rw [hlow, hmid, or_shiftLeft (by omega)]

/-- Network-order bytes read back as the word they came from. -/
@[simp] theorem be16_bytesBe16 (x : UInt16) : be16 (x >>> 8).toUInt8 x.toUInt8 = x := by
  apply UInt16.toNat_inj.mp
  have hx := x.toNat_lt
  rw [be16_toNat, UInt16.toNat_toUInt8, UInt16.toNat_toUInt8, UInt16.toNat_shiftRight]
  simp only [UInt16.reduceToNat, Nat.reduceMod, Nat.shiftRight_eq_div_pow]
  omega

theorem bytesBe16_eq_zero {x : UInt16} : bytesBe16 x = [0, 0] ↔ x = 0 := by
  constructor
  · intro h
    rw [bytesBe16, List.cons.injEq, List.cons.injEq] at h
    rw [← be16_bytesBe16 x, h.1, h.2.1]
    rfl
  · rintro rfl
    rfl

/-! ## Stores after loads -/

@[simp] theorem bytesLe16_le16 (b₀ b₁ : UInt8) : bytesLe16 (le16 b₀ b₁) = [b₀, b₁] := by
  simp only [bytesLe16, List.cons.injEq, and_true]
  constructor <;> apply UInt8.toBitVec_inj.mp <;> ext i hi <;> simp [le16]
  grind

@[simp] theorem bytesLe32_le32 (b₀ b₁ b₂ b₃ : UInt8) :
    bytesLe32 (le32 b₀ b₁ b₂ b₃) = [b₀, b₁, b₂, b₃] := by
  simp only [bytesLe32, List.cons.injEq, and_true]
  refine ⟨?_, ?_, ?_, ?_⟩ <;> apply UInt8.toBitVec_inj.mp <;> ext i hi <;> simp [le32] <;> grind

theorem bytesLe16_eq_zero {x : UInt16} : bytesLe16 x = [0, 0] ↔ x = 0 := by
  rw [← bytesBe16_eq_zero, bytesLe16, bytesBe16, List.cons.injEq, List.cons.injEq, List.cons.injEq,
    List.cons.injEq, and_left_comm]

@[simp] theorem bytesLe16_htons (x : UInt16) : bytesLe16 (htons x) = bytesBe16 x :=
  bytesLe16_le16 _ _

@[simp] theorem bytesLe32_htonl (x : UInt32) : bytesLe32 (htonl x) = bytesBe32 x :=
  bytesLe32_le32 _ _ _ _

/-! ## Loads after stores -/

@[simp] theorem le16_bytesLe16 (x : UInt16) : le16 x.toUInt8 (x >>> 8).toUInt8 = x := by
  rw [le16_eq_be16, be16_bytesBe16]

@[simp] theorem le32_bytesLe32 (x : UInt32) :
    le32 x.toUInt8 (x >>> 8).toUInt8 (x >>> 16).toUInt8 (x >>> 24).toUInt8 = x := by
  apply UInt32.toNat_inj.mp
  have hx := x.toNat_lt
  rw [le32_toNat]
  simp only [UInt32.toNat_toUInt8, UInt32.toNat_shiftRight, UInt32.reduceToNat, Nat.reduceMod,
    Nat.shiftRight_eq_div_pow]
  omega

@[simp] theorem ntohs_htons (x : UInt16) : ntohs (htons x) = x := by
  have hbytes := bytesLe16_le16 (x >>> 8).toUInt8 x.toUInt8
  rw [bytesLe16, List.cons.injEq, List.cons.injEq] at hbytes
  rw [ntohs, htons, htons, hbytes.1, hbytes.2.1, le16_bytesLe16]

@[simp] theorem ntohl_htonl (x : UInt32) : ntohl (htonl x) = x := by
  have hbytes := bytesLe32_le32 (x >>> 24).toUInt8 (x >>> 16).toUInt8 (x >>> 8).toUInt8 x.toUInt8
  rw [bytesLe32, List.cons.injEq, List.cons.injEq, List.cons.injEq, List.cons.injEq] at hbytes
  rw [ntohl, htonl, htonl, hbytes.1, hbytes.2.1, hbytes.2.2.1, hbytes.2.2.2.1, le32_bytesLe32]

theorem ntohs_le16 (b₀ b₁ : UInt8) : ntohs (le16 b₀ b₁) = be16 b₀ b₁ := by
  have hbytes := bytesLe16_le16 b₀ b₁
  rw [bytesLe16, List.cons.injEq, List.cons.injEq] at hbytes
  rw [ntohs, htons, hbytes.1, hbytes.2.1, le16_eq_be16]

theorem le16_xor (a₀ a₁ b₀ b₁ : UInt8) :
    le16 a₀ a₁ ^^^ le16 b₀ b₁ = le16 (a₀ ^^^ b₀) (a₁ ^^^ b₁) := by
  apply UInt16.toBitVec_inj.mp
  ext i hi
  simp only [le16, UInt16.toBitVec_xor, UInt16.toBitVec_or, UInt16.toBitVec_shiftLeft,
    UInt8.toBitVec_toUInt16, UInt8.toBitVec_xor]
  simp
  grind

theorem be16_xor (a₀ a₁ b₀ b₁ : UInt8) :
    be16 a₀ a₁ ^^^ be16 b₀ b₁ = be16 (a₀ ^^^ b₀) (a₁ ^^^ b₁) := by
  rw [← le16_eq_be16, ← le16_eq_be16, ← le16_eq_be16, le16_xor]

theorem le32_xor (a₀ a₁ a₂ a₃ b₀ b₁ b₂ b₃ : UInt8) :
    le32 a₀ a₁ a₂ a₃ ^^^ le32 b₀ b₁ b₂ b₃
      = le32 (a₀ ^^^ b₀) (a₁ ^^^ b₁) (a₂ ^^^ b₂) (a₃ ^^^ b₃) := by
  apply UInt32.toBitVec_inj.mp
  ext i hi
  simp only [le32, UInt32.toBitVec_xor, UInt32.toBitVec_or, UInt32.toBitVec_shiftLeft,
    UInt8.toBitVec_toUInt32, UInt8.toBitVec_xor]
  simp
  grind

/-! ## Lengths -/

@[simp] theorem length_bytesBe16 (x : UInt16) : (bytesBe16 x).length = 2 := rfl

@[simp] theorem length_bytesLe16 (x : UInt16) : (bytesLe16 x).length = 2 := rfl

@[simp] theorem length_bytesBe32 (x : UInt32) : (bytesBe32 x).length = 4 := rfl

@[simp] theorem length_bytesLe32 (x : UInt32) : (bytesLe32 x).length = 4 := rfl

end NatGhost
