import Mathlib.Data.List.GetD
import NatGhost.Foundation.CText
import NatGhost.Foundation.Words

/-!
# STUN datagrams on the wire

The twenty-byte header, the attribute list behind it, and the XOR-MAPPED-ADDRESS attribute a server
answers with. This is the format as a sender writes it; what the receiver makes of arbitrary bytes
is `NatGhost.Stun.XorMapped`.

An `Attribute` carries the two facts that make its encoding readable: its length fits the
sixteen-bit length field, and its padding brings it to a multiple of four. The padding bytes are
otherwise arbitrary, as is every attribute type, so a list of attributes may well contain bytes that
look like an attribute header inside a value or inside padding.
-/

namespace NatGhost

/-- `MAGIC_COOKIE`. -/
def magicCookie : UInt32 := 0x2112A442

/-- `STUN_PKT_LEN`, the length of a STUN header. -/
def stunPktLen : ℕ := 20

/-! ## Printed addresses -/

/-- Four address bytes in the usual notation. -/
def dottedQuad (b₀ b₁ b₂ b₃ : UInt8) : String :=
  b₀.toNat.repr ++ "." ++ b₁.toNat.repr ++ "." ++ b₂.toNat.repr ++ "." ++ b₃.toNat.repr

/-- `inet_ntop(AF_INET, …)` prints the four bytes a `struct in_addr` occupies in memory. -/
def inetNtop (sAddr : UInt32) : String :=
  dottedQuad sAddr.toUInt8 (sAddr >>> 8).toUInt8 (sAddr >>> 16).toUInt8 (sAddr >>> 24).toUInt8

theorem inetNtop_le32 (b₀ b₁ b₂ b₃ : UInt8) :
    inetNtop (le32 b₀ b₁ b₂ b₃) = dottedQuad b₀ b₁ b₂ b₃ := by
  have h := bytesLe32_le32 b₀ b₁ b₂ b₃
  simp only [bytesLe32, List.cons.injEq, and_true] at h
  rw [inetNtop, h.1, h.2.1, h.2.2.1, h.2.2.2]

theorem toList_dottedQuad (b₀ b₁ b₂ b₃ : UInt8) :
    (dottedQuad b₀ b₁ b₂ b₃).toList
      = Nat.toDigits 10 b₀.toNat ++ ['.'] ++ Nat.toDigits 10 b₁.toNat ++ ['.']
        ++ Nat.toDigits 10 b₂.toNat ++ ['.'] ++ Nat.toDigits 10 b₃.toNat := by
  simp [dottedQuad]

theorem dottedQuad_ne_empty (b₀ b₁ b₂ b₃ : UInt8) : dottedQuad b₀ b₁ b₂ b₃ ≠ "" := by
  intro h
  have hlist := congrArg String.toList h
  rw [toList_dottedQuad] at hlist
  simp at hlist

theorem mem_toList_dottedQuad {b₀ b₁ b₂ b₃ : UInt8} {c : Char}
    (h : c ∈ (dottedQuad b₀ b₁ b₂ b₃).toList) : c.isDigit = true ∨ c = '.' := by
  have hdigit : ∀ k, c ∈ Nat.toDigits 10 k → c.isDigit = true := fun k hc ↦
    Nat.isDigit_of_mem_toDigits (by decide) (by decide) hc
  rw [toList_dottedQuad] at h
  simp only [List.mem_append, List.mem_singleton] at h
  rcases h with (((((h | h) | h) | h) | h) | h) | h
  · exact Or.inl (hdigit _ h)
  · exact Or.inr h
  · exact Or.inl (hdigit _ h)
  · exact Or.inr h
  · exact Or.inl (hdigit _ h)
  · exact Or.inr h
  · exact Or.inl (hdigit _ h)

theorem length_toDigits_le {k digits : ℕ} (hdigits : 0 < digits) (h : k < 10 ^ digits) :
    (Nat.toDigits 10 k).length ≤ digits := (Nat.length_toDigits_le_iff (by decide) hdigits).mpr h

theorem length_toList_dottedQuad_le (b₀ b₁ b₂ b₃ : UInt8) :
    (dottedQuad b₀ b₁ b₂ b₃).toList.length ≤ 15 := by
  have hbyte : ∀ b : UInt8, (Nat.toDigits 10 b.toNat).length ≤ 3 := fun b ↦
    length_toDigits_le (by decide) (Nat.lt_of_lt_of_le b.toNat_lt (by decide))
  have h₀ := hbyte b₀
  have h₁ := hbyte b₁
  have h₂ := hbyte b₂
  have h₃ := hbyte b₃
  rw [toList_dottedQuad]
  simp only [List.length_append, List.length_singleton]
  omega

private theorem toDigits_dot_inj {a b : ℕ} {xs ys : List Char}
    (h : Nat.toDigits 10 a ++ '.' :: xs = Nat.toDigits 10 b ++ '.' :: ys) : a = b ∧ xs = ys := by
  have hdot : ∀ zs : List Char, NoDigit ('.' :: zs) := fun _ ↦ noDigit_cons (by decide)
  have hdigits := congrArg (List.takeWhile Char.isDigit) h
  have hrest := congrArg (List.dropWhile Char.isDigit) h
  rw [(isNumeral_toDigits a).takeWhile_isDigit (hdot xs),
    (isNumeral_toDigits b).takeWhile_isDigit (hdot ys)] at hdigits
  rw [(isNumeral_toDigits a).dropWhile_isDigit (hdot xs),
    (isNumeral_toDigits b).dropWhile_isDigit (hdot ys), List.cons.injEq] at hrest
  refine ⟨?_, hrest.2⟩
  rw [← (isNumeral_toDigits a).value, hdigits, (isNumeral_toDigits b).value]

theorem dottedQuad_inj {a₀ a₁ a₂ a₃ b₀ b₁ b₂ b₃ : UInt8} :
    dottedQuad a₀ a₁ a₂ a₃ = dottedQuad b₀ b₁ b₂ b₃ ↔ a₀ = b₀ ∧ a₁ = b₁ ∧ a₂ = b₂ ∧ a₃ = b₃ := by
  constructor
  · intro h
    have hlist := congrArg String.toList h
    simp only [toList_dottedQuad, List.append_assoc, List.cons_append, List.nil_append] at hlist
    obtain ⟨h₀, hlist⟩ := toDigits_dot_inj hlist
    obtain ⟨h₁, hlist⟩ := toDigits_dot_inj hlist
    obtain ⟨h₂, hlist⟩ := toDigits_dot_inj hlist
    have h₃ := congrArg (Nat.ofDigitChars 10 · 0) hlist
    simp only [Nat.ofDigitChars_ten_toDigits] at h₃
    exact ⟨UInt8.toNat_inj.mp h₀, UInt8.toNat_inj.mp h₁, UInt8.toNat_inj.mp h₂,
      UInt8.toNat_inj.mp h₃⟩
  · rintro ⟨rfl, rfl, rfl, rfl⟩
    rfl

/-! ## Attributes -/

/-- Where an address is written to: the `out_ip` text and `*out_port`. -/
structure MappedOut where
  outIp : String
  outPort : UInt16
  deriving DecidableEq, Repr

/-- A STUN attribute: type, value, and the bytes that pad the value to a multiple of four. -/
structure Attribute where
  type : UInt16
  value : List UInt8
  padding : List UInt8
  /-- The length is declared in sixteen bits. -/
  length_lt : value.length < 2 ^ 16
  /-- Padding is to the next multiple of four. -/
  length_padding : padding.length = (4 - value.length % 4) % 4

namespace Attribute

def alen (a : Attribute) : UInt16 := UInt16.ofNat a.value.length

def encode (a : Attribute) : List UInt8 :=
  bytesBe16 a.type ++ bytesBe16 a.alen ++ a.value ++ a.padding

@[simp] theorem toNat_alen (a : Attribute) : a.alen.toNat = a.value.length :=
  UInt16.toNat_ofNat_of_lt' a.length_lt

theorem length_encode (a : Attribute) :
    a.encode.length = 4 + a.value.length + (4 - a.value.length % 4) % 4 := by
  simp only [encode, List.length_append, length_bytesBe16, a.length_padding]

/-- A usable IPv4 XOR-MAPPED-ADDRESS: the type, a declared length of at least eight, and the family
byte of IPv4. -/
def IsXorMapped (a : Attribute) : Prop :=
  a.type = 0x0020 ∧ 8 ≤ a.value.length ∧ a.value.getD 1 0 = 0x01

instance (a : Attribute) : Decidable a.IsXorMapped := inferInstanceAs (Decidable (_ ∧ _))

/-- The address an attribute stands for: the value with the magic cookie XOR undone, byte by byte in
network order. -/
def address (a : Attribute) : MappedOut where
  outIp := dottedQuad (a.value.getD 4 0 ^^^ 0x21) (a.value.getD 5 0 ^^^ 0x12)
    (a.value.getD 6 0 ^^^ 0xA4) (a.value.getD 7 0 ^^^ 0x42)
  outPort := be16 (a.value.getD 2 0) (a.value.getD 3 0) ^^^ 0x2112

/-- The XOR-MAPPED-ADDRESS value a server sends for an address and port. The first byte is reserved,
and anything may follow the eight bytes that are used. -/
def xorMappedValue (reserved : UInt8) (ip : Vector UInt8 4) (port : UInt16)
    (extra : List UInt8) : List UInt8 :=
  reserved :: 0x01 :: (bytesBe16 (port ^^^ 0x2112)
    ++ [ip.get 0 ^^^ 0x21, ip.get 1 ^^^ 0x12, ip.get 2 ^^^ 0xA4, ip.get 3 ^^^ 0x42] ++ extra)

theorem address_of_value {a : Attribute} {reserved : UInt8} {ip : Vector UInt8 4} {port : UInt16}
    {extra : List UInt8} (h : a.value = xorMappedValue reserved ip port extra) :
    a.address = ⟨dottedQuad (ip.get 0) (ip.get 1) (ip.get 2) (ip.get 3), port⟩ := by
  have hport : be16 (a.value.getD 2 0) (a.value.getD 3 0) = port ^^^ 0x2112 := by
    rw [h]
    exact be16_bytesBe16 _
  rw [address, hport, UInt16.xor_assoc, UInt16.xor_self, UInt16.xor_zero, h]
  change MappedOut.mk (dottedQuad (ip.get 0 ^^^ 0x21 ^^^ 0x21) (ip.get 1 ^^^ 0x12 ^^^ 0x12)
    (ip.get 2 ^^^ 0xA4 ^^^ 0xA4) (ip.get 3 ^^^ 0x42 ^^^ 0x42)) port = _
  simp only [UInt8.xor_assoc, UInt8.xor_self, UInt8.xor_zero]

theorem isXorMapped_of_value {a : Attribute} {reserved : UInt8} {ip : Vector UInt8 4}
    {port : UInt16} {extra : List UInt8} (htype : a.type = 0x0020)
    (h : a.value = xorMappedValue reserved ip port extra) : a.IsXorMapped := by
  refine ⟨htype, ?_, ?_⟩
  · rw [h]
    simp [xorMappedValue, bytesBe16]
  · rw [h]
    rfl

end Attribute

/-- Where a request comes from, as the server sees it. -/
structure Endpoint where
  ip : Vector UInt8 4
  port : UInt16
  /-- Nothing comes from port 0. -/
  port_ne : port ≠ 0

namespace Endpoint

def text (e : Endpoint) : String := dottedQuad (e.ip.get 0) (e.ip.get 1) (e.ip.get 2) (e.ip.get 3)

def out (e : Endpoint) : MappedOut := ⟨e.text, e.port⟩

theorem text_inj {a b : Endpoint} : a.text = b.text ↔ a.ip = b.ip := by
  rw [text, text, dottedQuad_inj]
  constructor
  · rintro ⟨h₀, h₁, h₂, h₃⟩
    refine Vector.ext fun i hi ↦ ?_
    match i, hi with
    | 0, _ => exact h₀
    | 1, _ => exact h₁
    | 2, _ => exact h₂
    | 3, _ => exact h₃
  · intro h
    rw [h]
    exact ⟨rfl, rfl, rfl, rfl⟩

end Endpoint

/-! ## Datagrams -/

/-- A datagram: twenty header bytes, then attributes. -/
def datagram (header : Vector UInt8 20) (attrs : List Attribute) : List UInt8 :=
  header.toList ++ attrs.flatMap Attribute.encode

theorem length_datagram (header : Vector UInt8 20) (attrs : List Attribute) :
    (datagram header attrs).length = 20 + (attrs.flatMap Attribute.encode).length := by
  simp [datagram]

end NatGhost
