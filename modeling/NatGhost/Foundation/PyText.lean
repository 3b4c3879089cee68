import Mathlib.Data.Int.Notation
import Mathlib.Data.List.Basic

/-!
# Text as Python reads it

Three operations of Python on text: decoding bytes as UTF-8, cutting a string at the first
occurrence of a character, and converting a string to a number with `int`. `int` accepts more than a
row of ASCII digits: white space around the number, a sign, single underscores between digits, and
every decimal digit of Unicode (version 14 here).

The lemmas at the end are about text that a C program prints: it is ASCII, so its bytes are its
characters, and a printed number is read back as that number.
-/

namespace NatGhost

/-! ## UTF-8 -/

/-- `str.encode()`. -/
def utf8Bytes (text : List Char) : List UInt8 := text.flatMap String.utf8EncodeChar

/-- `bytes.decode()`; `none` is a `UnicodeDecodeError`. -/
def pyDecode (bytes : List UInt8) : Option (List Char) :=
  (String.fromUTF8? bytes.toByteArray).map String.toList

theorem pyDecode_utf8Bytes (text : List Char) : pyDecode (utf8Bytes text) = some text := by
  have hvalid : (utf8Bytes text).toByteArray.IsValidUTF8 := ⟨text, rfl⟩
  have htext : String.fromUTF8 (utf8Bytes text).toByteArray hvalid = String.ofList text := by
    rw [← String.toByteArray_inj, String.toByteArray_ofList]
    rfl
  rw [pyDecode, String.fromUTF8?, dif_pos hvalid, htext, Option.map_some, String.toList_ofList]

theorem utf8Bytes_of_ascii {text : List Char} (h : ∀ c ∈ text, c.toNat < 128) :
    utf8Bytes text = text.map fun c ↦ c.val.toUInt8 := by
  induction text with
  | nil => rfl
  | cons c text ih =>
    have hc : c.utf8Size = 1 := by
      rw [Char.utf8Size_eq_one_iff, UInt32.le_iff_toNat_le]
      exact Nat.le_of_lt_succ (h c List.mem_cons_self)
    rw [utf8Bytes, List.flatMap_cons, String.utf8EncodeChar_eq_singleton hc, List.map_cons,
      ← ih fun d hd ↦ h d (List.mem_cons_of_mem c hd)]
    rfl

theorem zero_notMem_utf8Bytes {text : List Char} (h : ∀ c ∈ text, c.toNat < 128)
    (hpos : ∀ c ∈ text, 0 < c.toNat) : 0 ∉ utf8Bytes text := by
  rw [utf8Bytes_of_ascii h]
  intro hmem
  obtain ⟨c, hc, hzero⟩ := List.mem_map.mp hmem
  have hlt := h c hc
  have hne := hpos c hc
  have hnat := congrArg UInt8.toNat hzero
  rw [UInt32.toNat_toUInt8] at hnat
  change c.toNat % 256 = 0 at hnat
  omega

/-! ## `split` -/

/-- `text.split(c, 1)` for text that contains `c`. -/
def pySplit (c : Char) (text : List Char) : List Char × List Char :=
  (text.takeWhile (· ≠ c), (text.dropWhile (· ≠ c)).tail)

theorem pySplit_append {c : Char} {text : List Char} (h : c ∉ text) (rest : List Char) :
    pySplit c (text ++ c :: rest) = (text, rest) := by
  induction text with
  | nil => simp [pySplit]
  | cons d text ih =>
    rw [List.mem_cons, not_or] at h
    have hd : d ≠ c := Ne.symm h.1
    have hrest := ih h.2
    rw [pySplit, Prod.mk.injEq] at hrest
    rw [pySplit, List.cons_append, List.takeWhile_cons, List.dropWhile_cons,
      if_pos (decide_eq_true hd), if_pos (decide_eq_true hd), hrest.1, hrest.2]

/-! ## `int` -/

/-- The code points of the decimal digits zero. The other nine digits follow each of them. -/
def decimalZeros : List ℕ :=
  [0x30, 0x660, 0x6F0, 0x7C0, 0x966, 0x9E6, 0xA66, 0xAE6, 0xB66, 0xBE6, 0xC66, 0xCE6, 0xD66, 0xDE6,
    0xE50, 0xED0, 0xF20, 0x1040, 0x1090, 0x17E0, 0x1810, 0x1946, 0x19D0, 0x1A80, 0x1A90,
    0x1B50, 0x1BB0, 0x1C40, 0x1C50, 0xA620, 0xA8D0, 0xA900, 0xA9D0, 0xA9F0, 0xAA50, 0xABF0, 0xFF10,
    0x104A0, 0x10D30, 0x11066, 0x110F0, 0x11136, 0x111D0, 0x112F0, 0x11450, 0x114D0, 0x11650,
    0x116C0, 0x11730, 0x118E0, 0x11950, 0x11C50, 0x11D50, 0x11DA0, 0x16A60, 0x16AC0, 0x16B50,
    0x1D7CE, 0x1D7D8, 0x1D7E2, 0x1D7EC, 0x1D7F6, 0x1E140, 0x1E2F0, 0x1E950, 0x1FBF0]

def decimalValue (c : Char) : Option ℕ :=
  (decimalZeros.find? fun z ↦ decide (z ≤ c.toNat ∧ c.toNat < z + 10)).map (c.toNat - ·)

/-- What `int` skips before and after the number. -/
def isPySpace (c : Char) : Bool :=
  c.toNat ∈ [0x09, 0x0A, 0x0B, 0x0C, 0x0D, 0x20, 0x85, 0xA0, 0x1680, 0x2000, 0x2001, 0x2002, 0x2003,
    0x2004, 0x2005, 0x2006, 0x2007, 0x2008, 0x2009, 0x200A, 0x2028, 0x2029, 0x202F, 0x205F, 0x3000]

/-- The text without white space at both ends. -/
def pyStrip (text : List Char) : List Char :=
  ((text.dropWhile isPySpace).reverse.dropWhile isPySpace).reverse

/-- The rest of a number without a sign, after digits of this value. Single underscores may stand
between digits, so after one, and at the start, a digit is due. -/
def pyDigits (value : ℕ) (due : Bool) : List Char → Option ℕ
  | [] => if due then none else some value
  | c :: text =>
    if c = '_' ∧ due = false then pyDigits value true text
    else (decimalValue c).bind fun x ↦ pyDigits (10 * value + x) false text

/-- `int(text)`; `none` is a `ValueError`. -/
def pyInt (text : List Char) : Option ℤ :=
  match pyStrip text with
  | '-' :: digits => (pyDigits 0 true digits).map fun x ↦ -(x : ℤ)
  | '+' :: digits => (pyDigits 0 true digits).map fun x ↦ (x : ℤ)
  | digits => (pyDigits 0 true digits).map fun x ↦ (x : ℤ)

/-! ## Printed numbers -/

theorem isDigit_iff {c : Char} : c.isDigit = true ↔ 48 ≤ c.toNat ∧ c.toNat ≤ 57 := by
  rw [Char.isDigit, Bool.and_eq_true, decide_eq_true_iff, decide_eq_true_iff, ge_iff_le,
    UInt32.le_iff_toNat_le, UInt32.le_iff_toNat_le]
  rfl

theorem decimalValue_of_isDigit {c : Char} (h : c.isDigit = true) :
    decimalValue c = some (c.toNat - '0'.toNat) := by
  obtain ⟨hge, hle⟩ := isDigit_iff.mp h
  have hfind : (decimalZeros.find? fun z ↦ decide (z ≤ c.toNat ∧ c.toNat < z + 10)) = some 48 :=
    List.find?_cons_of_pos (decide_eq_true ⟨hge, by omega⟩)
  rw [decimalValue, hfind]
  rfl

theorem not_isPySpace_of_isDigit {c : Char} (h : c.isDigit = true) : isPySpace c = false := by
  obtain ⟨hge, hle⟩ := isDigit_iff.mp h
  rw [isPySpace, decide_eq_false_iff_not]
  simp only [List.mem_cons, List.not_mem_nil, or_false]
  omega

theorem ne_of_isDigit {c d : Char} (h : c.isDigit = true) (hd : d.isDigit = false) : c ≠ d := by
  rintro rfl
  rw [h] at hd
  exact absurd hd (by decide)

theorem pyDigits_of_isDigit {text : List Char} (h : ∀ c ∈ text, c.isDigit = true) (value : ℕ) :
    pyDigits value false text = some (Nat.ofDigitChars 10 text value) := by
  induction text generalizing value with
  | nil => rfl
  | cons c text ih =>
    have hc := h c List.mem_cons_self
    rw [pyDigits, if_neg fun hu ↦ ne_of_isDigit hc (by decide) hu.1, decimalValue_of_isDigit hc,
      Option.bind_some, ih fun d hd ↦ h d (List.mem_cons_of_mem c hd), Nat.ofDigitChars_cons]

theorem dropWhile_of_head {p : Char → Bool} {text : List Char} (h : ∀ c ∈ text, p c = false) :
    text.dropWhile p = text := by
  cases text with
  | nil => rfl
  | cons c text => rw [List.dropWhile_cons_of_neg (by simp [h c List.mem_cons_self])]

/-- **A printed number is read back.** -/
theorem pyInt_toDigits (k : ℕ) : pyInt (Nat.toDigits 10 k) = some (k : ℤ) := by
  have hdigits : ∀ c ∈ Nat.toDigits 10 k, c.isDigit = true := fun c hc ↦
    Nat.isDigit_of_mem_toDigits (by decide) (by decide) hc
  have hspace : ∀ c ∈ Nat.toDigits 10 k, isPySpace c = false := fun c hc ↦
    not_isPySpace_of_isDigit (hdigits c hc)
  have hstrip : pyStrip (Nat.toDigits 10 k) = Nat.toDigits 10 k := by
    rw [pyStrip, dropWhile_of_head hspace,
      dropWhile_of_head fun c hc ↦ hspace c (List.mem_reverse.mp hc), List.reverse_reverse]
  have hvalue : pyDigits 0 true (Nat.toDigits 10 k) = some k := by
    have hsum := Nat.ofDigitChars_ten_toDigits (n := k)
    cases htext : Nat.toDigits 10 k with
    | nil => exact absurd htext Nat.toDigits_ne_nil
    | cons c text =>
      rw [htext] at hdigits hsum
      have hc := hdigits c List.mem_cons_self
      rw [pyDigits, if_neg fun hu ↦ ne_of_isDigit hc (by decide) hu.1, decimalValue_of_isDigit hc,
        Option.bind_some, pyDigits_of_isDigit fun d hd ↦ hdigits d (List.mem_cons_of_mem c hd),
        ← Nat.ofDigitChars_cons, hsum]
  -- the first character is a digit, hence no sign
  rw [pyInt, hstrip]
  split
  · next digits heq => exact absurd (hdigits '-' (heq ▸ List.mem_cons_self)) (by decide)
  · next digits heq => exact absurd (hdigits '+' (heq ▸ List.mem_cons_self)) (by decide)
  · rw [hvalue]
    rfl

end NatGhost
