import Mathlib.Algebra.Group.Nat.Defs
import Mathlib.Data.List.TakeWhile
import Mathlib.Tactic.SplitIfs
import NatGhost.Foundation.PyText

/-!
# Numbers as text in C

What `printf` writes for `%u`, `%lu` and, of a number that is not negative, for `%d` is its decimal
digits, `Nat.toDigits 10`; `%05d` puts zeros in front. `atoi` skips white space and a sign and stops
at the first character that is no digit; `>>` of an input stream skips white space and takes the
digits that follow, and fails without digits or out of range.

`IsNumeral text k` says that `text` is a row of digits with the value `k`. Everything printed here
is a numeral, and both readers give the value of a numeral back if no further digit stands behind
it.
-/

namespace NatGhost

/-! ## Numerals -/

/-- A row of decimal digits and its value. -/
structure IsNumeral (text : List Char) (k : ℕ) : Prop where
  ne_nil : text ≠ []
  isDigit : ∀ c ∈ text, c.isDigit = true
  value : Nat.ofDigitChars 10 text 0 = k

theorem isNumeral_toDigits (k : ℕ) : IsNumeral (Nat.toDigits 10 k) k where
  ne_nil := Nat.toDigits_ne_nil
  isDigit _ hc := Nat.isDigit_of_mem_toDigits (by decide) (by decide) hc
  value := Nat.ofDigitChars_ten_toDigits

/-- `%0⟨width⟩d` of a number that is not negative. -/
def printPadded (width k : ℕ) : List Char :=
  List.replicate (width - (Nat.toDigits 10 k).length) '0' ++ Nat.toDigits 10 k

theorem isNumeral_printPadded (width k : ℕ) : IsNumeral (printPadded width k) k where
  ne_nil h := Nat.toDigits_ne_nil (List.append_eq_nil_iff.mp h).2
  isDigit c hc := by
    rcases List.mem_append.mp hc with h | h
    · rw [List.eq_of_mem_replicate h]
      rfl
    · exact (isNumeral_toDigits k).isDigit c h
  value := by
    rw [printPadded, Nat.ofDigitChars_append, Nat.ofDigitChars_replicate_zero, Nat.mul_zero,
      Nat.ofDigitChars_ten_toDigits]

theorem length_printPadded {width k : ℕ} (hwidth : 0 < width) (h : k < 10 ^ width) :
    (printPadded width k).length = width := by
  have hle : (Nat.toDigits 10 k).length ≤ width :=
    (Nat.length_toDigits_le_iff (by decide) hwidth).mpr h
  rw [printPadded, List.length_append, List.length_replicate]
  exact Nat.sub_add_cancel hle

/-- `%d`. -/
def printInt : ℤ → List Char
  | .ofNat k => Nat.toDigits 10 k
  | .negSucc k => '-' :: Nat.toDigits 10 (k + 1)

/-- `%0⟨width⟩d`: the sign counts for the width. -/
def printPaddedInt (width : ℕ) : ℤ → List Char
  | .ofNat k => printPadded width k
  | .negSucc k => '-' :: printPadded (width - 1) (k + 1)

theorem isAscii_printPaddedInt (width : ℕ) (v : ℤ) :
    ∀ c ∈ printPaddedInt width v, c.toNat < 128 := by
  have hprinted : ∀ width k, ∀ c ∈ printPadded width k, c.toNat < 128 := fun width k c hc ↦ by
    have hle := (isDigit_iff.mp ((isNumeral_printPadded width k).isDigit c hc)).2
    omega
  cases v with
  | ofNat k => exact hprinted width k
  | negSucc k =>
    intro c hc
    rcases List.mem_cons.mp hc with rfl | hc
    · decide
    · exact hprinted _ _ c hc

theorem length_printPadded_le {width n k : ℕ} (hwidth : width ≤ n) (hn : 0 < n) (h : k < 10 ^ n) :
    (printPadded width k).length ≤ n := by
  have hle : (Nat.toDigits 10 k).length ≤ n := (Nat.length_toDigits_le_iff (by decide) hn).mpr h
  rw [printPadded, List.length_append, List.length_replicate]
  omega

theorem length_printPaddedInt_le {width n : ℕ} {v : ℤ} (hwidth : width ≤ n) (hn : 0 < n)
    (h : v.natAbs < 10 ^ n) : (printPaddedInt width v).length ≤ n + 1 := by
  cases v with
  | ofNat k => exact (length_printPadded_le hwidth hn h).trans (Nat.le_succ n)
  | negSucc k =>
    exact Nat.succ_le_succ (length_printPadded_le ((Nat.sub_le width 1).trans hwidth) hn h)

/-! ## White space and signs -/

/-- `isspace`. -/
def isCSpace (c : Char) : Bool := decide (c.toNat = 32 ∨ 9 ≤ c.toNat ∧ c.toNat ≤ 13)

theorem not_isCSpace_of_isDigit {c : Char} (h : c.isDigit = true) : isCSpace c = false := by
  obtain ⟨hge, hle⟩ := isDigit_iff.mp h
  rw [isCSpace, decide_eq_false_iff_not]
  omega

def NoDigit (rest : List Char) : Prop := ∀ c ∈ rest.head?, c.isDigit = false

theorem noDigit_nil : NoDigit [] := fun _ hc ↦ nomatch hc

theorem noDigit_cons {c : Char} {rest : List Char} (h : c.isDigit = false) :
    NoDigit (c :: rest) := by
  intro d hd
  rw [List.head?_cons, Option.mem_some_iff] at hd
  rwa [← hd]

section

variable {text rest : List Char} {k : ℕ} (h : IsNumeral text k)
include h

theorem IsNumeral.dropWhile_isCSpace : (text ++ rest).dropWhile isCSpace = text ++ rest := by
  cases text with
  | nil => exact absurd rfl h.ne_nil
  | cons c text =>
    have hc : isCSpace c = false := not_isCSpace_of_isDigit (h.isDigit c List.mem_cons_self)
    rw [List.cons_append, List.dropWhile_cons_of_neg (by rw [hc]; exact Bool.false_ne_true)]

theorem IsNumeral.takeWhile_isDigit (hrest : NoDigit rest) :
    (text ++ rest).takeWhile Char.isDigit = text := by
  rw [List.takeWhile_append_of_pos h.isDigit]
  cases rest with
  | nil => rw [List.takeWhile_nil, List.append_nil]
  | cons d rest =>
    have hd : d.isDigit = false := hrest d rfl
    rw [List.takeWhile_cons_of_neg (by rw [hd]; exact Bool.false_ne_true), List.append_nil]

theorem IsNumeral.dropWhile_isDigit (hrest : NoDigit rest) :
    (text ++ rest).dropWhile Char.isDigit = rest := by
  rw [List.dropWhile_append_of_pos h.isDigit]
  cases rest with
  | nil => rfl
  | cons d rest =>
    have hd : d.isDigit = false := hrest d rfl
    rw [List.dropWhile_cons_of_neg (by rw [hd]; exact Bool.false_ne_true)]

end

/-! ## `atoi` -/

def leadingNumber (text : List Char) : ℕ := Nat.ofDigitChars 10 (text.takeWhile Char.isDigit) 0

/-- `atoi`, without its undefined behaviour outside the range of `int`. -/
def atoi (text : List Char) : ℤ :=
  match text.dropWhile isCSpace with
  | '-' :: digits => -(leadingNumber digits : ℤ)
  | '+' :: digits => leadingNumber digits
  | digits => leadingNumber digits

/-- **`atoi` reads a numeral.** -/
theorem IsNumeral.atoi_eq {text rest : List Char} {k : ℕ} (h : IsNumeral text k)
    (hrest : NoDigit rest) :
    atoi (text ++ rest) = k := by
  have hsign : ∀ c, c.isDigit = false → ∀ digits, text ++ rest ≠ c :: digits := by
    intro c hc digits heq
    cases text with
    | nil => exact h.ne_nil rfl
    | cons d text =>
      rw [List.cons_append, List.cons.injEq] at heq
      exact ne_of_isDigit (h.isDigit d List.mem_cons_self) hc heq.1
  rw [atoi, h.dropWhile_isCSpace]
  split
  · next digits heq => exact absurd heq (hsign '-' rfl digits)
  · next digits heq => exact absurd heq (hsign '+' rfl digits)
  · rw [leadingNumber, h.takeWhile_isDigit hrest, h.value]

theorem atoi_toDigits (k : ℕ) : atoi (Nat.toDigits 10 k) = k := by
  have h := (isNumeral_toDigits k).atoi_eq noDigit_nil
  rwa [List.append_nil] at h

/-! ## Extraction from an input stream -/

/-- `f >> x` for an unsigned `x` with values below `bound`: the value and the rest of the stream, or
`none` when the stream fails. A sign, which `>>` takes as well, is not modelled and counts as a
failure. -/
def extract (bound : ℕ) (text : List Char) : Option (ℕ × List Char) :=
  let text := text.dropWhile isCSpace
  let digits := text.takeWhile Char.isDigit
  let value := Nat.ofDigitChars 10 digits 0
  if digits ≠ [] ∧ value < bound then some (value, text.dropWhile Char.isDigit) else none

theorem extract_cons {c : Char} (hc : isCSpace c = true) (bound : ℕ) (text : List Char) :
    extract bound (c :: text) = extract bound text := by
  rw [extract, extract, List.dropWhile_cons_of_pos hc]

/-- **Extraction reads a numeral** and leaves what stands behind it. -/
theorem IsNumeral.extract_eq {text rest : List Char} {k bound : ℕ} (h : IsNumeral text k)
    (hbound : k < bound) (hrest : NoDigit rest) :
    extract bound (text ++ rest) = some (k, rest) := by
  rw [extract, h.dropWhile_isCSpace, h.takeWhile_isDigit hrest, h.dropWhile_isDigit hrest, h.value]
  exact if_pos ⟨h.ne_nil, hbound⟩

theorem length_lt_of_extract {bound k : ℕ} {text rest : List Char}
    (h : extract bound text = some (k, rest)) :
    rest.length < text.length := by
  rw [extract] at h
  split_ifs at h with hdigits
  obtain ⟨-, rfl⟩ := Prod.mk.inj (Option.some.inj h)
  have hsplit := congrArg List.length (List.takeWhile_append_dropWhile
    (p := Char.isDigit) (l := text.dropWhile isCSpace))
  have hpos := List.length_pos_iff.mpr hdigits.1
  have hle : (text.dropWhile isCSpace).length ≤ text.length := (List.dropWhile_sublist _).length_le
  rw [List.length_append] at hsplit
  omega

/-! ## Strings in memory -/

/-- `snprintf(mem, size, …)` for a text that is already formatted: as much as fits with a NUL behind
it, the rest of the memory stays. -/
def snprintf (size : ℕ) (text mem : List UInt8) : List UInt8 :=
  let out := text.take (size - 1) ++ [0]
  out ++ mem.drop out.length

theorem snprintf_of_lt {size : ℕ} {text mem : List UInt8} (h : text.length < size) :
    snprintf size text mem = text ++ 0 :: mem.drop (text.length + 1) := by
  have hall : text.take (size - 1) = text := List.take_of_length_le (Nat.le_sub_one_of_lt h)
  rw [snprintf, hall, List.append_assoc, List.length_append, List.length_singleton,
    List.singleton_append]

theorem length_snprintf {size : ℕ} {text mem : List UInt8} (hsize : 0 < size)
    (hmem : mem.length = size) :
    (snprintf size text mem).length = size := by
  rw [snprintf, List.length_append, List.length_drop, List.length_append, List.length_take,
    List.length_singleton, hmem]
  omega

theorem takeWhile_snprintf {size : ℕ} {text mem : List UInt8} (hzero : 0 ∉ text)
    (hfits : text.length < size) (hmem : mem.length = size) :
    (snprintf size text mem).length = size ∧
      ((snprintf size text mem).take size).takeWhile (· ≠ 0) = text := by
  have hlength : (snprintf size text mem).length = size :=
    length_snprintf (Nat.lt_of_le_of_lt (Nat.zero_le _) hfits) hmem
  refine ⟨hlength, ?_⟩
  rw [List.take_of_length_le hlength.le, snprintf_of_lt hfits, List.takeWhile_append_of_pos,
    List.takeWhile_cons, if_neg (by decide), List.append_nil]
  intro b hb
  exact decide_eq_true fun h ↦ hzero (h ▸ hb)

/-- `strncmp(a, b, n) == 0`. -/
def strncmpEq : ℕ → (ℕ → UInt8) → (ℕ → UInt8) → Bool
  | 0, _, _ => true
  | n + 1, a, b => a 0 == b 0 && (a 0 == 0 || strncmpEq n (fun i ↦ a (i + 1)) fun i ↦ b (i + 1))

theorem strncmpEq_of_eq {n : ℕ} {a b : ℕ → UInt8} (h : ∀ i < n, a i = b i) :
    strncmpEq n a b = true := by
  induction n generalizing a b with
  | zero => rfl
  | succ n ih =>
    have htail : strncmpEq n (fun i ↦ a (i + 1)) (fun i ↦ b (i + 1)) = true :=
      ih fun i hi ↦ h (i + 1) (Nat.succ_lt_succ hi)
    rw [strncmpEq, htail, Bool.or_true, Bool.and_true, h 0 (Nat.succ_pos n)]
    exact beq_self_eq_true (b 0)

def byteChars (bytes : List UInt8) : List Char := bytes.map Char.ofUInt8

theorem IsNumeral.isAscii {text : List Char} {k : ℕ} (h : IsNumeral text k) :
    ∀ c ∈ text, c.toNat < 128 := by
  intro c hc
  have hle := (isDigit_iff.mp (h.isDigit c hc)).2
  omega

theorem utf8Bytes_append (text text' : List Char) :
    utf8Bytes (text ++ text') = utf8Bytes text ++ utf8Bytes text' := List.flatMap_append

theorem length_utf8Bytes {text : List Char} (h : ∀ c ∈ text, c.toNat < 128) :
    (utf8Bytes text).length = text.length := by
  rw [utf8Bytes_of_ascii h, List.length_map]

theorem byteChars_utf8Bytes {text : List Char} (h : ∀ c ∈ text, c.toNat < 128) :
    byteChars (utf8Bytes text) = text := by
  rw [utf8Bytes_of_ascii h, byteChars, List.map_map]
  refine (List.map_congr_left fun c hc ↦ ?_).trans (List.map_id text)
  have hc' : c.val.toNat < 128 := h c hc
  apply Char.ext
  apply UInt32.toNat_inj.mp
  change c.val.toUInt8.toUInt32.toNat = c.val.toNat
  rw [UInt8.toNat_toUInt32, UInt32.toNat_toUInt8]
  exact Nat.mod_eq_of_lt (Nat.lt_of_lt_of_le hc' (by decide))

end NatGhost
