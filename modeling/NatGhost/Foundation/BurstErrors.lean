import NatGhost.Foundation.MsbBits
import NatGhost.Foundation.OnesComplement

/-!
# What a ones-complement sum does not see

A string of bytes is a string of bits, and so a number. As 65536 is 1 modulo 65535, the sum of its
words is that number modulo 65535, up to the byte that pads a string of odd length. A change of at
most sixteen consecutive bits, wherever they begin, changes the number by a power of two times a
number below 65536; powers of two are units modulo 65535, so the change goes unseen only where
sixteen zeros become ones, or the other way round.
-/

namespace NatGhost

/-! ## The number of a string -/

def bitsOfBytes (bytes : List UInt8) : List ℕ := bytes.flatMap fun b ↦ bitsMsb 8 b.toNat

theorem bitsOfBytes_cons (b : UInt8) (bytes : List UInt8) :
    bitsOfBytes (b :: bytes) = bitsMsb 8 b.toNat ++ bitsOfBytes bytes := List.flatMap_cons

theorem bitsOfBytes_append (bytes bytes' : List UInt8) :
    bitsOfBytes (bytes ++ bytes') = bitsOfBytes bytes ++ bitsOfBytes bytes' := List.flatMap_append

theorem length_bitsOfBytes (bytes : List UInt8) :
    (bitsOfBytes bytes).length = 8 * bytes.length := by
  induction bytes with
  | nil => rfl
  | cons b bytes ih =>
    rw [bitsOfBytes_cons, List.length_append, length_bitsMsb, ih, List.length_cons]
    omega

theorem lt_two_of_mem_bitsOfBytes {bytes : List UInt8} {b : ℕ} (h : b ∈ bitsOfBytes bytes) :
    b < 2 := by
  obtain ⟨byte, -, hb⟩ := List.mem_flatMap.mp h
  exact lt_two_of_mem_bitsMsb hb

theorem ofBitsMsb_append (bits bits' : List ℕ) :
    ofBitsMsb (bits ++ bits') = ofBitsMsb bits * 2 ^ bits'.length + ofBitsMsb bits' := by
  induction bits' using List.reverseRecOn with
  | nil =>
    rw [List.append_nil, List.length_nil, pow_zero, Nat.mul_one]
    rfl
  | append_singleton bits' b ih =>
    rw [← List.append_assoc, ofBitsMsb_concat, ih, ofBitsMsb_concat, List.length_append,
      List.length_singleton, pow_succ]
    ring

def byteNumber (bytes : List UInt8) : ℕ := ofBitsMsb (bitsOfBytes bytes)

theorem byteNumber_cons (b : UInt8) (bytes : List UInt8) :
    byteNumber (b :: bytes) = b.toNat * 2 ^ (8 * bytes.length) + byteNumber bytes := by
  rw [byteNumber, bitsOfBytes_cons, ofBitsMsb_append, ofBitsMsb_bitsMsb b.toNat_lt,
    length_bitsOfBytes]
  rfl

theorem two_pow_modEq_one (m : ℕ) : 2 ^ (16 * m) ≡ 1 [MOD 65535] := by
  have hword : 2 ^ 16 ≡ 1 [MOD 65535] := by decide
  have hpow := hword.pow m
  rwa [one_pow, ← pow_mul] at hpow

/-- **The number and the sum of the words** are the same modulo 65535, if the padding is counted. -/
theorem byteNumber_modEq (bytes : List UInt8) :
    byteNumber bytes * 2 ^ (8 * (bytes.length % 2)) ≡ (beWords bytes).sum [MOD 65535] := by
  induction bytes using beWords.induct with
  | case1 b₀ b₁ bytes ih =>
    obtain ⟨m, hm⟩ : ∃ m, 8 * bytes.length + 8 * (bytes.length % 2) = 16 * m :=
      ⟨(bytes.length + 1) / 2, by omega⟩
    have hparity : (b₀ :: b₁ :: bytes).length % 2 = bytes.length % 2 := by
      rw [List.length_cons, List.length_cons]
      omega
    have hsplit : byteNumber (b₀ :: b₁ :: bytes) * 2 ^ (8 * (bytes.length % 2))
        = (b₀.toNat * 256 + b₁.toNat) * 2 ^ (16 * m)
          + byteNumber bytes * 2 ^ (8 * (bytes.length % 2)) := by
      rw [byteNumber_cons, byteNumber_cons, List.length_cons, Nat.mul_add, pow_add, ← hm, pow_add]
      ring
    rw [hparity, hsplit, beWords, List.sum_cons, be16_toNat]
    have hword := (two_pow_modEq_one m).mul_left (b₀.toNat * 256 + b₁.toNat)
    rw [Nat.mul_one] at hword
    exact hword.add ih
  | case2 b₀ =>
    have hempty : byteNumber [] = 0 := rfl
    have hpadding : 2 ^ (8 * ([b₀].length % 2)) = 256 := rfl
    have hlow : (0 : UInt8).toNat = 0 := rfl
    have hnumber : byteNumber [b₀] = b₀.toNat := by
      rw [byteNumber_cons, hempty, List.length_nil, Nat.mul_zero, pow_zero, Nat.mul_one,
        Nat.add_zero]
    have hsum : (beWords [b₀]).sum = b₀.toNat * 256 := by
      rw [beWords, List.sum_singleton, be16_toNat, hlow, Nat.add_zero]
    rw [hnumber, hpadding, hsum]
  | case3 => exact Nat.ModEq.rfl

/-! ## Bursts -/

/-- Two strings that differ only in a run of at most sixteen bits, which is `a` in one and `b` in
the other. -/
structure Burst16 (s s' : List UInt8) (a b : List ℕ) : Prop where
  agree : ∃ front back, bitsOfBytes s = front ++ (a ++ back) ∧
    bitsOfBytes s' = front ++ (b ++ back)
  length_eq : a.length = b.length
  length_le : a.length ≤ 16

/-- Sixteen zeros that become ones, or the other way round. -/
def Flipped (a b : List ℕ) : Prop :=
  a = List.replicate 16 0 ∧ b = List.replicate 16 1 ∨
    a = List.replicate 16 1 ∧ b = List.replicate 16 0

theorem eq_of_ofBitsMsb {a b : List ℕ} (ha : ∀ x ∈ a, x < 2) (hb : ∀ x ∈ b, x < 2)
    (hlength : a.length = b.length) (h : ofBitsMsb a = ofBitsMsb b) : a = b := by
  rw [← bitsMsb_ofBitsMsb ha, ← bitsMsb_ofBitsMsb hb, hlength, h]

/-- **What a change of sixteen bits may be** to leave the residue. -/
theorem ofBitsMsb_modEq_iff {a b : List ℕ} (ha : ∀ x ∈ a, x < 2) (hb : ∀ x ∈ b, x < 2)
    (hlength : a.length = b.length) (hle : a.length ≤ 16) :
    ofBitsMsb a ≡ ofBitsMsb b [MOD 65535] ↔ a = b ∨ Flipped a b := by
  have hlt (c : List ℕ) (hc : ∀ x ∈ c, x < 2) (hle : c.length ≤ 16) : ofBitsMsb c < 65536 :=
    (ofBitsMsb_lt hc).trans_le (Nat.pow_le_pow_right Nat.two_pos hle)
  have hzeros : ofBitsMsb (List.replicate 16 0) = 0 := by decide
  have hones : ofBitsMsb (List.replicate 16 1) = 65535 := by decide
  have hfull (c : List ℕ) (hc : ∀ x ∈ c, x < 2) (hle : c.length ≤ 16)
      (heq : ofBitsMsb c = 65535) : c.length = 16 := by
    have hbound := ofBitsMsb_lt hc
    rw [heq] at hbound
    by_contra hne
    have hpow : 2 ^ c.length ≤ 2 ^ 15 := Nat.pow_le_pow_right Nat.two_pos (by omega)
    omega
  have hzeroBits : ∀ x ∈ List.replicate 16 0, x < 2 := fun x hx ↦ by
    rw [List.eq_of_mem_replicate hx]
    exact Nat.two_pos
  have honeBits : ∀ x ∈ List.replicate 16 1, x < 2 := fun x hx ↦ by
    rw [List.eq_of_mem_replicate hx]
    exact Nat.one_lt_two
  have hA := hlt a ha hle
  have hB := hlt b hb (hlength ▸ hle)
  constructor
  · intro h
    have hcases : ofBitsMsb a = ofBitsMsb b ∨ ofBitsMsb a = 0 ∧ ofBitsMsb b = 65535 ∨
        ofBitsMsb a = 65535 ∧ ofBitsMsb b = 0 := by
      rw [Nat.ModEq] at h
      omega
    rcases hcases with heq | ⟨hzero, hone⟩ | ⟨hone, hzero⟩
    · exact Or.inl (eq_of_ofBitsMsb ha hb hlength heq)
    · have hb16 := hfull b hb (hlength ▸ hle) hone
      refine Or.inr (Or.inl ⟨eq_of_ofBitsMsb ha hzeroBits ?_ (hzero.trans hzeros.symm),
        eq_of_ofBitsMsb hb honeBits ?_ (hone.trans hones.symm)⟩)
      · rw [hlength, hb16, List.length_replicate]
      · rw [hb16, List.length_replicate]
    · have ha16 := hfull a ha hle hone
      refine Or.inr (Or.inr ⟨eq_of_ofBitsMsb ha honeBits ?_ (hone.trans hones.symm),
        eq_of_ofBitsMsb hb hzeroBits ?_ (hzero.trans hzeros.symm)⟩)
      · rw [ha16, List.length_replicate]
      · rw [← hlength, ha16, List.length_replicate]
  · rintro (rfl | ⟨rfl, rfl⟩ | ⟨rfl, rfl⟩)
    · exact Nat.ModEq.rfl
    · decide
    · decide

section

variable {s s' : List UInt8} {a b : List ℕ}

theorem Burst16.length_bytes (h : Burst16 s s' a b) : s.length = s'.length := by
  obtain ⟨front, back, hs, hs'⟩ := h.agree
  have hbits : (bitsOfBytes s).length = (bitsOfBytes s').length := by
    rw [hs, hs', List.length_append, List.length_append, List.length_append, List.length_append,
      h.length_eq]
  rw [length_bitsOfBytes, length_bitsOfBytes] at hbits
  omega

theorem Burst16.append_left (h : Burst16 s s' a b) (before : List UInt8) :
    Burst16 (before ++ s) (before ++ s') a b := by
  obtain ⟨front, back, hs, hs'⟩ := h.agree
  refine ⟨⟨bitsOfBytes before ++ front, back, ?_, ?_⟩, h.length_eq, h.length_le⟩
  · rw [bitsOfBytes_append, hs, List.append_assoc]
  · rw [bitsOfBytes_append, hs', List.append_assoc]

/-- **When a burst leaves the residue of the sum.** -/
theorem Burst16.sum_modEq_iff (h : Burst16 s s' a b) :
    (beWords s).sum ≡ (beWords s').sum [MOD 65535] ↔ a = b ∨ Flipped a b := by
  have hlength := h.length_bytes
  obtain ⟨front, back, hs, hs'⟩ := h.agree
  have htwo : Nat.Coprime 65535 2 := by decide
  have hcoprime (k : ℕ) : Nat.gcd 65535 (2 ^ k) = 1 := htwo.pow_right k
  have hbits : ∀ x ∈ a, x < 2 := fun x hx ↦
    lt_two_of_mem_bitsOfBytes (hs ▸ List.mem_append_right _ (List.mem_append_left _ hx))
  have hbits' : ∀ x ∈ b, x < 2 := fun x hx ↦
    lt_two_of_mem_bitsOfBytes (hs' ▸ List.mem_append_right _ (List.mem_append_left _ hx))
  rw [← ofBitsMsb_modEq_iff hbits hbits' h.length_eq h.length_le]
  have hnumber : byteNumber s = ofBitsMsb front * 2 ^ (a.length + back.length)
      + (ofBitsMsb a * 2 ^ back.length + ofBitsMsb back) := by
    rw [byteNumber, hs, ofBitsMsb_append, ofBitsMsb_append, List.length_append]
  have hnumber' : byteNumber s' = ofBitsMsb front * 2 ^ (a.length + back.length)
      + (ofBitsMsb b * 2 ^ back.length + ofBitsMsb back) := by
    rw [byteNumber, hs', ofBitsMsb_append, ofBitsMsb_append, List.length_append, h.length_eq]
  have hsum := byteNumber_modEq s
  have hsum' := byteNumber_modEq s'
  rw [← hlength] at hsum'
  constructor
  · intro hmod
    have hpadded := (hsum.trans hmod).trans hsum'.symm
    have hplain := hpadded.cancel_right_of_coprime (hcoprime _)
    rw [hnumber, hnumber'] at hplain
    have hrun := Nat.ModEq.add_right_cancel' _ (Nat.ModEq.add_left_cancel' _ hplain)
    exact hrun.cancel_right_of_coprime (hcoprime _)
  · intro hmod
    have hplain : byteNumber s ≡ byteNumber s' [MOD 65535] := by
      rw [hnumber, hnumber']
      exact ((hmod.mul_right _).add_right _).add_left _
    exact (hsum.symm.trans (hplain.mul_right _)).trans hsum'

/-- **When a string with a burst verifies** like the string before: if nothing has changed, or
sixteen equal bits have been inverted and something is left of it. -/
theorem Burst16.onesSum_iff (h : Burst16 s s' a b) (hs : onesSum (beWords s) = 65535) :
    onesSum (beWords s') = 65535 ↔ (a = b ∨ Flipped a b) ∧ 0 < (beWords s').sum := by
  rw [onesSum_eq_iff fun _ ↦ lt_of_mem_beWords] at hs ⊢
  rw [← h.sum_modEq_iff]
  have hzero : (beWords s).sum ≡ 0 [MOD 65535] := Nat.modEq_zero_iff_dvd.mpr hs.1
  refine and_congr_left fun _ ↦ ?_
  rw [← Nat.modEq_zero_iff_dvd]
  exact ⟨fun h' ↦ hzero.trans h'.symm, fun h' ↦ h'.symm.trans hzero⟩

end

end NatGhost
