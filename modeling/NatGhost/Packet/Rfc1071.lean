import NatGhost.Foundation.Visits
import NatGhost.Packet.Checksum

/-!
# The two checksum functions compute the Internet checksum

`checksum` and `ip_checksum` load words in host order and fold their carries differently. RFC 1071
takes the words in network order, with a zero byte behind a string of odd length, and adds them in
ones-complement arithmetic. All three are the same function of the bytes, up to the byte order of
the result, which the store of a little-endian host exchanges back.

The proof never looks at carries. A ones-complement sum is a word, and a word is determined by its
residue modulo 65535 and by whether it is zero (`word_eq_of_modEq`); both ways of folding keep
residue and zero.
-/

namespace NatGhost

/-! ## The definition of RFC 1071 -/

/-- The string with a zero byte appended if its length is odd. -/
def padded (data : List UInt8) : List UInt8 := if data.length % 2 = 1 then data ++ [0] else data

/-- The checksum of RFC 1071: the complement of the ones-complement sum of the words in network
order. -/
def rfc1071 (data : List UInt8) : UInt16 := ~~~UInt16.ofNat (onesSum (beWords (padded data)))

theorem beWords_padded (data : List UInt8) : beWords (padded data) = beWords data := by
  induction data using beWords.induct with
  | case1 b₀ b₁ data ih =>
    have hpadded : padded (b₀ :: b₁ :: data) = b₀ :: b₁ :: padded data := by
      have hlength : (b₀ :: b₁ :: data).length % 2 = data.length % 2 := by
        rw [List.length_cons, List.length_cons]
        omega
      rw [padded, padded, hlength, List.cons_append, List.cons_append]
      split_ifs <;> rfl
    rw [hpadded, beWords, beWords, ih]
  | case2 b => rfl
  | case3 => rfl

theorem toNat_rfc1071 (data : List UInt8) :
    (rfc1071 data).toNat = 65535 - onesSum (beWords data) := by
  have h : onesSum (beWords data) < 65536 := onesSum_lt fun _ ↦ lt_of_mem_beWords
  rw [rfc1071, beWords_padded, UInt16.toNat_not, UInt16.toNat_ofNat_of_lt' h]
  rfl

/-! ## The additions of the accumulator -/

/-- The words the summing loop adds, promoted to 32 bits. -/
def hostWords : List UInt8 → List UInt32
  | b₀ :: b₁ :: data => (le16 b₀ b₁).toUInt32 :: hostWords data
  | [b] => [b.toUInt32]
  | [] => []

theorem sumWords_eq_foldl (data : List UInt8) (sum : UInt32) :
    sumWords data sum = (hostWords data).foldl (· + ·) sum := by
  induction data, sum using sumWords.induct with
  | case1 b₀ b₁ data sum ih => rw [sumWords, ih, hostWords, List.foldl_cons]
  | case2 b sum => rfl
  | case3 sum => rfl

theorem map_toNat_hostWords (data : List UInt8) :
    (hostWords data).map UInt32.toNat = leWords data := by
  induction data using hostWords.induct with
  | case1 b₀ b₁ data ih => rw [hostWords, List.map_cons, ih, UInt16.toNat_toUInt32, leWords]
  | case2 b => rw [hostWords, List.map_singleton, UInt8.toNat_toUInt32, leWords]
  | case3 => rfl

/-- The additions of the summing loop: the accumulator, and what is added to it. -/
def loopAdditions (data : List UInt8) : List (UInt32 × UInt32) :=
  visits (· + ·) 0 (hostWords data)

/-- The additions of the two folds of `checksum`, from the accumulator the loop leaves. -/
def twoFoldAdditions (sum : UInt32) : List (UInt32 × UInt32) :=
  let folded := (sum >>> 16) + (sum &&& (0xFFFF : UInt32))
  [(sum >>> 16, sum &&& (0xFFFF : UInt32)), (folded, folded >>> 16)]

/-- The additions of the folding loop of `ip_checksum`. -/
def carryAdditions (sum : UInt32) : List (UInt32 × UInt32) :=
  if sum >>> 16 ≠ 0 then
    (sum &&& (0xFFFF : UInt32), sum >>> 16)
      :: carryAdditions ((sum &&& (0xFFFF : UInt32)) + (sum >>> 16))
  else []
termination_by sum.toNat
decreasing_by
  rename_i h
  exact toNat_foldCarry_lt h

/-- An addition of 32-bit words without overflow. -/
def Fits (addition : UInt32 × UInt32) : Prop := addition.1.toNat + addition.2.toNat < 2 ^ 32

theorem fits_of_mem_visits {ws : List UInt32} {sum : UInt32} {v : UInt32 × UInt32}
    (h : sum.toNat + (ws.map UInt32.toNat).sum < 2 ^ 32) (hv : v ∈ visits (· + ·) sum ws) :
    Fits v := by
  induction ws generalizing sum with
  | nil => exact absurd hv List.not_mem_nil
  | cons w ws ih =>
    rw [List.map_cons, List.sum_cons, ← Nat.add_assoc] at h
    have hfits : sum.toNat + w.toNat < 2 ^ 32 := Nat.lt_of_le_of_lt (Nat.le_add_right _ _) h
    rcases List.mem_cons.mp hv with rfl | hv
    · exact hfits
    · refine ih ?_ hv
      rwa [UInt32.toNat_add, Nat.mod_eq_of_lt hfits]

theorem leSum_lt_of_length {data : List UInt8} (h : data.length ≤ 131072) :
    leSum data < 2 ^ 32 := by
  have := leSum_le data
  omega

theorem fits_of_mem_loopAdditions {data : List UInt8} (h : data.length ≤ 131072)
    {v : UInt32 × UInt32} (hv : v ∈ loopAdditions data) : Fits v := by
  refine fits_of_mem_visits ?_ hv
  rw [map_toNat_hostWords]
  exact (Nat.zero_add _).trans_lt (leSum_lt_of_length h)

theorem fits_halves (sum : UInt32) : Fits (sum &&& (0xFFFF : UInt32), sum >>> 16) := by
  have hsum := sum.toNat_lt
  rw [Fits, toNat_and_low, toNat_shiftRight_sixteen]
  omega

theorem fits_of_mem_twoFoldAdditions {sum : UInt32} {v : UInt32 × UInt32}
    (hv : v ∈ twoFoldAdditions sum) : Fits v := by
  have hhalves := fits_halves sum
  have hsum := sum.toNat_lt
  rw [Fits] at hhalves ⊢
  rcases List.mem_cons.mp hv with rfl | hv
  · rwa [Nat.add_comm]
  · obtain rfl := List.mem_singleton.mp hv
    rw [toNat_shiftRight_sixteen, UInt32.add_comm, toNat_foldCarry, foldCarry]
    omega

theorem fits_of_mem_carryAdditions {sum : UInt32} {v : UInt32 × UInt32}
    (hv : v ∈ carryAdditions sum) : Fits v := by
  induction sum using carryAdditions.induct with
  | case1 sum h ih =>
    rw [carryAdditions, if_pos h] at hv
    rcases List.mem_cons.mp hv with rfl | hv
    · exact fits_halves sum
    · exact ih hv
  | case2 sum h =>
    rw [carryAdditions, if_neg h] at hv
    exact absurd hv List.not_mem_nil

/-! ## Two folds and any number of folds -/

theorem foldCarries_eq_zero {sum : UInt32} : (foldCarries sum).toNat = 0 ↔ sum.toNat = 0 := by
  induction sum using foldCarries.induct with
  | case1 sum h ih => rw [foldCarries, if_pos h, ih, toNat_foldCarry, foldCarry_eq_zero]
  | case2 sum h => rw [foldCarries, if_neg h]

theorem secondFold_eq_zero {s : ℕ} (h : s ≤ 131070) : (s + s / 65536) % 65536 = 0 ↔ s = 0 := by
  rcases Nat.lt_or_ge s 65536 with hlt | hge
  · rw [Nat.div_eq_of_lt hlt, Nat.add_zero, Nat.mod_eq_of_lt hlt]
  · have hcarry : s / 65536 = 1 := by omega
    have hlow : (s + 1) % 65536 = s - 65535 := by omega
    rw [hcarry, hlow]
    omega

theorem twoFolds_eq (sum : UInt32) :
    let folded := (sum >>> 16) + (sum &&& (0xFFFF : UInt32))
    (folded + (folded >>> 16)).toNat % 65536 = (foldCarries sum).toNat := by
  intro folded
  have hfolded : folded.toNat = foldCarry sum.toNat := by
    rw [← toNat_foldCarry, UInt32.add_comm]
  have hle : folded.toNat ≤ 131070 := by
    have hsum := sum.toNat_lt
    rw [hfolded, foldCarry]
    omega
  have hsecond : (folded + (folded >>> 16)).toNat = folded.toNat + folded.toNat / 65536 := by
    rw [UInt32.toNat_add, toNat_shiftRight_sixteen]
    exact Nat.mod_eq_of_lt (by omega)
  obtain ⟨hlt, hmod⟩ := foldCarries_spec sum
  rw [hsecond]
  refine word_eq_of_modEq (Nat.mod_lt _ (by decide)) hlt ?_ ?_
  · calc (folded.toNat + folded.toNat / 65536) % 65536
        ≡ folded.toNat [MOD 65535] := secondFold_modEq hle
      _ ≡ sum.toNat [MOD 65535] := hfolded ▸ foldCarry_modEq _
      _ ≡ (foldCarries sum).toNat [MOD 65535] := hmod.symm
  · have hzero : folded.toNat = 0 ↔ sum.toNat = 0 := hfolded ▸ foldCarry_eq_zero
    rw [foldCarries_eq_zero, ← hzero, secondFold_eq_zero hle]

theorem checksum_eq_ipChecksum (data : List UInt8) : checksum data = ipChecksum data := by
  apply UInt16.toNat_inj.mp
  have hlt := (foldCarries_spec (sumWords data 0)).1
  rw [checksum, ipChecksum, toNat_complement, toNat_complement, twoFolds_eq, Nat.mod_eq_of_lt hlt]

/-! ## Network order -/

theorem toNat_foldCarries_sumWords {data : List UInt8} (h : leSum data < 2 ^ 32) :
    (foldCarries (sumWords data 0)).toNat = onesSum (leWords data) := by
  obtain ⟨hlt, hmod⟩ := foldCarries_spec (sumWords data 0)
  have hzero : (foldCarries (sumWords data 0)).toNat = 0 ↔ (sumWords data 0).toNat = 0 :=
    foldCarries_eq_zero
  rw [toNat_sumWords_zero h] at hmod hzero
  exact eq_onesSum (fun _ ↦ lt_of_mem_leWords) hlt hmod hzero

theorem ipChecksum_eq_htons {data : List UInt8} (h : leSum data < 2 ^ 32) :
    ipChecksum data = htons (rfc1071 data) := by
  have hle : onesSum (leWords data) < 65536 := onesSum_lt fun _ ↦ lt_of_mem_leWords
  have hbe : onesSum (beWords data) < 65536 := onesSum_lt fun _ ↦ lt_of_mem_beWords
  apply UInt16.toNat_inj.mp
  rw [toNat_htons, toNat_rfc1071, swapBytes_complement hbe, onesSum_beWords,
    swapBytes_swapBytes hle, ipChecksum, toNat_complement, toNat_foldCarries_sumWords h,
      Nat.mod_eq_of_lt hle]

/-- **Both functions compute the checksum of RFC 1071.** They agree on every byte string. On a
string of at most 131072 bytes the two bytes they store are those of RFC 1071 in network order, and
no addition they perform, in the loop or while folding, overflows 32 bits. -/
theorem checksum_isRfc1071 :
    (∀ data : List UInt8, checksum data = ipChecksum data) ∧
      ∀ data : List UInt8, data.length ≤ 131072 →
        bytesLe16 (checksum data) = bytesBe16 (rfc1071 data) ∧
          bytesLe16 (ipChecksum data) = bytesBe16 (rfc1071 data) ∧
          (∀ addition ∈ loopAdditions data, Fits addition) ∧
          (∀ addition ∈ twoFoldAdditions (sumWords data 0), Fits addition) ∧
          ∀ addition ∈ carryAdditions (sumWords data 0), Fits addition := by
  refine ⟨checksum_eq_ipChecksum, fun data h ↦ ?_⟩
  have hbytes : bytesLe16 (ipChecksum data) = bytesBe16 (rfc1071 data) := by
    rw [ipChecksum_eq_htons (leSum_lt_of_length h), bytesLe16_htons]
  refine ⟨?_, hbytes, ?_, ?_, ?_⟩
  · rw [checksum_eq_ipChecksum, hbytes]
  · intro addition hmem
    exact fits_of_mem_loopAdditions h hmem
  · intro addition hmem
    exact fits_of_mem_twoFoldAdditions hmem
  · intro addition hmem
    exact fits_of_mem_carryAdditions hmem

/-- Five bytes whose sum carries. -/
theorem checksum_isRfc1071_five :
    ([0xFF, 0xFE, 0x80, 0x01, 0x7F] : List UInt8).length ≤ 131072 ∧
      bytesLe16 (checksum [0xFF, 0xFE, 0x80, 0x01, 0x7F])
        = bytesBe16 (rfc1071 [0xFF, 0xFE, 0x80, 0x01, 0x7F]) :=
  ⟨by decide, (checksum_isRfc1071.2 [0xFF, 0xFE, 0x80, 0x01, 0x7F] (by decide)).1⟩

end NatGhost
