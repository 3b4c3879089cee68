import Mathlib.Tactic.IntervalCases
import NatGhost.Stun.ReadBounds

/-!
# The decoder of the NAT analyzer

`get_mapped_address` does not walk over the attributes. It looks for the first pair of bytes `00 20`
behind the header, at any offset, and takes the six bytes at offsets 6 to 11 from there as port and
address. The memory is the receive buffer, so an address is an index into `buf`.

What the loop does is decided by the first pair (`FirstPair`). Two properties are read off it.

* The loop asks for `i < len - 8` and then reads up to `buf[i + 11]`, three bytes more than the
  bound leaves: a pair in the last eleven bytes takes its result from behind the datagram.
* The port is exclusive-ored with `0x2112` before its bytes are swapped, and `0x2112` is in the
  order of the host. So the port comes out with the wrong bytes flipped, `0x3333` away from what
  `parse_xor_mapped_address` makes of the same attribute.
-/

namespace NatGhost

open ReadTree

/-! ## The code -/

/-- The branch that stores a result. -/
def storePair (i : ℕ) : ReadTree ℕ UInt8 (ℤ × MappedOut) := do
  let xorPort := le16 (← cell (i + 6)) (← cell (i + 7))
  let xorPort := xorPort ^^^ (magicCookie >>> 16).toUInt16
  let xorIp := le32 (← cell (i + 8)) (← cell (i + 9)) (← cell (i + 10)) (← cell (i + 11))
  pure (0, { outIp := inetNtop (xorIp ^^^ htonl magicCookie), outPort := ntohs xorPort })

/-- The `for` loop. The second byte of a pair is read only if the first one is zero. -/
def scanPairs (i : ℕ) (len : ℤ) (out : MappedOut) : ReadTree ℕ UInt8 (ℤ × MappedOut) :=
  if (i : ℤ) < len - 8 then do
    if (← cell i) = 0x00 then
      if (← cell (i + 1)) = 0x20 then storePair i else scanPairs (i + 1) len out
    else scanPairs (i + 1) len out
  else pure (-1, out)
termination_by (len - i).toNat
decreasing_by all_goals omega

/-- `get_mapped_address` from the return of `recvfrom` on: the return code, and what `*result` holds
afterwards. -/
def decodeMappedAddress (len : ℤ) (out : MappedOut) : ReadTree ℕ UInt8 (ℤ × MappedOut) :=
  if len ≤ 0 then pure (-1, out) else scanPairs 20 len out

/-! ## One turn -/

section

variable {mem mem' : ℕ → UInt8} {i j : ℕ} {len : ℤ} {out : MappedOut}

/-- The two bytes the loop looks for. -/
def PairAt (mem : ℕ → UInt8) (i : ℕ) : Prop := mem i = 0x00 ∧ mem (i + 1) = 0x20

instance (mem : ℕ → UInt8) (i : ℕ) : Decidable (PairAt mem i) := inferInstanceAs (Decidable (_ ∧ _))

def pairAddress (mem : ℕ → UInt8) (i : ℕ) : MappedOut where
  outIp := dottedQuad (mem (i + 8) ^^^ 0x21) (mem (i + 9) ^^^ 0x12) (mem (i + 10) ^^^ 0xA4)
    (mem (i + 11) ^^^ 0x42)
  outPort := be16 (mem (i + 6)) (mem (i + 7)) ^^^ 0x1221

theorem ntohs_le16_xor (b₀ b₁ : UInt8) : ntohs (le16 b₀ b₁ ^^^ 0x2112) = be16 b₀ b₁ ^^^ 0x1221 := by
  have hle : (0x2112 : UInt16) = le16 0x12 0x21 := by decide
  have hbe : (0x1221 : UInt16) = be16 0x12 0x21 := by decide
  rw [hle, hbe, le16_xor, ntohs_le16, be16_xor]

theorem run_storePair (mem : ℕ → UInt8) (i : ℕ) :
    run mem (storePair i) = (0, pairAddress mem i) := by
  have hconst : (magicCookie >>> 16).toUInt16 = 0x2112 := by decide
  simp only [storePair, run_bind, run_cell, run_pure, pairAddress, htonl_magicCookie, le32_xor,
    inetNtop_le32, hconst, ntohs_le16_xor]

theorem reads_storePair (mem : ℕ → UInt8) (i : ℕ) :
    reads mem (storePair i) = [i + 6, i + 7, i + 8, i + 9, i + 10, i + 11] := by
  simp [storePair]

theorem scanPairs_stop (h : len - 8 ≤ i) : scanPairs i len out = pure (-1, out) := by
  rw [scanPairs, if_neg (Int.not_lt.mpr h)]

theorem run_scanPairs_pair (hi : (i : ℤ) < len - 8) (h : PairAt mem i) :
    run mem (scanPairs i len out) = (0, pairAddress mem i) := by
  rw [scanPairs, if_pos hi, run_bind, run_cell, if_pos h.1, run_bind, run_cell, if_pos h.2,
    run_storePair]

theorem run_scanPairs_next (hi : (i : ℤ) < len - 8) (h : ¬PairAt mem i) :
    run mem (scanPairs i len out) = run mem (scanPairs (i + 1) len out) := by
  rw [scanPairs, if_pos hi, run_bind, run_cell]
  split_ifs with hzero
  · rw [run_bind, run_cell, if_neg fun htype ↦ h ⟨hzero, htype⟩]
  · rfl

theorem reads_scanPairs_turn (hi : (i : ℤ) < len - 8) :
    reads mem (scanPairs i len out)
      = i :: (if mem i = 0x00 then [i + 1] else [])
        ++ if PairAt mem i then [i + 6, i + 7, i + 8, i + 9, i + 10, i + 11]
          else reads mem (scanPairs (i + 1) len out) := by
  rw [scanPairs, if_pos hi, reads_bind, reads_cell, run_cell]
  by_cases hzero : mem i = 0x00
  · rw [if_pos hzero, if_pos hzero, reads_bind, reads_cell, run_cell]
    by_cases htype : mem (i + 1) = 0x20
    · rw [if_pos htype, if_pos ⟨hzero, htype⟩, reads_storePair]
      rfl
    · rw [if_neg htype, if_neg fun h ↦ htype h.2]
      rfl
  · rw [if_neg hzero, if_neg hzero, if_neg fun h ↦ hzero h.1]

theorem pair_induction {motive : ℕ → Prop} (mem : ℕ → UInt8) (len : ℤ)
    (stop : ∀ i : ℕ, len - 8 ≤ i → motive i)
    (pair : ∀ i : ℕ, (i : ℤ) < len - 8 → PairAt mem i → motive i)
    (next : ∀ i : ℕ, (i : ℤ) < len - 8 → ¬PairAt mem i → motive (i + 1) → motive i) (i : ℕ) :
    motive i := by
  induction hn : (len - i).toNat using Nat.strong_induction_on generalizing i with
  | _ n ih =>
    rcases Int.lt_or_le (i : ℤ) (len - 8) with hi | hstop
    · by_cases hpair : PairAt mem i
      · exact pair i hi hpair
      · exact next i hi hpair (ih _ (by omega) (i + 1) rfl)
    · exact stop i hstop

/-! ## The first pair -/

/-- The first pair from `i` on that the loop looks at is at `p`. -/
structure FirstPairFrom (mem : ℕ → UInt8) (len : ℤ) (i p : ℕ) : Prop where
  le : i ≤ p
  inside : (p : ℤ) < len - 8
  pair : PairAt mem p
  first : ∀ j, i ≤ j → j < p → ¬PairAt mem j

abbrev FirstPair (mem : ℕ → UInt8) (len : ℤ) (p : ℕ) : Prop := FirstPairFrom mem len 20 p

theorem FirstPairFrom.unique {p q : ℕ} (hp : FirstPairFrom mem len i p)
    (hq : FirstPairFrom mem len i q) :
    p = q := by
  rcases Nat.lt_trichotomy p q with hlt | heq | hgt
  · exact absurd hp.pair (hq.first p hp.le hlt)
  · exact heq
  · exact absurd hq.pair (hp.first q hq.le hgt)

theorem FirstPairFrom.of_succ {p : ℕ} (h : FirstPairFrom mem len (i + 1) p) (hi : ¬PairAt mem i) :
    FirstPairFrom mem len i p where
  le := Nat.le_of_succ_le h.le
  inside := h.inside
  pair := h.pair
  first j hj hjp := by
    rcases Nat.eq_or_lt_of_le hj with rfl | hlt
    · exact hi
    · exact h.first j hlt hjp

/-- **What the loop does**: it takes its result from the first pair, or fails and leaves the outputs
alone. -/
theorem firstPair_or_run_eq (mem : ℕ → UInt8) (len : ℤ) (i : ℕ) :
    (∃ p, FirstPairFrom mem len i p ∧
        ∀ out, run mem (scanPairs i len out) = (0, pairAddress mem p)) ∨
      (∀ j : ℕ, i ≤ j → (j : ℤ) < len - 8 → ¬PairAt mem j) ∧
        ∀ out, run mem (scanPairs i len out) = (-1, out) := by
  induction i using pair_induction mem len with
  | stop i hstop =>
    refine Or.inr ⟨fun j hj hlt ↦ by omega, fun out ↦ ?_⟩
    rw [scanPairs_stop hstop, run_pure]
  | pair i hi hpair =>
    refine Or.inl ⟨i, ⟨le_rfl, hi, hpair, fun j hj hlt ↦ absurd hj (Nat.not_le.mpr hlt)⟩,
      fun out ↦ ?_⟩
    exact run_scanPairs_pair hi hpair
  | next i hi hnot ih =>
    rcases ih with ⟨p, hp, hrun⟩ | ⟨hnone, hrun⟩
    · refine Or.inl ⟨p, hp.of_succ hnot, fun out ↦ ?_⟩
      rw [run_scanPairs_next hi hnot, hrun]
    · refine Or.inr ⟨fun j hj hlt ↦ ?_, fun out ↦ ?_⟩
      · rcases Nat.eq_or_lt_of_le hj with rfl | hlt'
        · exact hnot
        · exact hnone j hlt' hlt
      · rw [run_scanPairs_next hi hnot, hrun]

theorem FirstPairFrom.run_scanPairs {p : ℕ} (h : FirstPairFrom mem len i p) :
    run mem (scanPairs i len out) = (0, pairAddress mem p) := by
  rcases firstPair_or_run_eq mem len i with ⟨q, hq, hrun⟩ | ⟨hnone, -⟩
  · rw [hrun, h.unique hq]
  · exact absurd h.pair (hnone p h.le h.inside)

theorem decodeMappedAddress_eq (len : ℤ) (out : MappedOut) :
    decodeMappedAddress len out = scanPairs 20 len out := by
  rw [decodeMappedAddress]
  split_ifs with hlen
  · rw [scanPairs_stop (by omega)]
  · rfl

theorem FirstPair.run_decode {p : ℕ} (h : FirstPair mem len p) :
    run mem (decodeMappedAddress len out) = (0, pairAddress mem p) := by
  rw [decodeMappedAddress_eq, h.run_scanPairs]

/-! ## Which bytes are read -/

theorem mem_reads_scanPairs {a : ℕ} (h : a ∈ reads mem (scanPairs i len out)) :
    (a : ℤ) < len ∨ ∃ p, FirstPairFrom mem len i p ∧ a ≤ p + 11 := by
  induction i using pair_induction mem len with
  | stop i hstop =>
    rw [scanPairs_stop hstop, reads_pure] at h
    exact absurd h List.not_mem_nil
  | pair i hi hpair =>
    rw [reads_scanPairs_turn hi, if_pos hpair.1, if_pos hpair] at h
    refine Or.inr ⟨i, ⟨le_rfl, hi, hpair, fun j hj hlt ↦ absurd hj (Nat.not_le.mpr hlt)⟩, ?_⟩
    simp only [List.cons_append, List.nil_append, List.mem_cons, List.not_mem_nil, or_false] at h
    omega
  | next i hi hnot ih =>
    rw [reads_scanPairs_turn hi, if_neg hnot, List.mem_append, List.mem_cons] at h
    rcases h with (rfl | hsecond) | hrest
    · exact Or.inl (by omega)
    · split_ifs at hsecond
      · rw [List.mem_singleton] at hsecond
        exact Or.inl (by omega)
      · exact absurd hsecond List.not_mem_nil
    · rcases ih hrest with hin | ⟨p, hp, hle⟩
      · exact Or.inl hin
      · exact Or.inr ⟨p, hp.of_succ hnot, hle⟩

theorem FirstPairFrom.mem_reads {p : ℕ} (h : FirstPairFrom mem len i p) :
    p + 11 ∈ reads mem (scanPairs i len out) := by
  induction i using pair_induction mem len with
  | stop i hstop => exact absurd h.inside (by have := h.le; omega)
  | pair i hi hpair =>
    obtain rfl : p = i := by
      by_contra hne
      exact h.first i le_rfl (lt_of_le_of_ne h.le (Ne.symm hne)) hpair
    rw [reads_scanPairs_turn hi, if_pos hpair]
    exact List.mem_append_right _ (by simp)
  | next i hi hnot ih =>
    rw [reads_scanPairs_turn hi, if_neg hnot]
    have hlt : i < p := lt_of_le_of_ne h.le fun heq ↦ hnot (heq ▸ h.pair)
    exact List.mem_append_right _
      (ih ⟨hlt, h.inside, h.pair, fun j hj hjp ↦ h.first j (Nat.le_of_succ_le hj) hjp⟩)

/-- Every index used is below `len`. -/
def ReadsBelow (mem : ℕ → UInt8) (len : ℤ) : Prop :=
  ∀ out, ∀ a ∈ reads mem (decodeMappedAddress len out), (a : ℤ) < len

/-- Return code and outputs do not depend on what is in the buffer behind the datagram. -/
def IndependentOfRest (mem : ℕ → UInt8) (len : ℤ) : Prop :=
  ∀ out mem', AgreeOn 0 len mem mem' →
    run mem' (decodeMappedAddress len out) = run mem (decodeMappedAddress len out)

def PairHasRoom (mem : ℕ → UInt8) (len : ℤ) : Prop := ∀ p, FirstPair mem len p → (p : ℤ) + 12 ≤ len

theorem PairHasRoom.readsBelow (h : PairHasRoom mem len) : ReadsBelow mem len := by
  intro out a ha
  rw [decodeMappedAddress_eq] at ha
  rcases mem_reads_scanPairs ha with hin | ⟨p, hp, hle⟩
  · exact hin
  · have hroom := h p hp
    omega

theorem ReadsBelow.pairHasRoom (h : ReadsBelow mem len) : PairHasRoom mem len := by
  intro p hp
  have hlast := h ⟨"", 0⟩ (p + 11) (by rw [decodeMappedAddress_eq]; exact hp.mem_reads)
  omega

theorem ReadsBelow.independentOfRest (h : ReadsBelow mem len) : IndependentOfRest mem len := by
  intro out mem' hagree
  refine run_congr _ fun a ha ↦ hagree a (Nat.zero_le a) ?_
  rw [Nat.cast_zero, zero_add]
  exact h out a ha

theorem IndependentOfRest.pairHasRoom (h : IndependentOfRest mem len) : PairHasRoom mem len := by
  intro p hp
  by_contra hout
  -- the byte is outside, so another one may be there
  obtain ⟨mem', hlast, hold⟩ : ∃ mem' : ℕ → UInt8, mem' (p + 11) ≠ mem (p + 11) ∧
      ∀ a, a ≠ p + 11 → mem' a = mem a := by
    refine ⟨Function.update mem (p + 11) (mem (p + 11) + 1), ?_, fun a ha ↦
      Function.update_of_ne ha _ _⟩
    rw [Function.update_self, ne_eq, UInt8.add_eq_left]
    decide
  have hpair : ∀ j ≤ p, PairAt mem' j ↔ PairAt mem j := by
    intro j hj
    rw [PairAt, PairAt, hold j (by omega), hold (j + 1) (by omega)]
  have hp' : FirstPair mem' len p :=
    ⟨hp.le, hp.inside, (hpair p le_rfl).mpr hp.pair,
      fun j hj hjp ↦ mt (hpair j (Nat.le_of_lt hjp)).mp (hp.first j hj hjp)⟩
  have hsame := h ⟨"", 0⟩ mem' fun a _ ha ↦ hold a (by omega)
  rw [FirstPair.run_decode hp', FirstPair.run_decode hp] at hsame
  have hip := congrArg (fun r ↦ r.2.outIp) hsame
  simp only [pairAddress, dottedQuad_inj] at hip
  exact hlast ((UInt8.xor_left_inj _).mp hip.2.2.2)

end

/-- **When the loop stays inside the datagram.** It uses only indices below `len` exactly when the
first pair has its port and address in front of the end, and exactly then its result is independent
of the rest of the buffer. -/
theorem readsBelow_iff (mem : ℕ → UInt8) (len : ℤ) :
    (ReadsBelow mem len ↔ PairHasRoom mem len) ∧
    (IndependentOfRest mem len ↔ PairHasRoom mem len) :=
  ⟨⟨fun h ↦ h.pairHasRoom, fun h ↦ h.readsBelow⟩,
    ⟨fun h ↦ h.pairHasRoom, fun h ↦ h.readsBelow.independentOfRest⟩⟩

/-- A datagram of thirty bytes with a pair at offset 21. -/
def latePair : List UInt8 := List.replicate 20 0 ++ [1, 0x00, 0x20, 0, 0, 0, 0, 0, 0, 0]

/-- Two of the address bytes are taken from behind the datagram. -/
theorem latePair_reads_outside : ¬ReadsBelow (overlay 0 latePair fun _ ↦ 0) 30 := by
  intro h
  have hread : 32 ∈ reads (overlay 0 latePair fun _ ↦ 0) (decodeMappedAddress 30 ⟨"", 0⟩) := by
    decide +kernel
  exact absurd (h ⟨"", 0⟩ 32 hread) (by decide)

/-! ## The two decoders -/

/-- `uint8_t buf[1024];` holds the beginning of a datagram that `recvfrom` has received into it,
over what was there before; what does not fit is dropped. -/
def recvBuf (bytes : List UInt8) (stale : ℕ → UInt8) : ℕ → UInt8 :=
  overlay 0 (bytes.take 1024) stale

/-- What `recvfrom` returns then. -/
def recvLen (bytes : List UInt8) : ℕ := (bytes.take 1024).length

/-- Both decoders accept the message and come to the same address and port. -/
def DecodersAgree (bytes : List UInt8) (stale : ℕ → UInt8) : Prop :=
  ∀ out, (run (recvBuf bytes stale) (decodeMappedAddress (recvLen bytes) out)).1 = 0 ∧
    (run (overlay 0 bytes stale) (parseXorMappedAddress 0 bytes.length out)).1 = 0 ∧
    (run (recvBuf bytes stale) (decodeMappedAddress (recvLen bytes) out)).2
      = (run (overlay 0 bytes stale) (parseXorMappedAddress 0 bytes.length out)).2

/-- What stands behind the first pair is the address of this attribute and its port with the bits of
`0x3333` flipped. -/
def CopiedAhead (mem : ℕ → UInt8) (len : ℕ) (a : Attribute) : Prop :=
  ∃ p, FirstPair mem len p ∧
    be16 (mem (p + 6)) (mem (p + 7)) = be16 (a.value.getD 2 0) (a.value.getD 3 0) ^^^ 0x3333 ∧
    ∀ k < 4, mem (p + 8 + k) = a.value.getD (4 + k) 0

section

variable {mem : ℕ → UInt8} {a : Attribute} {attr p : ℕ}

theorem pairAddress_eq_address_iff :
    pairAddress mem p = a.address ↔
      be16 (mem (p + 6)) (mem (p + 7)) = be16 (a.value.getD 2 0) (a.value.getD 3 0) ^^^ 0x3333 ∧
        ∀ k < 4, mem (p + 8 + k) = a.value.getD (4 + k) 0 := by
  have hport : be16 (mem (p + 6)) (mem (p + 7)) ^^^ 0x1221
        = be16 (a.value.getD 2 0) (a.value.getD 3 0) ^^^ 0x2112 ↔
      be16 (mem (p + 6)) (mem (p + 7)) = be16 (a.value.getD 2 0) (a.value.getD 3 0) ^^^ 0x3333 := by
    have hconst : (0x2112 : UInt16) = 0x3333 ^^^ 0x1221 := by decide
    rw [hconst, ← UInt16.xor_assoc, UInt16.xor_left_inj]
  have hbytes : (∀ k < 4, mem (p + 8 + k) = a.value.getD (4 + k) 0) ↔
      mem (p + 8) = a.value.getD 4 0 ∧ mem (p + 9) = a.value.getD 5 0 ∧
        mem (p + 10) = a.value.getD 6 0 ∧ mem (p + 11) = a.value.getD 7 0 := by
    constructor
    · intro h
      exact ⟨h 0 (by decide), h 1 (by decide), h 2 (by decide), h 3 (by decide)⟩
    · rintro ⟨h₀, h₁, h₂, h₃⟩ k hk
      interval_cases k
      · exact h₀
      · exact h₁
      · exact h₂
      · exact h₃
  rw [hbytes, pairAddress, Attribute.address, MappedOut.mk.injEq, dottedQuad_inj, hport,
    UInt8.xor_left_inj, UInt8.xor_left_inj, UInt8.xor_left_inj, UInt8.xor_left_inj, and_comm]

/-- **The same attribute, decoded twice.** Where the pair is the type field of an attribute, the
address is right and the port is off by `0x3333`. -/
theorem pairAddress_of_holds (h : Holds mem attr a.encode) (hlen : 8 ≤ a.value.length) :
    (pairAddress mem attr).outIp = a.address.outIp ∧
      (pairAddress mem attr).outPort = a.address.outPort ^^^ 0x3333 := by
  have hsame : addressAt mem attr = a.address := addressAt_of_holds h hlen
  rw [← hsame]
  refine ⟨rfl, ?_⟩
  have hconst : (0x1221 : UInt16) = 0x2112 ^^^ 0x3333 := by decide
  rw [pairAddress, addressAt, hconst, UInt16.xor_assoc]

theorem pairAt_of_holds (h : Holds mem attr a.encode) (htype : a.type = 0x0020) :
    PairAt mem attr := by
  have hfield := (holds_append_iff.mp (holds_append_iff.mp (holds_append_iff.mp h).1).1).1
  rw [htype] at hfield
  exact ⟨hfield 0 Nat.zero_lt_two, hfield 1 Nat.one_lt_two⟩

end

/-- **When the decoders agree.** On a datagram with an IPv4 XOR-MAPPED-ADDRESS they produce the same
address and port exactly if the first pair of bytes `00 20` in the receive buffer is not that
attribute but stands by chance in front of the same address and of the port with `0x3333`
flipped. -/
theorem decodersAgree_iff (header : Vector UInt8 20) (attrs : List Attribute) (stale : ℕ → UInt8)
    (h : ∃ a ∈ attrs, a.IsXorMapped) :
    DecodersAgree (datagram header attrs) stale ↔
      ∃ a, attrs.find? (fun a ↦ decide a.IsXorMapped) = some a ∧
        CopiedAhead (recvBuf (datagram header attrs) stale)
          (recvLen (datagram header attrs)) a := by
  obtain ⟨a, ha⟩ : ∃ a, attrs.find? (fun a ↦ decide a.IsXorMapped) = some a := by
    obtain ⟨b, hb, hmapped⟩ := h
    exact Option.isSome_iff_exists.mp (List.find?_isSome.mpr ⟨b, hb, decide_eq_true hmapped⟩)
  have hparse : ∀ out, run (overlay 0 (datagram header attrs) stale)
      (parseXorMappedAddress 0 (datagram header attrs).length out) = (0, a.address) := by
    intro out
    rw [run_parse_datagram, firstAddress, ha]
  constructor
  · intro hagree
    obtain ⟨haccepts, -, hsame⟩ := hagree ⟨"", 0⟩
    rw [decodeMappedAddress_eq] at haccepts hsame
    rcases firstPair_or_run_eq (recvBuf (datagram header attrs) stale)
      (recvLen (datagram header attrs)) 20 with ⟨p, hp, hrun⟩ | ⟨-, hrun⟩
    · rw [hrun, hparse] at hsame
      exact ⟨a, ha, p, hp, pairAddress_eq_address_iff.mp hsame⟩
    · -- without a pair in the buffer the message is not accepted
      rw [hrun] at haccepts
      exact absurd haccepts (by decide)
  · rintro ⟨b, hb, q, hq, hcopied⟩ out
    obtain rfl : a = b := Option.some_injective _ (ha.symm.trans hb)
    rw [FirstPair.run_decode hq, hparse]
    exact ⟨rfl, rfl, pairAddress_eq_address_iff.mpr hcopied⟩

/-- The attribute for port 0x1234 and the address 192.0.2.33. -/
def mappedAttribute : Attribute where
  type := 0x0020
  value := [0x00, 0x01, 0x33, 0x26, 0xE1, 0x12, 0xA6, 0x63]
  padding := []
  length_lt := by decide
  length_padding := rfl

/-- An attribute of another type whose value happens to contain a pair with the same address behind
it. -/
def copyingAttribute : Attribute where
  type := 0x8022
  value := [0x00, 0x20, 0, 0, 0, 0, 0x00, 0x15, 0xE1, 0x12, 0xA6, 0x63]
  padding := []
  length_lt := by decide
  length_padding := rfl

/-- On an ordinary reply the two ports differ. -/
theorem ordinaryReply_decoded_differently :
    ¬DecodersAgree (datagram (Vector.replicate 20 0) [mappedAttribute]) fun _ ↦ 0 := by
  intro h
  have hports : (run (recvBuf (datagram (Vector.replicate 20 0) [mappedAttribute]) fun _ ↦ 0)
        (decodeMappedAddress 32 ⟨"", 0⟩)).2.outPort
      ≠ (run (overlay 0 (datagram (Vector.replicate 20 0) [mappedAttribute]) fun _ ↦ 0)
        (parseXorMappedAddress 0 32 ⟨"", 0⟩)).2.outPort := by decide +kernel
  exact hports (congrArg MappedOut.outPort (h ⟨"", 0⟩).2.2)

theorem decodersAgree_copied :
    DecodersAgree
      (datagram (Vector.replicate 20 0) [copyingAttribute, mappedAttribute]) fun _ ↦ 0 :=
  (decodersAgree_iff (Vector.replicate 20 0) [copyingAttribute, mappedAttribute] (fun _ ↦ 0)
    ⟨mappedAttribute, List.mem_cons_of_mem _ List.mem_cons_self, by decide⟩).mpr
    ⟨mappedAttribute, rfl, 24, ⟨by decide, by decide, by decide, by decide⟩, by decide, by decide⟩

end NatGhost
