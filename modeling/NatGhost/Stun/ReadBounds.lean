import NatGhost.Stun.XorMapped

/-!
# Which bytes the address parser reads

The loop of `parse_xor_mapped_address` asks for `remain >= 4` and then reads up to offset 11 of an
attribute, trusting the length the attribute declares. On a datagram that ends inside an announced
address the parser reads past it, and what it finds there (an earlier datagram in the same buffer,
or the next buffer) becomes the result.

`NoTruncatedAddress` is the property of the input that rules this out, and it is exact in a strong
sense: wherever it fails there are two memories that agree on the whole datagram and produce two
different addresses.
-/

namespace NatGhost

open ReadTree

/-! ## The two properties of a run -/

/-- Every byte read lies in the `len` bytes from `buf` on. -/
def ReadsInside (mem : ℕ → UInt8) (buf : ℕ) (len : ℤ) : Prop :=
  ∀ out, ∀ a ∈ reads mem (parseXorMappedAddress buf len out), buf ≤ a ∧ (a : ℤ) < buf + len

/-- Two memories agree on the `len` bytes from `buf` on. -/
def AgreeOn (buf : ℕ) (len : ℤ) (mem mem' : ℕ → UInt8) : Prop :=
  ∀ a : ℕ, buf ≤ a → (a : ℤ) < buf + len → mem' a = mem a

/-- Return code and outputs are determined by the datagram. -/
def DeterminedByDatagram (mem : ℕ → UInt8) (buf : ℕ) (len : ℤ) : Prop :=
  ∀ out mem', AgreeOn buf len mem mem' →
    run mem' (parseXorMappedAddress buf len out) = run mem (parseXorMappedAddress buf len out)

theorem ReadsInside.determinedByDatagram {mem : ℕ → UInt8} {buf : ℕ} {len : ℤ}
    (h : ReadsInside mem buf len) : DeterminedByDatagram mem buf len := fun out _ hagree ↦
  run_congr _ fun a ha ↦ hagree a (h out a ha).1 (h out a ha).2

/-! ## The condition on the input -/

/-- No attribute that the scan arrives at announces an address and is cut off by the end of the
datagram: its family byte is there, and, if that says IPv4, so are port and address. -/
def NoTruncatedAddress (mem : ℕ → UInt8) (buf : ℕ) (len : ℤ) : Prop :=
  ∀ p : ℕ, Scanned mem (buf + len) (buf + 20) p → (p : ℤ) + 4 ≤ buf + len →
    AnnouncesAddress mem p →
    (p : ℤ) + 6 ≤ buf + len ∧ (mem (p + 5) = 0x01 → (p : ℤ) + 12 ≤ buf + len)

section

variable {mem mem' : ℕ → UInt8} {buf attr : ℕ} {len stop : ℤ} {out : MappedOut}

private theorem reads_scan_inside
    (h : ∀ p : ℕ, Scanned mem stop attr p → (p : ℤ) + 4 ≤ stop → AnnouncesAddress mem p →
      (p : ℤ) + 6 ≤ stop ∧ (mem (p + 5) = 0x01 → (p : ℤ) + 12 ≤ stop)) :
    ∀ a ∈ reads mem (scanAttributes attr (stop - attr) out), attr ≤ a ∧ (a : ℤ) < stop := by
  induction attr using scan_induction mem stop with
  | done attr hstop =>
    intro a ha
    rw [reads_scan_stop hstop] at ha
    exact absurd ha List.not_mem_nil
  | step attr hremain ih =>
    intro a ha
    have hhere := h attr (.refl attr) (by omega)
    rw [reads_scan_turn hremain, List.mem_append, List.mem_append] at ha
    rcases ha with hheader | hfamily | hrest
    · -- the four bytes the loop guard covers
      simp only [List.mem_cons, List.not_mem_nil, or_false] at hheader
      omega
    · -- the family byte, read for an announced address only
      split_ifs at hfamily with hannounce
      · have hsix := (hhere hannounce).1
        rw [List.mem_singleton] at hfamily
        omega
      · exact absurd hfamily List.not_mem_nil
    · -- port and address, or the attributes behind this one
      split_ifs at hrest with hmapped
      · have htwelve := (hhere hmapped.1).2 hmapped.2
        simp only [List.mem_cons, List.not_mem_nil, or_false] at hrest
        omega
      · have hnext : stop - attr - skipLength (alenAt mem attr)
            = stop - nextAttr mem attr := by rw [nextAttr]; omega
        have hforward := add_four_le_nextAttr mem attr
        rw [hnext] at hrest
        have := ih (fun p hp ↦ h p (.skip hremain hmapped hp)) a hrest
        omega

theorem NoTruncatedAddress.readsInside (h : NoTruncatedAddress mem buf len) :
    ReadsInside mem buf len := by
  intro out a ha
  by_cases hshort : len < stunPktLen
  · rw [parseXorMappedAddress, if_pos hshort] at ha
    exact absurd ha List.not_mem_nil
  · rw [parse_eq_scan (Int.not_lt.mp hshort)] at ha
    have := reads_scan_inside h a ha
    omega

/-! ## Past the end

If an announced address is cut off, the last address byte lies outside the datagram and the family
byte is either IPv4 or outside as well. Writing both from outside makes the parser succeed there
with an address whose last byte was chosen freely. -/

/-- The memory with an IPv4 family byte and a chosen last address byte put behind a cut-off
attribute. -/
private def forge (mem : ℕ → UInt8) (p : ℕ) (x : UInt8) : ℕ → UInt8 := fun a ↦
  if a = p + 11 then x else if a = p + 5 then 0x01 else mem a

private theorem forge_of_lt (mem : ℕ → UInt8) {p a : ℕ} (x : UInt8) (h : a < p + 5) :
    forge mem p x a = mem a := by
  rw [forge, if_neg (by omega), if_neg (by omega)]

private theorem agreeOn_forge {p : ℕ} (x : UInt8) (hlast : (buf : ℤ) + len < p + 12)
    (hfamily : (buf : ℤ) + len < p + 6 ∨ mem (p + 5) = 0x01) :
    AgreeOn buf len mem (forge mem p x) := by
  intro a _ ha
  rw [forge, if_neg (by omega)]
  split_ifs with hp
  · rcases hfamily with hout | hin
    · omega
    · rw [hp, hin]
  · rfl

private theorem run_parse_forge {p : ℕ} (x : UInt8)
    (hscanned : Scanned mem (buf + len) (buf + 20) p) (hheader : (p : ℤ) + 4 ≤ buf + len)
    (hannounce : AnnouncesAddress mem p) :
    run (forge mem p x) (parseXorMappedAddress buf len out)
      = (0, addressAt (forge mem p x) p) := by
  have hle := hscanned.le
  have hscanned' : Scanned (forge mem p x) (buf + len) (buf + 20) p :=
    hscanned.congr fun a _ ha ↦ forge_of_lt mem x (by omega)
  have hmapped : MappedAt (forge mem p x) p := by
    refine ⟨⟨?_, ?_⟩, ?_⟩
    · rw [typeAt, forge_of_lt mem x (by omega), forge_of_lt mem x (by omega)]
      exact hannounce.1
    · rw [alenAt, forge_of_lt mem x (by omega), forge_of_lt mem x (by omega)]
      exact hannounce.2
    · rw [forge, if_neg (by omega), if_pos rfl]
  rw [parse_eq_scan (by rw [stunPktLen]; omega), run_scan_of_scanned hscanned',
    run_scan_mapped (by omega) hmapped]

/-- **Two readings of one datagram.** Where the condition fails, two memories that agree on the
whole datagram give two different addresses. -/
theorem exists_divergence (h : ¬NoTruncatedAddress mem buf len) :
    ∃ mem₁ mem₂, AgreeOn buf len mem mem₁ ∧ AgreeOn buf len mem mem₂ ∧ ∀ out,
      (run mem₁ (parseXorMappedAddress buf len out)).2.outIp
        ≠ (run mem₂ (parseXorMappedAddress buf len out)).2.outIp := by
  simp only [NoTruncatedAddress, not_forall, exists_prop] at h
  obtain ⟨p, hscanned, hheader, hannounce, hcut⟩ := h
  have hlast : (buf : ℤ) + len < p + 12 := by
    by_contra hge
    exact hcut ⟨by omega, fun _ ↦ by omega⟩
  have hfamily : (buf : ℤ) + len < p + 6 ∨ mem (p + 5) = 0x01 := by
    by_contra hno
    rw [not_or] at hno
    exact hcut ⟨by omega, fun hin ↦ absurd hin hno.2⟩
  -- the last byte of the address is 0 in one memory and 10 in the other
  refine ⟨forge mem p 0x42, forge mem p 0x48, agreeOn_forge _ hlast hfamily,
    agreeOn_forge _ hlast hfamily, fun out ↦ ?_⟩
  rw [run_parse_forge _ hscanned hheader hannounce, run_parse_forge _ hscanned hheader hannounce]
  simp only [addressAt, forge, Nat.add_left_cancel_iff, Nat.reduceEqDiff, if_true, if_false]
  exact fun heq ↦ absurd (dottedQuad_inj.mp heq).2.2.2 (by decide)

theorem DeterminedByDatagram.noTruncatedAddress (h : DeterminedByDatagram mem buf len) :
    NoTruncatedAddress mem buf len := by
  by_contra hcut
  obtain ⟨mem₁, mem₂, h₁, h₂, hne⟩ := exists_divergence hcut
  refine hne ⟨"", 0⟩ ?_
  rw [h _ mem₁ h₁, h _ mem₂ h₂]

end

/-- **When the parser stays inside the datagram.** It reads only bytes below `len` exactly when no
announced address is cut off, and exactly then its result is independent of what follows the
datagram in memory. -/
theorem reads_inside_iff (mem : ℕ → UInt8) (buf : ℕ) (len : ℤ) :
    (ReadsInside mem buf len ↔ NoTruncatedAddress mem buf len) ∧
      (DeterminedByDatagram mem buf len ↔ NoTruncatedAddress mem buf len) :=
  ⟨⟨fun h ↦ h.determinedByDatagram.noTruncatedAddress, fun h ↦ h.readsInside⟩,
    ⟨fun h ↦ h.noTruncatedAddress, fun h ↦ h.readsInside.determinedByDatagram⟩⟩

/-- A Binding Success Response of 24 bytes whose only attribute announces an eight-byte
XOR-MAPPED-ADDRESS and ends there. -/
def cutOffDatagram : List UInt8 :=
  [0x01, 0x01, 0x00, 0x04, 0x21, 0x12, 0xA4, 0x42, 1, 2, 3, 4, 5, 6, 7, 8, 9, 10, 11, 12,
    0x00, 0x20, 0x00, 0x08]

/-- The parser leaves the datagram, and the bytes it finds there decide between failure and
success. -/
theorem cutOffDatagram_reads_outside :
    ¬ReadsInside (overlay 0 cutOffDatagram fun _ ↦ 0) 0 24 ∧
      (run (overlay 0 cutOffDatagram fun _ ↦ 0) (parseXorMappedAddress 0 24 ⟨"", 0⟩)).1 = -1 ∧
      (run (overlay 0 cutOffDatagram fun _ ↦ 1) (parseXorMappedAddress 0 24 ⟨"", 0⟩)).1 = 0 := by
  refine ⟨fun h ↦ ?_, by decide +kernel, by decide +kernel⟩
  have hread : 25 ∈ reads (overlay 0 cutOffDatagram fun _ ↦ 0)
      (parseXorMappedAddress 0 24 ⟨"", 0⟩) := by decide +kernel
  exact absurd (h ⟨"", 0⟩ 25 hread).2 (by decide)

end NatGhost
