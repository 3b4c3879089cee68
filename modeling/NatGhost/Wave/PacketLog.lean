import NatGhost.Foundation.CText

/-!
# The packet log

`sniff_listener` writes one line for each packet it recognises, `port timestamp sequence`, and the
two analyzers read the file with the same function `load_packet_data`, which extracts three numbers
at a time until the stream fails. Extraction of a number skips white space, so the line structure
means nothing to the reader; what keeps the records apart is that a blank or a newline follows every
number.
-/

namespace NatGhost

/-- `PacketInfo`. -/
structure PacketInfo where
  port : UInt16
  timestampUs : UInt64
  seqIndex : UInt32
  deriving DecidableEq

/-! ## The writer -/

/-- `"%d %lu %u\n"`. -/
def logLine (reportedPort : ℤ) (tsUs : UInt64) (seqIndex : UInt32) : List Char :=
  printInt reportedPort ++ ' ' :: Nat.toDigits 10 tsUs.toNat
    ++ ' ' :: Nat.toDigits 10 seqIndex.toNat ++ ['\n']

def PacketInfo.line (p : PacketInfo) : List Char := logLine p.port.toNat p.timestampUs p.seqIndex

/-! ## The reader -/

/-- `f >> p.port >> p.timestamp_us >> p.seq_index`: the record and the rest of the stream, or `none`
when the stream has failed. A sign in front of a number, which `>>` takes, counts as a failure here;
`sniff_listener` writes none. -/
def readPacket (text : List Char) : Option (PacketInfo × List Char) :=
  (extract (2 ^ 16) text).bind fun (port, text) ↦
    (extract (2 ^ 64) text).bind fun (timestampUs, text) ↦
      (extract (2 ^ 32) text).map fun (seqIndex, text) ↦
        (⟨UInt16.ofNat port, UInt64.ofNat timestampUs, UInt32.ofNat seqIndex⟩, text)

theorem length_lt_of_readPacket {text rest : List Char} {p : PacketInfo}
    (h : readPacket text = some (p, rest)) : rest.length < text.length := by
  rw [readPacket, Option.bind_eq_some_iff] at h
  obtain ⟨⟨port, text₁⟩, hport, h⟩ := h
  rw [Option.bind_eq_some_iff] at h
  obtain ⟨⟨timestampUs, text₂⟩, htimestamp, h⟩ := h
  obtain ⟨⟨seqIndex, text₃⟩, hseq, h⟩ := Option.map_eq_some_iff.mp h
  obtain ⟨-, rfl⟩ := Prod.mk.inj h
  exact ((length_lt_of_extract hseq).trans (length_lt_of_extract htimestamp)).trans
    (length_lt_of_extract hport)

/-- The loop of `load_packet_data`. -/
def readPackets (text : List Char) : List PacketInfo :=
  match _h : readPacket text with
  | some (p, rest) => p :: readPackets rest
  | none => []
termination_by text.length
decreasing_by exact length_lt_of_readPacket ‹_›

/-- `load_packet_data`, of `full_spectrum_randomness_analyzer.cpp` and of `randomness_analyzer.cpp`.
There is no file if it cannot be opened. -/
def loadPacketData (file : Option (List Char)) : List PacketInfo :=
  match file with
  | some text => readPackets text
  | none => []

/-! ## Round trip -/

theorem readPackets_of_some {text rest : List Char} {p : PacketInfo}
    (h : readPacket text = some (p, rest)) : readPackets text = p :: readPackets rest := by
  rw [readPackets]
  split
  · next heq =>
    obtain ⟨rfl, rfl⟩ := Prod.mk.inj (Option.some.inj (heq.symm.trans h))
    rfl
  · next heq => exact absurd (heq.symm.trans h) nofun

theorem readPackets_of_none {text : List Char} (h : readPacket text = none) :
    readPackets text = [] := by
  rw [readPackets]
  split
  · next heq => exact absurd (heq.symm.trans h) nofun
  · rfl

theorem readPackets_newline (text : List Char) : readPackets ('\n' :: text) = readPackets text := by
  have hread : readPacket ('\n' :: text) = readPacket text := by
    rw [readPacket, extract_cons rfl]
    rfl
  cases h : readPacket text with
  | none => rw [readPackets_of_none h, readPackets_of_none (hread.trans h)]
  | some r => rw [readPackets_of_some h, readPackets_of_some (hread.trans h)]

/-- **A line is read as its record**, up to the newline. -/
theorem readPacket_line (p : PacketInfo) (rest : List Char) :
    readPacket (p.line ++ rest) = some (p, '\n' :: rest) := by
  have hline : p.line ++ rest = Nat.toDigits 10 p.port.toNat
      ++ (' ' :: (Nat.toDigits 10 p.timestampUs.toNat
        ++ (' ' :: (Nat.toDigits 10 p.seqIndex.toNat ++ '\n' :: rest)))) := by
    simp [PacketInfo.line, logLine, printInt]
  rw [readPacket, hline,
    (isNumeral_toDigits p.port.toNat).extract_eq p.port.toNat_lt (noDigit_cons rfl)]
  simp only [Option.bind_some]
  rw [extract_cons rfl,
    (isNumeral_toDigits p.timestampUs.toNat).extract_eq p.timestampUs.toNat_lt (noDigit_cons rfl)]
  simp only [Option.bind_some]
  rw [extract_cons rfl,
    (isNumeral_toDigits p.seqIndex.toNat).extract_eq p.seqIndex.toNat_lt (noDigit_cons rfl)]
  simp only [Option.map_some, UInt16.ofNat_toNat, UInt64.ofNat_toNat, UInt32.ofNat_toNat]

/-- **The log round trip.** Writing records one per line and reading the file gives the same records
in the same order, however many there are. -/
theorem loadPacketData_lines (records : List PacketInfo) :
    loadPacketData (some (records.flatMap PacketInfo.line)) = records := by
  change readPackets (records.flatMap PacketInfo.line) = records
  induction records with
  | nil => exact readPackets_of_none rfl
  | cons p records ih =>
    rw [List.flatMap_cons, readPackets_of_some (readPacket_line p _), readPackets_newline, ih]

end NatGhost
