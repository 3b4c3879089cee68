import NatGhost.Packet.Rfc1071
import NatGhost.Packet.UdpPacket

/-!
# When the UDP checksum comes out as zero

In UDP over IPv4 a checksum field of zero means that there is no checksum; a checksum that happens
to be zero is sent as `0xFFFF`. The kernel's `forge_udp_packet` does that, the one of
`natghost_forge` stores whatever `udp_checksum` returns.

The checksum is zero when the words of the segment, pseudo-header included, add up to a multiple of
65535. Both ports of a worker's packet are the same, so its sum passes through every residue as the
worker goes through the ports.
-/

namespace NatGhost

def checksumField (packet : List UInt8) : List UInt8 := (packet.drop 26).take 2

/-- The sum of the words of a UDP segment and its pseudo-header, the checksum field left out. The
addresses are as in memory, in network order. -/
def segmentSum (srcAddr dstAddr : List UInt8) (srcPort dstPort : UInt16) (data : List UInt8) : ℕ :=
  (beWords srcAddr).sum + (beWords dstAddr).sum + 17 + 2 * (8 + data.length) + srcPort.toNat
    + dstPort.toNat + (beWords data).sum

section

variable {payload : List UInt8}

theorem checksumField_bytes (ip : IpHeader) (udp : UdpHeader) :
    checksumField (ip.bytes ++ (udp.bytes ++ payload)) = bytesLe16 udp.cksum := by
  simp [checksumField, IpHeader.bytes, UdpHeader.bytes, bytesLe16, bytesLe32]

theorem sum_beWords_segment (ip : IpHeader) (srcPort dstPort : UInt16)
    (h : 28 + payload.length ≤ 65535) :
    (beWords ((ip.pseudo payload.length).bytes
        ++ ((udpHeader srcPort dstPort payload.length).bytes ++ payload))).sum
      = segmentSum (bytesLe32 ip.srcIp) (bytesLe32 ip.dstIp) srcPort dstPort payload := by
  have hlen : (UInt16.ofNat (8 + payload.length)).toNat = 8 + payload.length :=
    UInt16.toNat_ofNat_of_lt' (by rw [UInt16.size]; omega)
  have hproto : beWords [0, udpProto] = [17] := rfl
  have hzero : beWords (bytesLe16 0) = [0] := rfl
  rw [beWords_append (by simp), beWords_append (by simp), PseudoHeader.bytes, UdpHeader.bytes]
  simp only [IpHeader.pseudo, udpHeader, bytesLe16_htons]
  rw [beWords_append (by simp), beWords_append (by simp), beWords_append (by simp),
    beWords_append (by simp), beWords_append (by simp), beWords_append (by simp), hproto, hzero,
    beWords_bytesBe16, beWords_bytesBe16, beWords_bytesBe16, hlen]
  simp only [List.sum_append, List.sum_singleton, segmentSum]
  omega

theorem ipChecksum_bytes_eq_zero {data : List UInt8} (hlt : leSum data < 2 ^ 32)
    (hpos : 0 < (beWords data).sum) :
    bytesLe16 (ipChecksum data) = [0, 0] ↔ 65535 ∣ (beWords data).sum := by
  have hwords : ∀ w ∈ beWords data, w < 65536 := fun _ ↦ lt_of_mem_beWords
  have hrfc : (rfc1071 data).toNat = 65535 - onesSum (beWords data) := toNat_rfc1071 data
  have hones := onesSum_lt hwords
  rw [ipChecksum_eq_htons hlt, bytesLe16_htons, bytesBe16_eq_zero, ← UInt16.toNat_inj, hrfc]
  change 65535 - onesSum (beWords data) = 0 ↔ _
  rw [← and_iff_left hpos (a := 65535 ∣ _), ← onesSum_eq_iff hwords]
  omega

theorem Forge.checksumField_eq (libc : Libc) (srcIp dstIp : String) (srcPort dstPort : UInt16)
    (hmalloc : libc.malloc (20 + payload.length) = true) :
    (Forge.forgeUdpPacket libc (some srcIp) (some dstIp) srcPort dstPort (some payload)).map
        checksumField
      = some (bytesLe16 (ipChecksum
          (((Forge.ipHeader libc srcIp dstIp payload.length).pseudo payload.length).bytes
            ++ ((udpHeader srcPort dstPort payload.length).bytes ++ payload)))) := by
  rw [Forge.forgeUdpPacket, Option.map_some, checksumField_bytes,
    Forge.udpChecksum_eq _ _ _ _ _ hmalloc]
  rfl

end

/-! ## The two senders -/

theorem Kernel.checksumField_ne_zero (srcIp : UInt32) (srcPort : UInt16) (dstIp : UInt32)
    (dstPort : UInt16) (payload : List UInt8) :
    checksumField (Kernel.forgeUdpPacket srcIp srcPort dstIp dstPort payload) ≠ [0, 0] := by
  rw [Kernel.forgeUdpPacket, checksumField_bytes]
  split_ifs with h
  · rw [Ne, bytesLe16_eq_zero]
    exact h
  · change bytesLe16 0xFFFF ≠ [0, 0]
    decide

/-- **When the checksum field is not zero.** The packet of `natghost_forge` carries a checksum
unless the words of its segment add up to a multiple of 65535. -/
theorem checksumField_ne_zero_iff (libc : Libc) (srcIp dstIp : String) (srcPort dstPort : UInt16)
    (data : List UInt8) (h : 28 + data.length ≤ 65535)
    (hmalloc : libc.malloc (20 + data.length) = true) :
    (∃ packet, Forge.forgeUdpPacket libc (some srcIp) (some dstIp) srcPort dstPort (some data)
        = some packet ∧ checksumField packet ≠ [0, 0]) ↔
      ¬65535 ∣ segmentSum (bytesLe32 (libc.inetAddr srcIp)) (bytesLe32 (libc.inetAddr dstIp))
        srcPort dstPort data := by
  have hfield := Forge.checksumField_eq libc srcIp dstIp srcPort dstPort hmalloc
  obtain ⟨packet, hpacket, hbytes⟩ := Option.map_eq_some_iff.mp hfield
  set ip := Forge.ipHeader libc srcIp dstIp data.length
  have hsum := sum_beWords_segment ip srcPort dstPort h
  have hlt : leSum ((ip.pseudo data.length).bytes
      ++ ((udpHeader srcPort dstPort data.length).bytes ++ data)) < 2 ^ 32 := leSum_segment_lt h
  have hzero := ipChecksum_bytes_eq_zero hlt (by rw [hsum, segmentSum]; omega)
  rw [hsum, ← hbytes] at hzero
  rw [hpacket]
  constructor
  · rintro ⟨_, heq, hne⟩ hdvd
    obtain rfl := Option.some.inj heq
    exact hne (hzero.mpr hdvd)
  · intro hdvd
    exact ⟨packet, rfl, fun hfield ↦ hdvd (hzero.mp hfield)⟩

/-- The library as a worker of `run_master` finds it. -/
def workerLibc : Libc where
  inetAddr text :=
    if text = "192.168.1.15" then 0x0F01A8C0 else if text = "192.168.1.254" then 0xFE01A8C0
    else 0xFFFFFFFF
  rand := 1804289383
  malloc _ := true

/-- At port 53728 the worker's packet carries a checksum. -/
theorem checksumField_ne_zero_iff_worker :
    ∃ packet, Forge.forgeUdpPacket workerLibc (some "192.168.1.15") (some "192.168.1.254")
        53728 53728 (some defaultPayload) = some packet ∧ checksumField packet ≠ [0, 0] :=
  (checksumField_ne_zero_iff workerLibc "192.168.1.15" "192.168.1.254" 53728 53728 defaultPayload
    (by decide) rfl).mpr (by decide +kernel)

/-- **The zero checksum of port 53729.** The packet a worker of `run_master` sends to that port has
a checksum field of zero. -/
theorem workerPacket_without_checksum :
    28 + defaultPayload.length ≤ 65535 ∧ workerLibc.malloc (20 + defaultPayload.length) = true ∧
      ∃ packet, Forge.forgeUdpPacket workerLibc (some "192.168.1.15") (some "192.168.1.254")
        53729 53729 (some defaultPayload) = some packet ∧ checksumField packet = [0, 0] :=
  ⟨by decide, rfl, _, rfl, by decide +kernel⟩

end NatGhost
