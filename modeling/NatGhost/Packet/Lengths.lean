import NatGhost.Packet.UdpPacket

/-!
# The lengths in a forged packet

A forged packet has three lengths: the size the forger returns, the total length of the IP header
and the length of the UDP header. Each is computed by itself, the first in a wide type and the other
two cut off to sixteen bits, and neither forger asks whether the payload fits. `natghost_forge`
reports an error for missing arguments only.

So the lengths agree exactly up to the longest payload of an IPv4 packet. Beyond it the total length
is the first to wrap around.
-/

namespace NatGhost

/-! ## What a packet says about its length -/

def totalLength (packet : List UInt8) : ℕ := (be16 (packet.getD 2 0) (packet.getD 3 0)).toNat

/-- The length field of the UDP header behind an IP header without options. -/
def udpLength (packet : List UInt8) : ℕ := (be16 (packet.getD 24 0) (packet.getD 25 0)).toNat

/-- The size returned for a packet, its two length fields and the length of the payload go
together. -/
structure LengthsAgree (packet : List UInt8) (returned payloadLen : ℕ) : Prop where
  total : totalLength packet = returned
  segment : 20 + udpLength packet = returned
  payload : udpLength packet = 8 + payloadLen

section

variable (ip : IpHeader) (udp : UdpHeader) (payload : List UInt8) {len : ℕ}

theorem be16_htons (x : UInt16) : be16 (htons x).toUInt8 (htons x >>> 8).toUInt8 = x := by
  have hbytes := bytesLe16_htons x
  rw [bytesLe16, bytesBe16, List.cons.injEq, List.cons.injEq] at hbytes
  rw [hbytes.1, hbytes.2.1, be16_bytesBe16]

theorem totalLength_packet (h : ip.totalLen = htons (UInt16.ofNat len)) :
    totalLength (ip.bytes ++ (udp.bytes ++ payload)) = len % 65536 := by
  have hfield : totalLength (ip.bytes ++ (udp.bytes ++ payload))
      = (be16 ip.totalLen.toUInt8 (ip.totalLen >>> 8).toUInt8).toNat := rfl
  rw [hfield, h, be16_htons, UInt16.toNat_ofNat']

theorem udpLength_packet (h : udp.len = htons (UInt16.ofNat len)) :
    udpLength (ip.bytes ++ (udp.bytes ++ payload)) = len % 65536 := by
  have hfield : udpLength (ip.bytes ++ (udp.bytes ++ payload))
      = (be16 udp.len.toUInt8 (udp.len >>> 8).toUInt8).toNat := rfl
  rw [hfield, h, be16_htons, UInt16.toNat_ofNat']

theorem lengthsAgree_packet_iff (hip : ip.totalLen = htons (UInt16.ofNat (20 + 8 + payload.length)))
    (hudp : udp.len = htons (UInt16.ofNat (8 + payload.length))) :
    LengthsAgree (ip.bytes ++ (udp.bytes ++ payload)) (ip.bytes ++ (udp.bytes ++ payload)).length
        payload.length ↔ 28 + payload.length ≤ 65535 := by
  have hreturned : (ip.bytes ++ (udp.bytes ++ payload)).length = 20 + (8 + payload.length) := by
    rw [List.length_append, List.length_append, ip.length_bytes, udp.length_bytes]
  have htotal := totalLength_packet ip udp payload hip
  have hsegment := udpLength_packet ip udp payload hudp
  constructor
  · rintro ⟨hfield, -, -⟩
    rw [htotal, hreturned] at hfield
    omega
  · intro hfits
    refine ⟨?_, ?_, ?_⟩
    · rw [htotal, hreturned]
      omega
    · rw [hsegment, hreturned]
      omega
    · rw [hsegment]
      omega

end

/-! ## The two forgers -/

theorem Kernel.lengthsAgree_iff (srcIp : UInt32) (srcPort : UInt16) (dstIp : UInt32)
    (dstPort : UInt16) (payload : List UInt8) :
    LengthsAgree (Kernel.forgeUdpPacket srcIp srcPort dstIp dstPort payload)
        (Kernel.forgeUdpPacket srcIp srcPort dstIp dstPort payload).length payload.length
      ↔ 28 + payload.length ≤ 65535 :=
  lengthsAgree_packet_iff _ _ payload rfl rfl

theorem Forge.lengthsAgree_iff (libc : Libc) (srcIp dstIp : String) (srcPort dstPort : UInt16)
    (data : List UInt8) :
    (∀ packet, Forge.forgeUdpPacket libc (some srcIp) (some dstIp) srcPort dstPort (some data)
        = some packet →
        LengthsAgree packet packet.length data.length)
      ↔ 28 + data.length ≤ 65535 := by
  constructor
  · intro h
    exact (lengthsAgree_packet_iff _ _ data rfl rfl).mp (h _ rfl)
  · intro hfits packet hpacket
    rw [← Option.some_injective _ hpacket]
    exact (lengthsAgree_packet_iff _ _ data rfl rfl).mpr hfits

/-- **When the lengths of a forged packet agree.** In the kernel's packet exactly if the payload
fits into an IPv4 packet; `natghost_forge` either is called without some argument, and says so, or
the same holds. -/
theorem forgedLengths_agree_iff (libc : Libc) (srcAddr dstAddr : UInt32) (srcPort dstPort : UInt16)
    (payload : List UInt8) (srcIp dstIp : Option String) (data : Option (List UInt8)) :
    (LengthsAgree (Kernel.forgeUdpPacket srcAddr srcPort dstAddr dstPort payload)
        (Kernel.forgeUdpPacket srcAddr srcPort dstAddr dstPort payload).length payload.length
      ↔ 28 + payload.length ≤ 65535) ∧
    ((∀ packet, Forge.forgeUdpPacket libc srcIp dstIp srcPort dstPort data = some packet →
        LengthsAgree packet packet.length (data.getD []).length)
      ↔ srcIp = none ∨ dstIp = none ∨ data = none ∨ 28 + (data.getD []).length ≤ 65535) := by
  refine ⟨Kernel.lengthsAgree_iff srcAddr srcPort dstAddr dstPort payload, ?_⟩
  cases srcIp with
  | none => exact ⟨fun _ ↦ Or.inl rfl, fun _ packet hpacket ↦ nomatch hpacket⟩
  | some srcIp =>
    cases dstIp with
    | none => exact ⟨fun _ ↦ Or.inr (Or.inl rfl), fun _ packet hpacket ↦ nomatch hpacket⟩
    | some dstIp =>
      cases data with
      | none => exact ⟨fun _ ↦ Or.inr (Or.inr (Or.inl rfl)), fun _ packet hpacket ↦ nomatch hpacket⟩
      | some data =>
        rw [Option.getD_some, Forge.lengthsAgree_iff]
        simp

/-- One byte more than fits: the total length is 0, while 65536 is returned. -/
theorem longPayload_lengths_differ :
    ¬∀ packet, Forge.forgeUdpPacket smallLibc (some "192.0.2.1") (some "198.51.100.7") 4444 53
        (some (List.replicate 65508 0)) = some packet →
      LengthsAgree packet packet.length 65508 := by
  have hlength : (List.replicate 65508 (0 : UInt8)).length = 65508 := List.length_replicate
  intro h
  have hfits := (Forge.lengthsAgree_iff smallLibc "192.0.2.1" "198.51.100.7" 4444 53
    (List.replicate 65508 0)).mp fun packet hpacket ↦ by
      rw [hlength]
      exact h packet hpacket
  rw [hlength] at hfits
  exact absurd hfits (by decide)

end NatGhost
