import NatGhost.Foundation.PyText
import NatGhost.Packet.Checksum

/-!
# Forged UDP packets

The repository builds raw IPv4/UDP packets in two places: `forge_udp_packet` of the kernel's `net.c`
and the function of the same name in `natghost_forge`. Both fill in the headers with zero checksums
and then store the checksum of the bytes so far. They differ in what they do with a UDP checksum of
zero: the kernel sends `0xFFFF` instead, the other sends zero. Both are multiples of 65535, so a
receiver cannot tell.

`Verifies` is the receiver's side, in network order and with ones-complement addition.
-/

namespace NatGhost

/-! ## Headers

Structures are packed, so a header is its fields as a little-endian host stores them, one behind the
other. -/

/-- `ip_header`, and `natghost_iphdr` with its two bit fields as one byte. -/
structure IpHeader where
  verIhl : UInt8
  tos : UInt8
  totalLen : UInt16
  id : UInt16
  fragOff : UInt16
  ttl : UInt8
  proto : UInt8
  hdrCksum : UInt16
  srcIp : UInt32
  dstIp : UInt32

/-- `udp_header` and `natghost_udphdr`. -/
structure UdpHeader where
  srcPort : UInt16
  dstPort : UInt16
  len : UInt16
  cksum : UInt16

/-- `pseudo_header`, of either program. -/
structure PseudoHeader where
  srcAddr : UInt32
  dstAddr : UInt32
  zero : UInt8
  proto : UInt8
  udpLen : UInt16

def IpHeader.bytes (ip : IpHeader) : List UInt8 :=
  [ip.verIhl, ip.tos] ++ bytesLe16 ip.totalLen ++ bytesLe16 ip.id ++ bytesLe16 ip.fragOff
    ++ [ip.ttl, ip.proto] ++ bytesLe16 ip.hdrCksum ++ bytesLe32 ip.srcIp ++ bytesLe32 ip.dstIp

def UdpHeader.bytes (udp : UdpHeader) : List UInt8 :=
  bytesLe16 udp.srcPort ++ bytesLe16 udp.dstPort ++ bytesLe16 udp.len ++ bytesLe16 udp.cksum

def PseudoHeader.bytes (ph : PseudoHeader) : List UInt8 :=
  bytesLe32 ph.srcAddr ++ bytesLe32 ph.dstAddr ++ [ph.zero, ph.proto] ++ bytesLe16 ph.udpLen

/-- `UDP_PROTO`, `IPPROTO_UDP`. -/
def udpProto : UInt8 := 17

theorem leSum_bytesLe16 (x : UInt16) : leSum (bytesLe16 x) = x.toNat := by
  have h := be16_toNat (x >>> 8).toUInt8 x.toUInt8
  rw [be16_bytesBe16] at h
  rw [bytesLe16, leSum_cons_cons, leSum_nil, h, Nat.add_zero, Nat.add_comm]

@[simp] theorem IpHeader.length_bytes (ip : IpHeader) : ip.bytes.length = 20 := rfl

@[simp] theorem UdpHeader.length_bytes (udp : UdpHeader) : udp.bytes.length = 8 := rfl

@[simp] theorem PseudoHeader.length_bytes (ph : PseudoHeader) : ph.bytes.length = 12 := rfl

theorem leSum_ipBytes (ip : IpHeader) (c : UInt16) :
    leSum ({ ip with hdrCksum := c } : IpHeader).bytes
      = c.toNat + leSum ({ ip with hdrCksum := 0 } : IpHeader).bytes := by
  have hsplit : ∀ d, leSum ({ ip with hdrCksum := d } : IpHeader).bytes
      = leSum ([ip.verIhl, ip.tos] ++ bytesLe16 ip.totalLen ++ bytesLe16 ip.id
        ++ bytesLe16 ip.fragOff ++ [ip.ttl, ip.proto])
        + (d.toNat + leSum (bytesLe32 ip.srcIp ++ bytesLe32 ip.dstIp)) := by
    intro d
    rw [← leSum_bytesLe16 d, ← leSum_append (by simp), ← leSum_append (by simp), IpHeader.bytes]
    simp only [List.append_assoc]
  rw [hsplit c, hsplit 0]
  change _ = _ + (_ + (0 + _))
  omega

theorem leSum_udpBytes (udp : UdpHeader) (c : UInt16) :
    leSum ({ udp with cksum := c } : UdpHeader).bytes
      = c.toNat + leSum ({ udp with cksum := 0 } : UdpHeader).bytes := by
  have hsplit : ∀ d, leSum ({ udp with cksum := d } : UdpHeader).bytes
      = leSum (bytesLe16 udp.srcPort ++ bytesLe16 udp.dstPort ++ bytesLe16 udp.len)
        + d.toNat := by
    intro d
    rw [← leSum_bytesLe16 d, ← leSum_append (by simp), UdpHeader.bytes]
  rw [hsplit c, hsplit 0]
  change _ = _ + (_ + 0)
  omega

theorem leSum_segment (ph : PseudoHeader) (udp : UdpHeader) (payload : List UInt8) :
    leSum (ph.bytes ++ (udp.bytes ++ payload))
      = leSum ph.bytes + leSum udp.bytes + leSum payload := by
  rw [leSum_append (by simp), leSum_append (by simp), Nat.add_assoc]

/-! ## The kernel's packet -/

/-- The UDP header both programs fill in first, with a zero checksum. -/
def udpHeader (srcPort dstPort : UInt16) (payloadLen : ℕ) : UdpHeader where
  srcPort := htons srcPort
  dstPort := htons dstPort
  len := htons (UInt16.ofNat (8 + payloadLen))
  cksum := 0

/-- The IP header of `net.c`, with a zero checksum. -/
def Kernel.ipHeader (srcIp dstIp : UInt32) (payloadLen : ℕ) : IpHeader where
  verIhl := 0x45
  tos := 0
  totalLen := htons (UInt16.ofNat (20 + 8 + payloadLen))
  id := htons 0
  fragOff := htons 0
  ttl := 64
  proto := udpProto
  hdrCksum := 0
  srcIp := htonl srcIp
  dstIp := htonl dstIp

/-- `forge_udp_packet` of `net.c`: the bytes it writes to `packet_buf`. The size it returns is their
number. -/
def Kernel.forgeUdpPacket (srcIp : UInt32) (srcPort : UInt16) (dstIp : UInt32) (dstPort : UInt16)
    (payload : List UInt8) : List UInt8 :=
  let udp := udpHeader srcPort dstPort payload.length
  let ip := Kernel.ipHeader srcIp dstIp payload.length
  let ip := { ip with hdrCksum := checksum ip.bytes }
  let ph : PseudoHeader :=
    { srcAddr := ip.srcIp, dstAddr := ip.dstIp, zero := 0, proto := udpProto, udpLen := udp.len }
  let uCk := checksum (ph.bytes ++ (udp.bytes ++ payload))
  let udp := { udp with cksum := if uCk ≠ 0 then uCk else 0xFFFF }
  ip.bytes ++ (udp.bytes ++ payload)

/-! ## The packet of `natghost_forge` -/

/-- What `natghost_forge` calls from the C library: address conversion, one random number, and
whether an allocation of a given size succeeds. -/
structure Libc where
  inetAddr : String → UInt32
  rand : ℕ
  malloc : ℕ → Bool

/-- The IP header of `natghost_forge`, with a zero checksum. -/
def Forge.ipHeader (libc : Libc) (srcIp dstIp : String) (dataLen : ℕ) : IpHeader where
  verIhl := ((4 : UInt8) <<< 4) ||| (5 : UInt8)
  tos := 0
  totalLen := htons (UInt16.ofNat (20 + 8 + dataLen))
  id := htons (UInt16.ofNat (libc.rand % 65535))
  fragOff := 0
  ttl := 64
  proto := udpProto
  srcIp := libc.inetAddr srcIp
  dstIp := libc.inetAddr dstIp
  hdrCksum := 0

/-- `udp_checksum`. -/
def Forge.udpChecksum (libc : Libc) (sourceIp destIp : UInt32) (udpPacket : List UInt8) : UInt16 :=
  let psh : PseudoHeader :=
    { srcAddr := sourceIp, dstAddr := destIp, zero := 0, proto := udpProto,
      udpLen := htons (UInt16.ofNat udpPacket.length) }
  let totalLen := 12 + udpPacket.length
  if libc.malloc totalLen then ipChecksum (psh.bytes ++ udpPacket) else 0

/-- `forge_udp_packet` of `natghost_forge`: the bytes it writes to `packet_buffer`, or `none` where
it returns -1 for a `NULL` argument. -/
def Forge.forgeUdpPacket (libc : Libc) (srcIp dstIp : Option String) (srcPort dstPort : UInt16)
    (data : Option (List UInt8)) : Option (List UInt8) :=
  match srcIp, dstIp, data with
  | some srcIp, some dstIp, some data =>
    let iph := Forge.ipHeader libc srcIp dstIp data.length
    let udph := udpHeader srcPort dstPort data.length
    let iph := { iph with hdrCksum := ipChecksum iph.bytes }
    let udph :=
      { udph with cksum := Forge.udpChecksum libc iph.srcIp iph.dstIp (udph.bytes ++ data) }
    some (iph.bytes ++ (udph.bytes ++ data))
  | _, _, _ => none

/-- `DEFAULT_PAYLOAD`. -/
def defaultPayload : List UInt8 := utf8Bytes "NATGHOST_SIGNAL_V1".toList

/-! ## The receiver -/

/-- A packet from `src` to `dst`, addresses in network order, passes both checks of a receiver: over
the IP header, and over pseudo-header, UDP header and payload. -/
structure Verifies (src dst packet : List UInt8) : Prop where
  addresses : (packet.drop 12).take 8 = src ++ dst
  header : onesSum (beWords (packet.take 20)) = 0xFFFF
  segment : onesSum (beWords (src ++ dst ++ [0, 17] ++ bytesBe16 (UInt16.ofNat (packet.length - 20))
    ++ packet.drop 20)) = 0xFFFF

section

variable (ip : IpHeader) (udp : UdpHeader) {payload : List UInt8} {c u : UInt16}

/-- The pseudo-header that goes with an IP header and a payload. -/
def IpHeader.pseudo (ip : IpHeader) (payloadLen : ℕ) : PseudoHeader where
  srcAddr := ip.srcIp
  dstAddr := ip.dstIp
  zero := 0
  proto := udpProto
  udpLen := htons (UInt16.ofNat (8 + payloadLen))

theorem verifies_of_modEq (hver : ip.verIhl ≠ 0) (hip : leSum ip.bytes ≡ 0 [MOD 65535])
    (hudp : leSum ((ip.pseudo payload.length).bytes ++ (udp.bytes ++ payload)) ≡ 0 [MOD 65535]) :
    Verifies (bytesLe32 ip.srcIp) (bytesLe32 ip.dstIp) (ip.bytes ++ (udp.bytes ++ payload)) where
  addresses := by simp [IpHeader.bytes, bytesLe16, bytesLe32]
  header := by
    have htake : (ip.bytes ++ (udp.bytes ++ payload)).take 20 = ip.bytes :=
      List.take_left' (by simp)
    rw [htake]
    refine onesSum_beWords_eq hip (b := ip.verIhl) ?_ hver
    simp [IpHeader.bytes]
  segment := by
    have hdrop : (ip.bytes ++ (udp.bytes ++ payload)).drop 20 = udp.bytes ++ payload :=
      List.drop_left' (by simp)
    have hlength : (ip.bytes ++ (udp.bytes ++ payload)).length - 20 = 8 + payload.length := by
      simp
    rw [hdrop, hlength, ← bytesLe16_htons]
    refine onesSum_beWords_eq hudp (b := udpProto) ?_ (by decide)
    simp [udpProto]

/-- **What a sender has to get right**: each checksum cancels the sum it was computed from, while
its own field was zero. -/
theorem verifies_of_checksums (hver : ip.verIhl ≠ 0)
    (hip : c.toNat + leSum ({ ip with hdrCksum := 0 } : IpHeader).bytes ≡ 0 [MOD 65535])
    (hudp : u.toNat + leSum ((ip.pseudo payload.length).bytes
      ++ (({ udp with cksum := 0 } : UdpHeader).bytes ++ payload)) ≡ 0 [MOD 65535]) :
    Verifies (bytesLe32 ip.srcIp) (bytesLe32 ip.dstIp)
      (({ ip with hdrCksum := c } : IpHeader).bytes
        ++ (({ udp with cksum := u } : UdpHeader).bytes ++ payload)) := by
  refine verifies_of_modEq { ip with hdrCksum := c } { udp with cksum := u } hver ?_ ?_
  · rw [leSum_ipBytes]
    exact hip
  · rw [leSum_segment] at hudp ⊢
    rw [leSum_udpBytes, ← Nat.add_assoc, Nat.add_comm (leSum _) u.toNat, Nat.add_assoc u.toNat,
      Nat.add_assoc u.toNat]
    exact hudp

/-! ## Both packets verify -/

variable {udp} in
theorem leSum_segment_lt {ph : PseudoHeader} (h : 28 + payload.length ≤ 65535) :
    leSum (ph.bytes ++ (udp.bytes ++ payload)) < 2 ^ 32 := by
  refine leSum_lt ?_
  rw [List.length_append, List.length_append, ph.length_bytes, udp.length_bytes]
  omega

theorem leSum_ipBytes_lt (ip : IpHeader) : leSum ip.bytes < 2 ^ 32 :=
  leSum_lt (by rw [ip.length_bytes]; decide)

theorem substitute_modEq {s : ℕ} (h : c.toNat + s ≡ 0 [MOD 65535]) :
    (if c ≠ 0 then c else 0xFFFF).toNat + s ≡ 0 [MOD 65535] := by
  split_ifs with hc
  · exact h
  · rw [not_not.mp hc] at h
    change 0 + s ≡ 0 [MOD 65535] at h
    change 65535 + s ≡ 0 [MOD 65535]
    rw [Nat.ModEq] at h ⊢
    omega

end

theorem Kernel.verifies (srcIp : UInt32) (srcPort : UInt16) (dstIp : UInt32) (dstPort : UInt16)
    {payload : List UInt8} (h : 28 + payload.length ≤ 65535) :
    Verifies (bytesBe32 srcIp) (bytesBe32 dstIp)
      (Kernel.forgeUdpPacket srcIp srcPort dstIp dstPort payload) := by
  rw [← bytesLe32_htonl srcIp, ← bytesLe32_htonl dstIp]
  have hver : (Kernel.ipHeader srcIp dstIp payload.length).verIhl ≠ 0 := by
    change (0x45 : UInt8) ≠ 0
    decide
  exact verifies_of_checksums (Kernel.ipHeader srcIp dstIp payload.length)
    (udpHeader srcPort dstPort payload.length) hver (checksum_modEq (leSum_ipBytes_lt _))
    (substitute_modEq (checksum_modEq (leSum_segment_lt h)))

theorem Forge.udpChecksum_eq (libc : Libc) (ip : IpHeader) (srcPort dstPort : UInt16)
    (data : List UInt8) (hmalloc : libc.malloc (20 + data.length) = true) :
    Forge.udpChecksum libc ip.srcIp ip.dstIp ((udpHeader srcPort dstPort data.length).bytes ++ data)
      = ipChecksum ((ip.pseudo data.length).bytes
        ++ ((udpHeader srcPort dstPort data.length).bytes ++ data)) := by
  have hlength : ((udpHeader srcPort dstPort data.length).bytes ++ data).length
      = 8 + data.length := by
    simp
  have htotal : 12 + (8 + data.length) = 20 + data.length := by omega
  rw [Forge.udpChecksum, hlength, htotal, if_pos hmalloc]
  rfl

theorem Forge.verifies (libc : Libc) (srcIp dstIp : String) (srcPort dstPort : UInt16)
    {data : List UInt8} (h : 28 + data.length ≤ 65535)
    (hmalloc : libc.malloc (20 + data.length) = true) :
    ∃ packet, Forge.forgeUdpPacket libc (some srcIp) (some dstIp) srcPort dstPort (some data)
        = some packet ∧
      Verifies (bytesLe32 (libc.inetAddr srcIp)) (bytesLe32 (libc.inetAddr dstIp)) packet := by
  set ip := Forge.ipHeader libc srcIp dstIp data.length
  set udp := udpHeader srcPort dstPort data.length
  have hver : ip.verIhl ≠ 0 := by
    change ((4 : UInt8) <<< 4) ||| (5 : UInt8) ≠ 0
    decide
  refine ⟨_, rfl, verifies_of_checksums ip udp hver (ipChecksum_modEq (leSum_ipBytes_lt _)) ?_⟩
  change (Forge.udpChecksum libc ip.srcIp ip.dstIp (udp.bytes ++ data)).toNat + _ ≡ _ [MOD 65535]
  rw [Forge.udpChecksum_eq libc ip srcPort dstPort data hmalloc]
  exact ipChecksum_modEq (leSum_segment_lt h)

/-- **Forged packets verify at the receiver**, for all addresses, ports, identifications and
payloads that fit into a packet, of odd length too. For the second program `malloc` has to succeed;
without the memory it sums in, it sends a UDP checksum of zero. -/
theorem forged_packets_verify :
    (∀ (srcIp : UInt32) (srcPort : UInt16) (dstIp : UInt32) (dstPort : UInt16)
      (payload : List UInt8), 28 + payload.length ≤ 65535 →
        Verifies (bytesBe32 srcIp) (bytesBe32 dstIp)
          (Kernel.forgeUdpPacket srcIp srcPort dstIp dstPort payload)) ∧
      ∀ (libc : Libc) (srcIp dstIp : String) (srcPort dstPort : UInt16) (data : List UInt8),
        28 + data.length ≤ 65535 → libc.malloc (20 + data.length) = true →
          ∃ packet, Forge.forgeUdpPacket libc (some srcIp) (some dstIp) srcPort dstPort (some data)
              = some packet ∧
            Verifies (bytesLe32 (libc.inetAddr srcIp)) (bytesLe32 (libc.inetAddr dstIp)) packet :=
  ⟨fun srcIp srcPort dstIp dstPort _ h ↦ Kernel.verifies srcIp srcPort dstIp dstPort h,
    fun libc srcIp dstIp srcPort dstPort _ h hmalloc ↦
      Forge.verifies libc srcIp dstIp srcPort dstPort h hmalloc⟩

/-- A library that knows two addresses and has memory. -/
def smallLibc : Libc where
  inetAddr text :=
    if text = "192.0.2.1" then 0x010200C0 else if text = "198.51.100.7" then 0x076433C6
    else 0xFFFFFFFF
  rand := 1804289383
  malloc _ := true

/-- Both packets with a payload of five bytes. -/
theorem forged_packets_verify_five :
    Verifies [192, 0, 2, 1] [198, 51, 100, 7]
        (Kernel.forgeUdpPacket 0xC0000201 4444 0xC6336407 53 [0x4E, 0x41, 0x54, 0x47, 0x48]) ∧
      ∃ packet, Forge.forgeUdpPacket smallLibc (some "192.0.2.1") (some "198.51.100.7") 4444 53
          (some [0x4E, 0x41, 0x54, 0x47, 0x48]) = some packet ∧
        Verifies [192, 0, 2, 1] [198, 51, 100, 7] packet := by
  refine ⟨?_, ?_⟩
  · have h := forged_packets_verify.1 0xC0000201 4444 0xC6336407 53
      [0x4E, 0x41, 0x54, 0x47, 0x48] (by decide)
    exact h
  · have h := forged_packets_verify.2 smallLibc "192.0.2.1" "198.51.100.7" 4444 53
      [0x4E, 0x41, 0x54, 0x47, 0x48] (by decide) rfl
    exact h

end NatGhost
