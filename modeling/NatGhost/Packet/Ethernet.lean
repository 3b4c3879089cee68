import NatGhost.Foundation.Memory
import NatGhost.Packet.UdpPacket

/-!
# Frames from the forger to the listener

`forge_eth_udp` puts an Ethernet header in front of the kernel's packet and pads the frame to sixty
bytes. `packet_handler` of the listener gets a captured frame as a pointer: it reads an IP header at
offset 14 and, for UDP, a UDP header behind the `ihl * 4` bytes of the IP header. The listener has
header structures of its own, with the same layout as those the forgers fill in, so one structure
serves for both and is read here field by field (`IpHeader.read`, `UdpHeader.read`).

A frame is read in a memory that holds it and anything behind it. What is read depends on the bytes
of the packet only, which is why padding does not matter.
-/

namespace NatGhost

/-! ## Reading headers -/

def IpHeader.read (mem : ℕ → UInt8) (a : ℕ) : IpHeader where
  verIhl := mem a
  tos := mem (a + 1)
  totalLen := load16 mem (a + 2)
  id := load16 mem (a + 4)
  fragOff := load16 mem (a + 6)
  ttl := mem (a + 8)
  proto := mem (a + 9)
  hdrCksum := load16 mem (a + 10)
  srcIp := load32 mem (a + 12)
  dstIp := load32 mem (a + 16)

/-- The bit field `ihl`. -/
def IpHeader.ihl (ip : IpHeader) : UInt8 := ip.verIhl &&& 0x0F

def UdpHeader.read (mem : ℕ → UInt8) (a : ℕ) : UdpHeader where
  srcPort := load16 mem a
  dstPort := load16 mem (a + 2)
  len := load16 mem (a + 4)
  cksum := load16 mem (a + 6)

variable {mem : ℕ → UInt8} {a : ℕ}

theorem IpHeader.read_eq {ip : IpHeader} (h : Holds mem a ip.bytes) : IpHeader.read mem a = ip := by
  rw [IpHeader.bytes] at h
  simp only [holds_append_iff, List.length_append, length_bytesLe16, length_bytesLe32,
    List.length_cons, List.length_nil, Nat.zero_add, Nat.reduceAdd] at h
  obtain ⟨⟨⟨⟨⟨⟨⟨hver, htotal⟩, hid⟩, hfrag⟩, httl⟩, hcksum⟩, hsrc⟩, hdst⟩ := h
  have hver₀ : mem a = ip.verIhl := hver 0 Nat.zero_lt_two
  have hver₁ : mem (a + 1) = ip.tos := hver 1 Nat.one_lt_two
  have httl₀ : mem (a + 8) = ip.ttl := httl 0 Nat.zero_lt_two
  have httl₁ : mem (a + 9) = ip.proto := httl 1 Nat.one_lt_two
  rw [IpHeader.read, hver₀, hver₁, htotal.load16_eq, hid.load16_eq, hfrag.load16_eq, httl₀, httl₁,
    hcksum.load16_eq, hsrc.load32_eq, hdst.load32_eq]

theorem UdpHeader.read_eq {udp : UdpHeader} (h : Holds mem a udp.bytes) :
    UdpHeader.read mem a = udp := by
  rw [UdpHeader.bytes] at h
  simp only [holds_append_iff, List.length_append, length_bytesLe16, Nat.reduceAdd] at h
  obtain ⟨⟨⟨hsrc, hdst⟩, hlen⟩, hcksum⟩ := h
  rw [UdpHeader.read, hsrc.load16_eq, hdst.load16_eq, hlen.load16_eq, hcksum.load16_eq]

/-! ## The forger -/

/-- `forge_eth_udp`: the bytes it writes to `p`, and the frame length it returns. -/
def forgeEthUdp (dstMac srcMac : Vector UInt8 6) (sip : UInt32) (sport : UInt16) (dip : UInt32)
    (dport : UInt16) (pl : List UInt8) : List UInt8 × ℕ :=
  let packet := Kernel.forgeUdpPacket sip sport dip dport pl
  let frame := dstMac.toList ++ srcMac.toList ++ [0x08, 0x00] ++ packet
  let frameLen := 14 + packet.length
  if frameLen < 60 then (frame ++ List.replicate (60 - frameLen) 0, 60) else (frame, frameLen)

/-! ## The listener -/

/-- `packet_handler`: the port it reports, if any. -/
def packetHandler (packet : ℕ → UInt8) : Option UInt16 :=
  let iph := IpHeader.read packet 14
  if iph.proto = udpProto then
    let ipHeaderLength := iph.ihl.toNat * 4
    let udph := UdpHeader.read packet (14 + ipHeaderLength)
    some (ntohs udph.srcPort)
  else none

/-- What the headers of a frame say: addresses and ports in host order, and the payload as the UDP
length and as the IP total length delimit it. -/
structure Recovered where
  srcAddr : UInt32
  dstAddr : UInt32
  srcPort : UInt16
  dstPort : UInt16
  payload : List UInt8
  payloadByTotalLen : List UInt8

/-- The headers of a frame, found as `packet_handler` finds them. -/
def recover (packet : ℕ → UInt8) : Recovered :=
  let iph := IpHeader.read packet 14
  let ipHeaderLength := iph.ihl.toNat * 4
  let udph := UdpHeader.read packet (14 + ipHeaderLength)
  let data := 14 + ipHeaderLength + 8
  { srcAddr := ntohl iph.srcIp
    dstAddr := ntohl iph.dstIp
    srcPort := ntohs udph.srcPort
    dstPort := ntohs udph.dstPort
    payload := cellsAt packet data ((ntohs udph.len).toNat - 8)
    payloadByTotalLen := cellsAt packet data ((ntohs iph.totalLen).toNat - ipHeaderLength - 8) }

/-- A listener makes of a frame in memory what was put into it. -/
structure ReadBack (packet : ℕ → UInt8) (srcAddr dstAddr : UInt32) (srcPort dstPort : UInt16)
    (payload : List UInt8) : Prop where
  reported : packetHandler packet = some srcPort
  recovered : recover packet = ⟨srcAddr, dstAddr, srcPort, dstPort, payload, payload⟩

/-! ## What a listener reads -/

section

variable {packet : ℕ → UInt8} {ip : IpHeader} {udp : UdpHeader} {payload : List UInt8}

/-- **A packet behind fourteen bytes is read back**, wherever its headers come from: no options,
UDP, and both lengths as they should be. -/
theorem readBack_of_holds (h : Holds packet 14 (ip.bytes ++ (udp.bytes ++ payload)))
    (hver : ip.verIhl = 0x45) (hproto : ip.proto = udpProto)
    (htotal : ip.totalLen = htons (UInt16.ofNat (20 + 8 + payload.length)))
    (hlen : udp.len = htons (UInt16.ofNat (8 + payload.length)))
    (hfits : 28 + payload.length ≤ 65535) :
    ReadBack packet (ntohl ip.srcIp) (ntohl ip.dstIp) (ntohs udp.srcPort) (ntohs udp.dstPort)
      payload := by
  rw [holds_append_iff, holds_append_iff, ip.length_bytes, udp.length_bytes] at h
  obtain ⟨hip, hudp, hpayload⟩ := h
  have hihl : ip.ihl.toNat * 4 = 20 := by
    rw [IpHeader.ihl, hver]
    decide
  have hudpLen : (ntohs udp.len).toNat - 8 = payload.length := by
    rw [hlen, ntohs_htons, UInt16.toNat_ofNat_of_lt' (by rw [UInt16.size]; omega)]
    exact Nat.add_sub_cancel_left 8 payload.length
  have htotalLen : (ntohs ip.totalLen).toNat - 20 - 8 = payload.length := by
    rw [htotal, ntohs_htons, UInt16.toNat_ofNat_of_lt' (by rw [UInt16.size]; omega)]
    omega
  constructor
  · simp only [packetHandler, IpHeader.read_eq hip, if_pos hproto, hihl, UdpHeader.read_eq hudp]
  · simp only [recover, IpHeader.read_eq hip, hihl, UdpHeader.read_eq hudp, hudpLen, htotalLen,
      hpayload.cellsAt_eq]

end

section

variable (dstMac srcMac : Vector UInt8 6) (sip : UInt32) (sport : UInt16) (dip : UInt32)
  (dport : UInt16) (pl : List UInt8)

/-- The Ethernet header of `forge_eth_udp`. -/
def ethHeader : List UInt8 := dstMac.toList ++ srcMac.toList ++ [0x08, 0x00]

theorem length_ethHeader : (ethHeader dstMac srcMac).length = 14 := by
  simp [ethHeader]

theorem Kernel.length_forgeUdpPacket :
    (Kernel.forgeUdpPacket sip sport dip dport pl).length = 28 + pl.length := by
  rw [Kernel.forgeUdpPacket, List.length_append, List.length_append, IpHeader.length_bytes,
    UdpHeader.length_bytes, ← Nat.add_assoc]

theorem forgeEthUdp_eq : forgeEthUdp dstMac srcMac sip sport dip dport pl
    = (ethHeader dstMac srcMac ++ Kernel.forgeUdpPacket sip sport dip dport pl
        ++ List.replicate (60 - (42 + pl.length)) 0, max 60 (42 + pl.length)) := by
  have hlength : 14 + (Kernel.forgeUdpPacket sip sport dip dport pl).length = 42 + pl.length := by
    rw [Kernel.length_forgeUdpPacket]
    omega
  rw [forgeEthUdp, hlength]
  split_ifs with h
  · rw [max_eq_left h.le]
    rfl
  · rw [max_eq_right (Nat.le_of_not_lt h), Nat.sub_eq_zero_of_le (Nat.le_of_not_lt h),
      List.replicate_zero, List.append_nil]
    rfl

theorem Kernel.readBack {packet : ℕ → UInt8}
    (h : Holds packet 14 (Kernel.forgeUdpPacket sip sport dip dport pl))
    (hfits : 28 + pl.length ≤ 65535) : ReadBack packet sip dip sport dport pl := by
  have hread := readBack_of_holds h rfl rfl rfl rfl hfits
  change ReadBack packet (ntohl (htonl sip)) (ntohl (htonl dip)) (ntohs (htons sport))
    (ntohs (htons dport)) pl at hread
  rwa [ntohl_htonl, ntohl_htonl, ntohs_htons, ntohs_htons] at hread

end

theorem Forge.readBack (header : Vector UInt8 14) (libc : Libc) (srcIp dstIp : String)
    (srcPort dstPort : UInt16) {data : List UInt8} (mem : ℕ → UInt8) {c u : UInt16}
    (hfits : 28 + data.length ≤ 65535) :
    ReadBack (overlay 0 (header.toList
        ++ (({ Forge.ipHeader libc srcIp dstIp data.length with hdrCksum := c } : IpHeader).bytes
        ++ (({ udpHeader srcPort dstPort data.length with cksum := u } : UdpHeader).bytes
        ++ data))) mem)
      (ntohl (libc.inetAddr srcIp)) (ntohl (libc.inetAddr dstIp)) srcPort dstPort data := by
  have h := holds_overlay 0 (header.toList
    ++ (({ Forge.ipHeader libc srcIp dstIp data.length with hdrCksum := c } : IpHeader).bytes
    ++ (({ udpHeader srcPort dstPort data.length with cksum := u } : UdpHeader).bytes ++ data))) mem
  rw [holds_append_iff, Vector.length_toList] at h
  have hread := readBack_of_holds h.2 rfl rfl rfl rfl hfits
  change ReadBack _ _ _ (ntohs (htons srcPort)) (ntohs (htons dstPort)) data at hread
  rwa [ntohs_htons, ntohs_htons] at hread

theorem UdpHeader.read_packet (ip : IpHeader) (udp : UdpHeader) (data : List UInt8)
    (mem : ℕ → UInt8) :
    UdpHeader.read (overlay 0 (ip.bytes ++ (udp.bytes ++ data)) mem) 20 = udp := by
  have h := holds_overlay 0 (ip.bytes ++ (udp.bytes ++ data)) mem
  rw [holds_append_iff, holds_append_iff, ip.length_bytes, Nat.zero_add] at h
  exact UdpHeader.read_eq h.2.1

theorem Forge.destPort_forgeUdpPacket (libc : Libc) (srcIp dstIp : String)
    (srcPort dstPort : UInt16) (data : List UInt8) :
    ∃ packet, Forge.forgeUdpPacket libc (some srcIp) (some dstIp) srcPort dstPort (some data)
        = some packet ∧
      ntohs (UdpHeader.read (overlay 0 packet fun _ ↦ 0) 20).dstPort = dstPort ∧
      packet.length > 0 := by
  refine ⟨_, rfl, ?_, ?_⟩
  · rw [UdpHeader.read_packet]
    exact ntohs_htons dstPort
  · rw [List.length_append, IpHeader.length_bytes]
    exact Nat.add_pos_left (by decide) _

/-- **Forged frames are read back by the listener.** This holds for the frames of `forge_eth_udp`
and for the packets of `natghost_forge` behind any Ethernet header, whatever follows the frame in
memory. The first are padded with zeros to sixty bytes, and what is read depends on the bytes before
the padding only. -/
theorem forged_frames_read_back :
    (∀ (dstMac srcMac : Vector UInt8 6) (sip : UInt32) (sport : UInt16) (dip : UInt32)
        (dport : UInt16) (pl : List UInt8) (mem : ℕ → UInt8), 28 + pl.length ≤ 65535 →
      let (frame, frameLen) := forgeEthUdp dstMac srcMac sip sport dip dport pl
      ReadBack (overlay 0 frame mem) sip dip sport dport pl ∧
        frameLen = max 60 (42 + pl.length) ∧ frame.length = frameLen ∧
        frame.drop (42 + pl.length) = List.replicate (frameLen - (42 + pl.length)) 0 ∧
        ∀ mem', (∀ i < 42 + pl.length, mem' i = overlay 0 frame mem i) →
          ReadBack mem' sip dip sport dport pl) ∧
      ∀ (header : Vector UInt8 14) (libc : Libc) (srcIp dstIp : String) (srcPort dstPort : UInt16)
        (data : List UInt8) (mem : ℕ → UInt8), 28 + data.length ≤ 65535 →
        ∃ packet, Forge.forgeUdpPacket libc (some srcIp) (some dstIp) srcPort dstPort (some data)
            = some packet ∧
          ReadBack (overlay 0 (header.toList ++ packet) mem) (ntohl (libc.inetAddr srcIp))
            (ntohl (libc.inetAddr dstIp)) srcPort dstPort data := by
  constructor
  · intro dstMac srcMac sip sport dip dport pl mem hfits
    have hpacket := Kernel.length_forgeUdpPacket sip sport dip dport pl
    have hheader := length_ethHeader dstMac srcMac
    set packet := Kernel.forgeUdpPacket sip sport dip dport pl with hdef
    have hholds : Holds (overlay 0 (ethHeader dstMac srcMac ++ packet
        ++ List.replicate (60 - (42 + pl.length)) 0) mem) 14 packet := by
      have h := holds_overlay 0 (ethHeader dstMac srcMac ++ packet
        ++ List.replicate (60 - (42 + pl.length)) 0) mem
      rw [holds_append_iff, holds_append_iff, hheader] at h
      exact h.1.2
    rw [forgeEthUdp_eq, ← hdef]
    refine ⟨Kernel.readBack sip sport dip dport pl hholds hfits, rfl, ?_, ?_, ?_⟩
    · rw [List.length_append, List.length_append, hheader, hpacket, List.length_replicate]
      omega
    · rw [List.drop_left' (by rw [List.length_append, hheader, hpacket]; omega)]
      congr 1
      omega
    · intro mem' hmem
      -- the reader does not look at the padding
      refine Kernel.readBack sip sport dip dport pl (hholds.congr fun p _ hp ↦ hmem p ?_) hfits
      omega
  · intro header libc srcIp dstIp srcPort dstPort data mem hfits
    exact ⟨_, rfl, Forge.readBack header libc srcIp dstIp srcPort dstPort mem hfits⟩

/-- A padded frame of the kernel and a frame of `natghost_forge`, each with a payload of two
bytes. -/
theorem forged_frames_read_back_two :
    ReadBack (overlay 0 (forgeEthUdp #v[2, 0, 0, 0, 0, 1] #v[2, 0, 0, 0, 0, 2] 0xC0000201 4444
        0xC6336407 53 [0x4E, 0x47]).1 fun _ ↦ 0xAA) 0xC0000201 0xC6336407 4444 53 [0x4E, 0x47] ∧
      ∃ packet, Forge.forgeUdpPacket smallLibc (some "192.0.2.1") (some "198.51.100.7") 4444 53
          (some [0x4E, 0x47]) = some packet ∧
        ReadBack (overlay 0 ((Vector.replicate 14 0).toList ++ packet) fun _ ↦ 0xAA) 0xC0000201
          0xC6336407 4444 53 [0x4E, 0x47] := by
  constructor
  · exact (forged_frames_read_back.1 #v[2, 0, 0, 0, 0, 1] #v[2, 0, 0, 0, 0, 2] 0xC0000201 4444
      0xC6336407 53 [0x4E, 0x47] (fun _ ↦ 0xAA) (by decide)).1
  · exact forged_frames_read_back.2 (Vector.replicate 14 0) smallLibc "192.0.2.1"
      "198.51.100.7" 4444
      53 [0x4E, 0x47] (fun _ ↦ 0xAA) (by decide)

end NatGhost
