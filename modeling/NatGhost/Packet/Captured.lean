import NatGhost.Packet.Ethernet

/-!
# Captured frames

The listener sets the filter `src host … and udp` and passes every frame it lets through to
`packet_handler`, which is given the captured bytes and a header with their number, and never looks
at the number. It trusts the filter to have found a UDP header, but the filter looks at three places
only: the type of the frame, the protocol and the source address. A fragment other than the first
has the protocol number and no UDP header; a header length below five puts the UDP header inside the
IP header; and a frame may be captured in part.

A frame on the wire is `wire`, and its first `caplen` bytes are captured. Behind them in memory is
anything.
-/

namespace NatGhost

/-- What `src host ⟨host⟩ and udp` guarantees of a frame. -/
structure PassesFilter (host : Vector UInt8 4) (wire : List UInt8) : Prop where
  etherType : wire[12]? = some 0x08 ∧ wire[13]? = some 0x00
  protocol : wire[23]? = some udpProto
  source : (wire.drop 26).take 4 = host.toList

/-! ## The headers on the wire -/

def wireIp (wire : List UInt8) : IpHeader := IpHeader.read (fun i ↦ wire.getD i 0) 14

def wireUdpAt (wire : List UInt8) : ℕ := 14 + (wireIp wire).ihl.toNat * 4

def wireUdp (wire : List UInt8) : UdpHeader :=
  UdpHeader.read (fun i ↦ wire.getD i 0) (wireUdpAt wire)

/-- The fragment offset, which is zero for the first fragment and for a packet in one piece. -/
def IpHeader.fragmentOffset (ip : IpHeader) : UInt16 := ntohs ip.fragOff &&& 0x1FFF

/-- A report that is right: the frame has a UDP header behind its IP header, the bytes of the source
port are captured, and the port is the one reported. -/
structure SourceReported (wire : List UInt8) (caplen : ℕ) (port : UInt16) : Prop where
  headerLength : 5 ≤ (wireIp wire).ihl.toNat
  firstFragment : (wireIp wire).fragmentOffset = 0
  captured : wireUdpAt wire + 2 ≤ caplen
  port_eq : port = ntohs (wireUdp wire).srcPort

section

variable {host : Vector UInt8 4} {wire : List UInt8} {caplen i : ℕ}

theorem overlay_take_eq (mem : ℕ → UInt8) (hcaplen : caplen ≤ wire.length) (hi : i < caplen) :
    overlay 0 (wire.take caplen) mem i = wire.getD i 0 := by
  have hlt : i < (wire.take caplen).length := by
    rw [List.length_take, min_eq_left hcaplen]
    exact hi
  rw [overlay_zero_eq_getD mem hlt 0, List.getD_eq_getElem?_getD, List.getElem?_take, if_pos hi,
    List.getD_eq_getElem?_getD]

theorem PassesFilter.exists_report (h : PassesFilter host wire) (caplen : ℕ) :
    ∃ port, packetHandler (overlay 0 (wire.take caplen) fun _ ↦ udpProto) = some port := by
  refine ⟨_, if_pos ?_⟩
  change (wire.take caplen).getD 23 udpProto = udpProto
  rw [List.getD_eq_getElem?_getD, List.getElem?_take]
  split_ifs
  · rw [h.protocol]
    rfl
  · rfl

theorem PassesFilter.packetHandler_eq (h : PassesFilter host wire) (hcaplen : caplen ≤ wire.length)
    (hihl : 5 ≤ (wireIp wire).ihl.toNat) (hin : wireUdpAt wire + 2 ≤ caplen) (mem : ℕ → UInt8) :
    packetHandler (overlay 0 (wire.take caplen) mem) = some (ntohs (wireUdp wire).srcPort) := by
  have hbytes : ∀ i < caplen, overlay 0 (wire.take caplen) mem i = wire.getD i 0 :=
    fun i hi ↦ overlay_take_eq mem hcaplen hi
  have hheaders : 36 ≤ caplen := by
    rw [wireUdpAt] at hin
    omega
  have hproto : (IpHeader.read (overlay 0 (wire.take caplen) mem) 14).proto = udpProto := by
    change overlay 0 (wire.take caplen) mem 23 = udpProto
    rw [hbytes 23 (by omega), List.getD_eq_getElem?_getD, h.protocol]
    rfl
  have hstart : 14 + (IpHeader.read (overlay 0 (wire.take caplen) mem) 14).ihl.toNat * 4
      = wireUdpAt wire := by
    change 14 + (overlay 0 (wire.take caplen) mem 14 &&& 0x0F).toNat * 4 = _
    rw [hbytes 14 (by omega)]
    rfl
  have hsource : load16 (overlay 0 (wire.take caplen) mem) (wireUdpAt wire)
      = (wireUdp wire).srcPort := by
    rw [load16, hbytes _ (by omega), hbytes _ (by omega)]
    rfl
  rw [packetHandler]
  dsimp only
  rw [if_pos hproto, hstart, UdpHeader.read, hsource]

end

/-- **When the listener can be believed.** It reports the source port of every frame with a complete
UDP header behind a complete IP header, and otherwise there is a memory behind the captured bytes
with which it reports something else. -/
theorem sourceReported_iff (host : Vector UInt8 4) {wire : List UInt8} {caplen : ℕ}
    (hcaplen : caplen ≤ wire.length) (hpass : PassesFilter host wire) :
    (∀ mem port, packetHandler (overlay 0 (wire.take caplen) mem) = some port →
        SourceReported wire caplen port)
      ↔ 5 ≤ (wireIp wire).ihl.toNat ∧ (wireIp wire).fragmentOffset = 0 ∧
        14 + (wireIp wire).ihl.toNat * 4 + 2 ≤ caplen := by
  constructor
  · intro h
    obtain ⟨port, hport⟩ := hpass.exists_report caplen
    have hreport := h _ port hport
    exact ⟨hreport.headerLength, hreport.firstFragment, hreport.captured⟩
  · rintro ⟨hihl, hfirst, hin⟩ mem port hport
    rw [hpass.packetHandler_eq hcaplen hihl hin] at hport
    exact ⟨hihl, hfirst, hin, (Option.some.inj hport).symm⟩

/-- A frame from 198.51.100.7 with `data` behind its IP header. -/
def listenedFrame (fragOff : UInt16) (data : List UInt8) : List UInt8 :=
  List.replicate 12 0xAA ++ [0x08, 0x00] ++ IpHeader.bytes
    { verIhl := 0x45, tos := 0, totalLen := htons 28, id := 0, fragOff := htons fragOff, ttl := 64
      proto := udpProto, hdrCksum := 0, srcIp := htonl 0xC6336407
      dstIp := htonl 0xC0000201 } ++ data

/-- An ordinary packet is reported with its source port. -/
theorem sourceReported_ordinary :
    SourceReported (listenedFrame 0 [0, 53, 17, 92, 0, 8, 0, 0]) 42 53 :=
  (sourceReported_iff #v[198, 51, 100, 7] (by decide) ⟨by decide, by decide, by decide⟩).mpr
    (by decide) (fun _ ↦ 0) 53 (by decide)

/-- **A later fragment is reported**: its data is taken for a UDP header. -/
theorem laterFragment_reported :
    ¬∀ (host : Vector UInt8 4) (wire : List UInt8) (caplen : ℕ), caplen ≤ wire.length →
      PassesFilter host wire → ∀ mem port,
        packetHandler (overlay 0 (wire.take caplen) mem) = some port →
          SourceReported wire caplen port := by
  intro h
  have hreport := h #v[198, 51, 100, 7] (listenedFrame 185 [1, 2, 3, 4, 5, 6, 7, 8]) 42 (by decide)
    ⟨by decide, by decide, by decide⟩ (fun _ ↦ 0) 258 (by decide)
  exact absurd hreport.firstFragment (by decide)

end NatGhost
