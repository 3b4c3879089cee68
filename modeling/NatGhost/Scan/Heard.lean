import Mathlib.Data.Fin.VecNotation
import NatGhost.Packet.Captured
import NatGhost.Scan.Sweep

/-!
# The scan on the other side

`natghost_forge` sends a packet from each port to the same port of another host, and
`listener_engine` on that host prints the source port of every packet that comes from the address it
listens for: the port at which a hole is open. In between, NATs and routers put other addresses and
ports into the headers, count the time to live down and change the checksums; packets are lost,
repeated, and overtake each other.

What is printed is what the NAT has made of the ports, packet for packet (`scan_heard`). If it keeps
them, every printed port is one that has been sent to, as often as its packets have arrived; and if
the sixteen workers have sent to their own ports, and no further, and everything arrives, then each
port from 1 to 65535 is printed once.
-/

namespace NatGhost.Sweep

/-! ## The listener -/

/-- A captured frame, with what is behind it in memory. -/
structure Capture where
  frame : List UInt8
  behind : ℕ → UInt8

instance (host : Vector UInt8 4) (wire : List UInt8) : Decidable (PassesFilter host wire) :=
  decidable_of_iff
    ((wire[12]? = some 0x08 ∧ wire[13]? = some 0x00) ∧ wire[23]? = some udpProto ∧
      (wire.drop 26).take 4 = host.toList)
    ⟨fun h ↦ ⟨h.1, h.2.1, h.2.2⟩, fun h ↦ ⟨h.etherType, h.protocol, h.source⟩⟩

/-- The port that is printed for a frame, if any: `packet_handler` is called for what the filter
lets through. -/
def printedPort (host : Vector UInt8 4) (c : Capture) : Option UInt16 :=
  if PassesFilter host c.frame then packetHandler (overlay 0 c.frame c.behind) else none

/-- What `pcap_loop` prints. -/
def printedPorts (host : Vector UInt8 4) (captures : List Capture) : List UInt16 :=
  captures.filterMap (printedPort host)

/-! ## On the way -/

def sourcePort (send : Send) : UInt16 :=
  ntohs (UdpHeader.read (overlay 0 send.packet fun _ ↦ 0) 20).srcPort

/-- A packet of the scan as it arrives from `host`, with what has been put into its headers. -/
structure Parcel (host : Vector UInt8 4) where
  send : Send
  macs : Vector UInt8 12
  ttl : UInt8
  hdrCksum : UInt16
  srcIp : UInt32
  dstIp : UInt32
  srcPort : UInt16
  dstPort : UInt16
  cksum : UInt16
  trailer : List UInt8
  behind : ℕ → UInt8
  source : bytesLe32 srcIp = host.toList

namespace Parcel

variable {host : Vector UInt8 4} (p : Parcel host)

def packet : List UInt8 :=
  let ip := IpHeader.read (overlay 0 p.send.packet fun _ ↦ 0) 0
  let udp := UdpHeader.read (overlay 0 p.send.packet fun _ ↦ 0) 20
  { ip with ttl := p.ttl, hdrCksum := p.hdrCksum, srcIp := p.srcIp, dstIp := p.dstIp }.bytes
    ++ (UdpHeader.bytes ⟨htons p.srcPort, htons p.dstPort, udp.len, p.cksum⟩
      ++ p.send.packet.drop 28)

def capture : Capture where
  frame := p.macs.toList ++ ([0x08, 0x00] ++ (p.packet ++ p.trailer))
  behind := p.behind

end Parcel

inductive Traffic (host : Vector UInt8 4) where
  | parcel (p : Parcel host)
  | other (c : Capture) (h : ¬PassesFilter host c.frame)

namespace Traffic

variable {host : Vector UInt8 4}

def capture : Traffic host → Capture
  | .parcel p => p.capture
  | .other c _ => c

def parcel? : Traffic host → Option (Parcel host)
  | .parcel p => some p
  | .other _ _ => none

end Traffic

def parcels {host : Vector UInt8 4} (traffic : List (Traffic host)) : List (Parcel host) :=
  traffic.filterMap Traffic.parcel?

/-! ## One packet -/

/-- The packet has been forged for one port, from and to which it goes. -/
def Forged (send : Send) : Prop :=
  ∃ libc srcIp dstIp, send.destPort ≠ 0 ∧
    Forge.forgeUdpPacket libc (some srcIp) (some dstIp) send.destPort send.destPort
      (some defaultPayload) = some send.packet

theorem Forged.exists_headers {send : Send} (h : Forged send) :
    ∃ ip : IpHeader, ∃ udp : UdpHeader,
      send.packet = ip.bytes ++ (udp.bytes ++ defaultPayload) ∧
      ip.verIhl = 0x45 ∧ ip.proto = udpProto ∧
      ip.totalLen = htons (UInt16.ofNat (20 + 8 + defaultPayload.length)) ∧
      udp.srcPort = htons send.destPort ∧
      udp.len = htons (UInt16.ofNat (8 + defaultPayload.length)) := by
  obtain ⟨libc, srcIp, dstIp, -, hpacket⟩ := h
  exact ⟨_, _, (Option.some.inj hpacket).symm, rfl, rfl, rfl, rfl, rfl⟩

theorem Forged.sourcePort_eq {send : Send} (h : Forged send) : sourcePort send = send.destPort := by
  obtain ⟨ip, udp, hsend, -, -, -, hport, -⟩ := h.exists_headers
  rw [sourcePort, hsend, UdpHeader.read_packet, hport, ntohs_htons]

section

variable {host : Vector UInt8 4} {p : Parcel host}

/-- **A packet of the scan is printed with the port the NAT has given it.** -/
theorem printedPort_parcel (h : Forged p.send) : printedPort host p.capture = some p.srcPort := by
  obtain ⟨ip, udp, hsend, hver, hproto, htotal, -, hlen⟩ := h.exists_headers
  have hpacket : p.packet
      = { ip with ttl := p.ttl, hdrCksum := p.hdrCksum, srcIp := p.srcIp, dstIp := p.dstIp }.bytes
        ++ (UdpHeader.bytes ⟨htons p.srcPort, htons p.dstPort, udp.len, p.cksum⟩
          ++ defaultPayload) := by
    have hholds := holds_overlay 0 p.send.packet fun _ ↦ 0
    have hdrop : p.send.packet.drop 28 = defaultPayload := by
      rw [hsend, ← List.append_assoc]
      exact List.drop_left' (by rw [List.length_append, ip.length_bytes, udp.length_bytes])
    rw [hsend, holds_append_iff, holds_append_iff, ip.length_bytes, ← hsend] at hholds
    rw [Parcel.packet, IpHeader.read_eq hholds.1, UdpHeader.read_eq hholds.2.1, hdrop]
  have hrest : p.capture.frame.drop 12 = [0x08, 0x00] ++ (p.packet ++ p.trailer) :=
    List.drop_left' p.macs.length_toList
  have hsource : p.capture.frame.drop 26 = ([0x08, 0x00] ++ (p.packet ++ p.trailer)).drop 14 := by
    rw [← hrest, List.drop_drop]
  have hcell (i : ℕ) :
      p.capture.frame[12 + i]? = ([0x08, 0x00] ++ (p.packet ++ p.trailer))[i]? := by
    rw [← hrest, List.getElem?_drop]
  have hholds : Holds (overlay 0 p.capture.frame p.capture.behind) 14 p.packet := by
    have hframe := holds_overlay 0 p.capture.frame p.capture.behind
    rw [Parcel.capture, holds_append_iff, holds_append_iff, holds_append_iff,
      p.macs.length_toList] at hframe
    exact hframe.2.2.1
  rw [hpacket] at hsource hcell hholds
  have hpasses : PassesFilter host p.capture.frame := by
    refine ⟨⟨hcell 0, hcell 1⟩, (hcell 11).trans (congrArg some hproto), ?_⟩
    rw [hsource, ← p.source]
    rfl
  have hread := (readBack_of_holds hholds hver hproto htotal hlen (by decide)).reported
  rw [ntohs_htons] at hread
  rw [printedPort, if_pos hpasses]
  exact hread

/-- **What is printed of the traffic**: the ports of the packets of the scan, in their order. -/
theorem printedPorts_eq {traffic : List (Traffic host)}
    (h : ∀ p ∈ parcels traffic, Forged p.send) :
    printedPorts host (traffic.map Traffic.capture) = (parcels traffic).map Parcel.srcPort := by
  induction traffic with
  | nil => rfl
  | cons a traffic ih =>
    cases a with
    | parcel p =>
      have hport : printedPort host (Traffic.capture (.parcel p)) = some p.srcPort :=
        printedPort_parcel (h p List.mem_cons_self)
      rw [List.map_cons, printedPorts, List.filterMap_cons_some hport]
      exact congrArg (p.srcPort :: ·) (ih fun q hq ↦ h q (List.mem_cons_of_mem p hq))
    | other c hc =>
      have hport : printedPort host (Traffic.capture (.other c hc)) = none := if_neg hc
      rw [List.map_cons, printedPorts, List.filterMap_cons_none hport]
      exact ih h

end

/-! ## The run -/

section

variable {n : ℕ}

/-- The packets of worker `i`. -/
def System.sends (s : System n) (i : Fin n) : List Send := (s.loops i).elim [] Worker.sends

theorem portsSent_eq (s : System n) (i : Fin n) :
    s.portsSent i = (s.sends i).map fun send ↦ send.destPort.toNat := by
  rw [System.portsSent, System.sends]
  cases s.loops i with
  | none => rfl
  | some w => rfl

variable {env : Env n} {s : System n}

theorem forged_body (libc : ℕ → Libc) (sourceIp destIp : String) {w : Worker}
    (h : ∀ send ∈ w.sends, Forged send) :
    ∀ send ∈ (Worker.body libc sourceIp destIp w).sends, Forged send := by
  rcases eq_or_ne w.port 0 with hzero | hne
  · rw [Worker.body_of_eq_zero libc sourceIp destIp hzero]
    exact h
  · obtain ⟨packet, hpacket, hport, hlength⟩ := Forge.destPort_forgeUdpPacket (libc w.forged)
      sourceIp destIp w.port w.port defaultPayload
    intro send hsend
    rw [Worker.body, if_neg hne, hpacket] at hsend
    simp only [if_pos hlength, List.mem_append, List.mem_singleton] at hsend
    rcases hsend with hold | rfl
    · exact h send hold
    · refine ⟨libc w.forged, sourceIp, destIp, ?_⟩
      rw [Send.destPort, hport]
      exact ⟨hne, hpacket⟩

/-- **All packets of the workers are forged for their ports**, in every run. -/
theorem forged_of_reaches (h : Reaches env s) :
    ∀ i w, s.loops i = some w → ∀ send ∈ w.sends, Forged send := by
  induction h with
  | refl => exact fun _ _ hw ↦ nomatch hw
  | tail _ hstep ih =>
    have hset {s : System n} {i : Fin n} {v : Worker}
        (hs : ∀ i w, s.loops i = some w → ∀ send ∈ w.sends, Forged send)
        (hv : ∀ send ∈ v.sends, Forged send) :
        ∀ j w, Function.update s.loops i (some v) j = some w → ∀ send ∈ w.sends, Forged send := by
      intro j w hw
      rcases eq_or_ne j i with rfl | hne
      · rw [Function.update_self] at hw
        exact Option.some.inj hw ▸ hv
      · rw [Function.update_of_ne hne] at hw
        exact hs j w hw
    cases hstep with
    | statement | giveUp | leave => exact ih
    | enter => exact hset ih fun _ hsend ↦ absurd hsend List.not_mem_nil
    | round _ hloop => exact hset ih (forged_body _ _ _ (ih _ _ hloop))

theorem forged_of_sends (h : Reaches env s) {i : Fin n} {send : Send} (hsend : send ∈ s.sends i) :
    Forged send := by
  rw [System.sends] at hsend
  cases hloop : s.loops i with
  | none =>
    rw [hloop] at hsend
    exact absurd hsend List.not_mem_nil
  | some w =>
    rw [hloop] at hsend
    exact forged_of_reaches h i w hloop send hsend

end

theorem count_portsSent_of_complete {env : Env processCount} {s : System processCount}
    (hkept : Kept env s)
    (hcomplete : ∀ i : Fin processCount,
      (s.portsSent i).length = if i.val = 15 then 4110 else 4095) (port : ℕ) :
    ((List.finRange processCount).flatMap s.portsSent).count port
      = if 1 ≤ port ∧ port ≤ 65535 then 1 else 0 := by
  have hn : processCount ≤ 65535 := by decide
  have hper : portsPerProcess processCount = 4095 := by decide
  split_ifs with hport
  · have hnodup := hkept.nodup hn fun i hi ↦ by
      have hi : i.val = 15 := Nat.succ.inj hi
      rw [hcomplete i, if_pos hi, hper, hi]
    obtain ⟨i, hi⟩ : ∃ i : Fin processCount, i.val = min ((port - 1) / 4095) 15 :=
      ⟨⟨_, (Nat.min_le_right _ _).trans_lt (by decide)⟩, rfl⟩
    refine List.count_eq_one_of_mem hnodup (List.mem_flatMap.mpr ⟨i, List.mem_finRange i, ?_⟩)
    rw [hkept.portsSent, hcomplete, hper]
    refine List.mem_map.mpr ⟨port - 1 - i.val * 4095, ?_, ?_⟩
    · rw [List.mem_range]
      split_ifs
      all_goals omega
    · rw [cyclePort]
      omega
  · refine List.count_eq_zero.mpr fun hmem ↦ hport ?_
    obtain ⟨i, -, hi⟩ := List.mem_flatMap.mp hmem
    rw [hkept.portsSent] at hi
    obtain ⟨k, -, rfl⟩ := List.mem_map.mp hi
    rw [cyclePort]
    omega

/-- **What the listener prints of a scan.** In every state of every run, let packets that have been
sent arrive in any order and any number of times, each with the addresses and ports that NATs have
put in, between any frames that the filter keeps out. What is printed is the source ports as they
arrive, packet for packet. If the NATs keep the source ports, only ports that have been sent to are
printed; if moreover everything arrives once, each as often as it has been sent to, so that when the
workers have sent to their own ports and no further, each port from 1 to 65535 is printed once. -/
theorem scan_heard (env : Env processCount) (hpath : env.Plain) {s : System processCount}
    (h : Reaches env s) {host : Vector UInt8 4} (traffic : List (Traffic host))
    (hsent : ∀ p ∈ parcels traffic, ∃ i, p.send ∈ s.sends i) :
    let printed := printedPorts host (traffic.map Traffic.capture)
    printed = (parcels traffic).map Parcel.srcPort ∧
      ((∀ p ∈ parcels traffic, p.srcPort = sourcePort p.send) →
        (∀ port ∈ printed, port ≠ 0 ∧ ∃ i, port.toNat ∈ s.portsSent i) ∧
        (((parcels traffic).map Parcel.send).Perm
            ((List.finRange processCount).flatMap s.sends) →
          (∀ port : UInt16, printed.count port
            = ((List.finRange processCount).flatMap s.portsSent).count port.toNat) ∧
          ((∀ i : Fin processCount,
              (s.portsSent i).length = if i.val = 15 then 4110 else 4095) →
            ∀ port : UInt16, printed.count port = if port = 0 then 0 else 1))) := by
  intro printed
  have hforged : ∀ p ∈ parcels traffic, Forged p.send := fun p hp ↦ by
    obtain ⟨i, hi⟩ := hsent p hp
    exact forged_of_sends h hi
  have hprinted : printed = (parcels traffic).map Parcel.srcPort := printedPorts_eq hforged
  refine ⟨hprinted, fun hkeeps ↦ ?_⟩
  have hkept (p : Parcel host) (hp : p ∈ parcels traffic) : p.srcPort = p.send.destPort :=
    (hkeeps p hp).trans (hforged p hp).sourcePort_eq
  have hports : printed = ((parcels traffic).map Parcel.send).map Send.destPort := by
    rw [hprinted, List.map_map]
    exact List.map_congr_left hkept
  refine ⟨fun port hport ↦ ?_, fun hperm ↦ ?_⟩
  · rw [hprinted] at hport
    obtain ⟨p, hp, rfl⟩ := List.mem_map.mp hport
    obtain ⟨i, hi⟩ := hsent p hp
    obtain ⟨-, -, -, hne, -⟩ := hforged p hp
    rw [hkept p hp]
    exact ⟨hne, i, portsSent_eq s i ▸ List.mem_map_of_mem hi⟩
  · have hcount (port : UInt16) : printed.count port
        = ((List.finRange processCount).flatMap s.portsSent).count port.toNat := by
      have hflat : (List.finRange processCount).flatMap s.portsSent
          = (((List.finRange processCount).flatMap s.sends).map Send.destPort).map
            UInt16.toNat := by
        rw [List.map_map, List.map_flatMap]
        exact congrArg (List.flatMap · _) (funext (portsSent_eq s))
      rw [hports, (hperm.map Send.destPort).count_eq, hflat,
        List.count_map_of_injective _ _ fun _ _ ↦ UInt16.toNat_inj.mp]
    refine ⟨hcount, fun hcomplete port ↦ ?_⟩
    rw [hcount, count_portsSent_of_complete (Kept.of_reaches hpath (by decide) h) hcomplete]
    have hlt := port.toNat_lt
    by_cases hzero : port = 0
    · rw [if_pos hzero, hzero]
      rfl
    · have hpos : port.toNat ≠ 0 := fun h0 ↦ hzero (UInt16.toNat_inj.mp h0)
      rw [if_neg hzero, if_pos (by omega)]

/-! ## A scan that is heard -/

/-- The public address 198.51.100.7. -/
def keptHost : Vector UInt8 4 := .ofFn ![198, 51, 100, 7]

/-- A packet as it arrives from there when its port is kept. -/
def keptParcel (send : Send) : Parcel keptHost where
  send := send
  macs := Vector.replicate 12 0xAA
  ttl := 63
  hdrCksum := 0
  srcIp := htonl 0xC6336407
  dstIp := htonl 0xC0000201
  srcPort := sourcePort send
  dstPort := send.destPort
  cksum := 0
  trailer := []
  behind := fun _ ↦ 0
  source := by decide +kernel

/-- Some scan is heard at all ports. -/
theorem scan_heard_all : ∃ traffic : List (Traffic keptHost),
    ∀ port : UInt16, port ≠ 0 → port ∈ printedPorts keptHost (traffic.map Traffic.capture) := by
  have hpath := Env.plain_forge
  obtain ⟨s, hreach, hports⟩ := exists_all_ports hpath (by decide) (fun _ ↦ rfl)
    (i := ⟨15, by decide⟩) rfl rfl Relation.ReflTransGen.refl 1
  set sends := (List.finRange processCount).flatMap s.sends
  have hparcels : parcels (sends.map fun send ↦ Traffic.parcel (keptParcel send))
      = sends.map keptParcel := by
    rw [parcels, List.filterMap_map]
    exact congrFun List.filterMap_eq_map' sends
  have hmap : (sends.map keptParcel).map Parcel.send = sends := by
    rw [List.map_map]
    exact List.map_id sends
  refine ⟨sends.map fun send ↦ .parcel (keptParcel send), fun port hport ↦ ?_⟩
  have hheard := (scan_heard _ hpath hreach (sends.map fun send ↦ .parcel (keptParcel send))
    fun p hp ↦ ?_).2 fun p hp ↦ ?_
  · have hcount := (hheard.2 (by rw [hparcels, hmap])).1 port
    have hpos : port.toNat ≠ 0 := fun hzero ↦ hport (UInt16.toNat_inj.mp hzero)
    have hmem := hports port.toNat (by omega) (Nat.le_of_lt_succ port.toNat_lt)
    rw [← List.count_pos_iff, hcount]
    exact List.count_pos_iff.mpr
      (List.mem_flatMap.mpr ⟨_, List.mem_finRange _, List.count_pos_iff.mp hmem⟩)
  · rw [hparcels] at hp
    obtain ⟨send, hsend, rfl⟩ := List.mem_map.mp hp
    obtain ⟨i, -, hi⟩ := List.mem_flatMap.mp hsend
    exact ⟨i, hi⟩
  · rw [hparcels] at hp
    obtain ⟨send, -, rfl⟩ := List.mem_map.mp hp
    rfl

end NatGhost.Sweep
