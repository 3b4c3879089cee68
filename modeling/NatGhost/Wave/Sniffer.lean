import NatGhost.Foundation.Atoi
import NatGhost.Foundation.Visits
import NatGhost.Packet.Ethernet
import NatGhost.Wave.Burst
import NatGhost.Wave.PacketLog

/-!
# The sniffing listener

`sniff_listener` receives raw frames into one buffer and looks for the payload of `burst_worker`:
behind an Ethernet header of type IP, an IP header of `ihl * 4` bytes with protocol UDP, and a UDP
header, the text `PORT` and five digits. For each hit it writes a line to the log, with a sequence
number that counts the lines.

The buffer is not cleared between frames, so what stands behind a frame is whatever earlier frames
left there.
-/

namespace NatGhost

/-! ## The receive loop -/

/-- `BUF_SIZE`. -/
def Sniffer.bufSize : ℕ := 2048

/-- `PAYLOAD_PREFIX` and its NUL. -/
def payloadPrefix : List UInt8 := utf8Bytes "PORT".toList ++ [0]

/-- `PREFIX_LEN`. -/
def prefixLen : ℕ := 4

/-- `PORT_STR_LEN`. -/
def portStrLen : ℕ := 5

/-- A return of `recvfrom`, `none` for an error, and the time `gettimeofday` would give then. -/
structure SniffEvent where
  frame : Option (List UInt8)
  timeUs : UInt64

/-- The buffer, the counter and the lines of the log file. -/
structure Sniffer where
  buf : ℕ → UInt8
  seqIndex : UInt32
  logFile : List (List Char)

/-- `payload_len`: the subtraction is in `size_t` and wraps around. -/
def payloadLen (udp : UdpHeader) : UInt64 := (ntohs udp.len).toUInt64 - 8

/-- The checks of the loop: where the payload of a frame in the buffer starts, if they all pass. -/
def payloadAt (buf : ℕ → UInt8) : Option ℕ :=
  if ntohs (load16 buf 12) ≠ 0x0800 then none
  else
    let ip := IpHeader.read buf 14
    if ip.proto ≠ udpProto then none
    else
      let iphdrLen := ip.ihl.toNat * 4
      let udp := UdpHeader.read buf (14 + iphdrLen)
      let payload := 14 + iphdrLen + 8
      if 9 ≤ payloadLen udp ∧
          strncmpEq prefixLen (fun i ↦ buf (payload + i)) (fun i ↦ payloadPrefix.getD i 0)
            = true then
        some payload
      else none

/-- What the loop does with a payload that passed. -/
def Sniffer.report (s : Sniffer) (payload : ℕ) (timeUs : UInt64) : Sniffer :=
  let portStr := cellsAt s.buf (payload + prefixLen) portStrLen ++ [0]
  let reportedPort := atoi (byteChars portStr)
  if 0 ≤ reportedPort ∧ reportedPort < 65536 then
    { s with
      seqIndex := s.seqIndex + 1
      logFile := s.logFile ++ [logLine reportedPort timeUs s.seqIndex] }
  else s

/-- The loop behind `recvfrom`, for a frame in the buffer. -/
def Sniffer.inspect (s : Sniffer) (timeUs : UInt64) : Sniffer :=
  match payloadAt s.buf with
  | some payload => s.report payload timeUs
  | none => s

/-- One round of the loop. -/
def Sniffer.receive (s : Sniffer) (e : SniffEvent) : Sniffer :=
  match e.frame with
  | none => s
  | some frame =>
    let received := frame.take Sniffer.bufSize
    let s := { s with buf := overlay 0 received s.buf }
    if received.length = 0 then s else s.inspect e.timeUs

/-- The state when the loop starts: the log file is empty, the buffer is not initialised. -/
def Sniffer.start (buf : ℕ → UInt8) : Sniffer where
  buf := buf
  seqIndex := 0
  logFile := []

/-! ## The counter -/

/-- The sequence number of the next line is the number of lines so far. -/
def Sniffer.Counted (s : Sniffer) : Prop := s.seqIndex = UInt32.ofNat s.logFile.length

theorem Sniffer.counted_report {s : Sniffer} (hs : s.Counted) (payload : ℕ) (timeUs : UInt64) :
    (s.report payload timeUs).Counted := by
  rw [report]
  split_ifs
  · rw [Counted, List.length_append, List.length_singleton, UInt32.ofNat_add, ← hs]
    rfl
  · exact hs

theorem Sniffer.counted_inspect {s : Sniffer} (hs : s.Counted) (timeUs : UInt64) :
    (s.inspect timeUs).Counted := by
  rw [inspect]
  cases payloadAt s.buf with
  | none => exact hs
  | some payload => exact counted_report hs payload timeUs

theorem Sniffer.counted_receive {s : Sniffer} (hs : s.Counted) (e : SniffEvent) :
    (s.receive e).Counted := by
  rw [receive]
  cases e.frame with
  | none => exact hs
  | some frame =>
    have hs' : Counted { s with buf := overlay 0 (frame.take Sniffer.bufSize) s.buf } := hs
    dsimp only
    split_ifs
    · exact hs'
    · exact counted_inspect hs' e.timeUs

/-- **Every run counts its lines.** -/
theorem Sniffer.counted_run (buf : ℕ → UInt8) (events : List SniffEvent) :
    (events.foldl Sniffer.receive (Sniffer.start buf)).Counted :=
  foldl_invariant Sniffer.Counted rfl fun _ e _ hs ↦ counted_receive hs e

/-! ## The payload of the wave -/

theorem length_portDigits {port : ℕ} (h : port < 65536) :
    (utf8Bytes (printPadded 5 port)).length = portStrLen := by
  rw [length_utf8Bytes (isNumeral_printPadded 5 port).isAscii]
  exact length_printPadded (by decide) (h.trans (by decide))

theorem burstPayload_eq (stale : Vector UInt8 20) {port : ℕ} (h : port < 65536) :
    burstPayload stale port = utf8Bytes "PORT".toList ++ (utf8Bytes (printPadded 5 port)
      ++ 0 :: stale.toList.drop 10) := by
  have htext : (utf8Bytes (payloadText port)).length = 9 := by
    rw [payloadText, utf8Bytes_append, List.length_append, length_portDigits h]
    rfl
  rw [burstPayload, snprintf_of_lt (by rw [htext]; decide), htext, payloadText, utf8Bytes_append,
    List.append_assoc]

theorem length_burstPayload (stale : Vector UInt8 20) {port : ℕ} (h : port < 65536) :
    (burstPayload stale port).length = 20 := by
  rw [burstPayload_eq stale h]
  simp only [List.length_append, length_portDigits h, List.length_cons, List.length_drop,
    Vector.length_toList]
  rfl

/-! ## The frame of the wave -/

/-- A frame on the wire: an Ethernet header of type IP, an IP header with its options, a UDP header,
the payload and anything behind it. -/
def waveFrame (macs : Vector UInt8 12) (ip : IpHeader) (options : List UInt8) (udp : UdpHeader)
    (payload trailer : List UInt8) : List UInt8 :=
  macs.toList ++ [0x08, 0x00] ++ ip.bytes ++ options ++ udp.bytes ++ payload ++ trailer

section

variable {buf : ℕ → UInt8} {macs : Vector UInt8 12} {ip : IpHeader} {options : List UInt8}
  {udp : UdpHeader} {payload trailer : List UInt8}

theorem length_take_waveFrame_ne_zero (macs : Vector UInt8 12) (ip : IpHeader)
    (options : List UInt8) (udp : UdpHeader) (payload trailer : List UInt8) :
    ((waveFrame macs ip options udp payload trailer).take Sniffer.bufSize).length ≠ 0 := by
  rw [waveFrame, List.length_take, List.length_append]
  simp only [List.length_append, Vector.length_toList, Sniffer.bufSize]
  omega

theorem holds_waveFrame (hfits : 42 + options.length + payload.length ≤ Sniffer.bufSize) :
    Holds (overlay 0 ((waveFrame macs ip options udp payload trailer).take Sniffer.bufSize) buf) 12
      ([0x08, 0x00] ++ ip.bytes ++ options ++ udp.bytes ++ payload) := by
  have hlength : (macs.toList ++ ([0x08, 0x00] ++ ip.bytes ++ options ++ udp.bytes
      ++ payload)).length
      = 42 + options.length + payload.length := by
    simp only [List.length_append, Vector.length_toList, IpHeader.length_bytes,
      UdpHeader.length_bytes, List.length_cons, List.length_nil]
    omega
  have hframe : waveFrame macs ip options udp payload trailer
      = macs.toList ++ ([0x08, 0x00] ++ ip.bytes ++ options ++ udp.bytes ++ payload)
        ++ trailer := by
    simp only [waveFrame, List.append_assoc]
  have h := holds_overlay 0
    ((waveFrame macs ip options udp payload trailer).take Sniffer.bufSize) buf
  rw [hframe, List.take_append, List.take_of_length_le (hlength.trans_le hfits)] at h ⊢
  have hmacs := (holds_append_iff.mp (holds_append_iff.mp h).1).2
  rwa [Vector.length_toList] at hmacs

theorem length_options_le (hoptions : options.length = ip.ihl.toNat * 4 - 20) :
    options.length ≤ 40 := by
  have hihl : ip.ihl.toNat ≤ 15 := by
    rw [IpHeader.ihl, UInt8.toNat_and]
    exact Nat.and_le_right
  rw [hoptions]
  omega

theorem toNat_payloadLen (h : 8 ≤ (ntohs udp.len).toNat) :
    (payloadLen udp).toNat = (ntohs udp.len).toNat - 8 := by
  rw [payloadLen, UInt64.toNat_sub_of_le]
  · rfl
  · rw [UInt64.le_iff_toNat_le]
    exact h

theorem toNat_payloadLen_eq (hlen : udp.len = htons (UInt16.ofNat (8 + payload.length)))
    (hfits : 8 + payload.length < 65536) : (payloadLen udp).toNat = payload.length := by
  have hudp : (ntohs udp.len).toNat = 8 + payload.length := by
    rw [hlen, ntohs_htons]
    exact UInt16.toNat_ofNat_of_lt' hfits
  rw [toNat_payloadLen (hudp ▸ Nat.le_add_right 8 _), hudp, Nat.add_sub_cancel_left]

theorem strncmpEq_payload {a : ℕ} (h : Holds buf a payload) (hlength : prefixLen ≤ payload.length) :
    strncmpEq prefixLen (fun i ↦ buf (a + i)) (fun i ↦ payloadPrefix.getD i 0) = true
      ↔ payload.take 4 = utf8Bytes "PORT".toList := by
  have hmark : ∀ i < prefixLen, payloadPrefix.getD i 0 ≠ 0 := by decide
  have hcell : ∀ i < prefixLen, buf (a + i) = payload.getD i 0 :=
    fun i hi ↦ h.getD (hi.trans_le hlength) 0
  have htake : (payload.take 4).length = 4 := by
    rw [List.length_take]
    exact min_eq_left hlength
  rw [strncmpEq_iff hmark]
  constructor
  · intro hsame
    refine List.ext_getElem htake fun i hi hi' ↦ ?_
    rw [htake] at hi
    have hchar := (hcell i hi).symm.trans (hsame i hi)
    rw [List.getD_eq_getElem _ _ (hi.trans_le hlength)] at hchar
    rw [List.getElem_take, hchar, payloadPrefix, List.getD_append _ _ _ _ hi',
      List.getD_eq_getElem _ _ hi']
  · intro hsame i hi
    have hi' : i < (payload.take 4).length := htake.symm ▸ hi
    have hchar : (payload.take 4).getD i 0 = payload.getD i 0 := by
      rw [List.getD_eq_getElem _ _ hi', List.getElem_take, List.getD_eq_getElem]
    rw [hcell i hi, ← hchar, hsame, payloadPrefix, List.getD_append _ _ _ _ hi]

/-- **The checks of the loop** on a UDP packet: it has to be long enough and to begin with the
prefix. -/
theorem payloadAt_of_holds
    (h : Holds buf 12 ([0x08, 0x00] ++ ip.bytes ++ options ++ udp.bytes ++ payload))
    (hproto : ip.proto = udpProto) (hihl : 5 ≤ ip.ihl.toNat)
    (hoptions : options.length = ip.ihl.toNat * 4 - 20)
    (hlen : udp.len = htons (UInt16.ofNat (8 + payload.length)))
    (hfits : 8 + payload.length < 65536) :
    Holds buf (14 + ip.ihl.toNat * 4 + 8) payload ∧
      payloadAt buf = if 9 ≤ payload.length ∧ payload.take 4 = utf8Bytes "PORT".toList then
        some (14 + ip.ihl.toNat * 4 + 8) else none := by
  simp only [holds_append_iff, List.length_append, IpHeader.length_bytes, UdpHeader.length_bytes,
    List.length_cons, List.length_nil, Nat.zero_add, Nat.reduceAdd] at h
  obtain ⟨⟨⟨⟨htype, hip⟩, _⟩, hudp⟩, hpayload⟩ := h
  -- the options fill the header up to its length field
  have haddr : 12 + (22 + options.length) = 14 + ip.ihl.toNat * 4 := by
    rw [hoptions]
    omega
  have hdata : 12 + (22 + options.length + 8) = 14 + ip.ihl.toNat * 4 + 8 := by
    rw [← haddr, Nat.add_assoc 12]
  rw [haddr] at hudp
  rw [hdata] at hpayload
  have htype' : ntohs (load16 buf 12) = 0x0800 := by
    have hcell₀ : buf 12 = 0x08 := htype 0 Nat.zero_lt_two
    have hcell₁ : buf (12 + 1) = 0x00 := htype 1 Nat.one_lt_two
    rw [load16, hcell₀, hcell₁]
    decide
  have hlong : 9 ≤ payloadLen udp ↔ 9 ≤ payload.length := by
    rw [UInt64.le_iff_toNat_le, toNat_payloadLen_eq hlen hfits]
    rfl
  refine ⟨hpayload, ?_⟩
  rw [payloadAt, if_neg (not_not.mpr htype')]
  simp only [IpHeader.read_eq hip, hproto, UdpHeader.read_eq hudp, hlong]
  rw [if_neg (not_not.mpr rfl)]
  refine if_congr (and_congr_right fun hnine ↦ ?_) rfl rfl
  exact strncmpEq_payload hpayload ((show prefixLen ≤ 9 by decide).trans hnine)

end

/-! ## The report -/

theorem Sniffer.report_of_holds (s : Sniffer) {payload port : ℕ} (timeUs : UInt64)
    {rest : List UInt8} (hport : port < 65536)
    (h : Holds s.buf (payload + prefixLen) (utf8Bytes (printPadded 5 port) ++ rest)) :
    (s.report payload timeUs).logFile = s.logFile ++ [logLine port timeUs s.seqIndex] := by
  have hnumeral := isNumeral_printPadded 5 port
  have hcells := (holds_append_iff.mp h).1.cellsAt_eq
  rw [length_portDigits hport] at hcells
  have hchars : byteChars (utf8Bytes (printPadded 5 port) ++ [0])
      = printPadded 5 port ++ ['\x00'] := by
    rw [byteChars, List.map_append, ← byteChars, byteChars_utf8Bytes hnumeral.isAscii]
    rfl
  have hatoi : atoi (printPadded 5 port ++ ['\x00']) = port :=
    hnumeral.atoi_eq (noDigit_cons rfl)
  rw [report, hcells, hchars, hatoi, if_pos ⟨Int.natCast_nonneg port, by exact_mod_cast hport⟩]

/-- **A packet of the wave is logged once.** Whatever the listener received before, whatever the
payload array of `burst_worker` held behind the text, whatever stands in the Ethernet header, in the
options and behind the payload: the loop writes one line, with the port of the packet and the number
of lines before it. -/
theorem sniffer_logs_wave (buf : ℕ → UInt8) (events : List SniffEvent) (macs : Vector UInt8 12)
    (ip : IpHeader) (options : List UInt8) (udp : UdpHeader) (stale : Vector UInt8 20)
    (port : UInt16) (trailer : List UInt8) (timeUs : UInt64) (hproto : ip.proto = udpProto)
    (hihl : 5 ≤ ip.ihl.toNat) (hoptions : options.length = ip.ihl.toNat * 4 - 20)
    (hlen : udp.len = htons (8 + 20)) :
    let s := events.foldl Sniffer.receive (Sniffer.start buf)
    (s.receive ⟨some (waveFrame macs ip options udp (burstPayload stale port.toNat) trailer),
      timeUs⟩).logFile
        = s.logFile ++ [logLine port.toNat timeUs (UInt32.ofNat s.logFile.length)] := by
  intro s
  have hcounted : s.seqIndex = UInt32.ofNat s.logFile.length := Sniffer.counted_run buf events
  set payload := burstPayload stale port.toNat with hpayload
  set mem := overlay 0 ((waveFrame macs ip options udp payload trailer).take Sniffer.bufSize) s.buf
  have hlength : payload.length = 20 := length_burstPayload stale port.toNat_lt
  have htext : payload = utf8Bytes "PORT".toList ++ (utf8Bytes (printPadded 5 port.toNat)
      ++ 0 :: stale.toList.drop 10) := burstPayload_eq stale port.toNat_lt
  have hholds : Holds mem 12 ([0x08, 0x00] ++ ip.bytes ++ options ++ udp.bytes ++ payload) := by
    refine holds_waveFrame ?_
    have hle := length_options_le hoptions
    rw [hlength, Sniffer.bufSize]
    omega
  have hlen' : udp.len = htons (UInt16.ofNat (8 + payload.length)) := by rw [hlen, hlength]; rfl
  obtain ⟨hdata, haddr⟩ := payloadAt_of_holds hholds hproto hihl hoptions hlen' (by omega)
  -- the mark is there, and five digits behind it
  rw [if_pos ⟨by omega, by rw [htext]; rfl⟩] at haddr
  rw [htext] at hdata
  have hreport := Sniffer.report_of_holds { s with buf := mem } timeUs port.toNat_lt
    (holds_append_iff.mp hdata).2
  simp only [Sniffer.receive]
  rw [if_neg (length_take_waveFrame_ne_zero macs ip options udp payload trailer), Sniffer.inspect]
  simp only [haddr, mem]
  rw [← hcounted]
  exact hreport

/-- An IP header with four bytes of options. -/
def ipWithOptions : IpHeader where
  verIhl := 0x46
  tos := 0
  totalLen := htons 52
  id := 0
  fragOff := 0
  ttl := 64
  proto := udpProto
  hdrCksum := 0
  srcIp := htonl 0xC6336407
  dstIp := htonl 0xC0000201

def portFrame (port : UInt16) : List UInt8 :=
  waveFrame (Vector.replicate 12 0xAA) ipWithOptions [1, 1, 1, 0]
    ⟨htons 5000, htons port, htons 28, 0⟩ (burstPayload (Vector.replicate 20 0x39) port.toNat) []

/-- Two packets in a row give two lines. -/
theorem sniffer_logs_wave_twice :
    (([⟨some (portFrame 80), 1000⟩, ⟨some (portFrame 65535), 1001⟩] : List SniffEvent).foldl
      Sniffer.receive (Sniffer.start fun _ ↦ 0)).logFile
        = ["80 1000 0\n".toList, "65535 1001 1\n".toList] := by
  have hfirst := sniffer_logs_wave (fun _ ↦ 0) [] (Vector.replicate 12 0xAA) ipWithOptions
    [1, 1, 1, 0] ⟨htons 5000, htons 80, htons 28, 0⟩ (Vector.replicate 20 0x39) 80 [] 1000 rfl
    (by decide) rfl rfl
  have hsecond := sniffer_logs_wave (fun _ ↦ 0) [⟨some (portFrame 80), 1000⟩]
    (Vector.replicate 12 0xAA) ipWithOptions [1, 1, 1, 0]
    ⟨htons 5000, htons 65535, htons 28, 0⟩ (Vector.replicate 20 0x39) 65535 [] 1001 rfl (by decide)
    rfl rfl
  simp only [List.foldl_cons, List.foldl_nil] at hfirst hsecond ⊢
  have hlog : ((Sniffer.start fun _ ↦ 0).receive ⟨some (portFrame 80), 1000⟩).logFile
      = ["80 1000 0\n".toList] := hfirst.trans (by decide)
  rw [hlog] at hsecond
  exact hsecond.trans (by decide)

end NatGhost
