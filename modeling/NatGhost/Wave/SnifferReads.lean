import NatGhost.Foundation.MemoryReads
import NatGhost.Packet.Captured
import NatGhost.Wave.Sniffer

/-!
# Which bytes the sniffer reads

The loop of `sniff_listener` as a program that reads bytes of `buf`, in the order of the source.
After `recvfrom` it asks only whether the length is positive; the header fields it then reads decide
where it reads on, and the length of the payload is what the UDP header says. `payload_len` is
computed in `size_t`, so a UDP length below eight makes it huge.

`FrameReads` is the property that all of this stays inside the received bytes. It depends on those
bytes alone, and `headers_inside_iff` says when it holds: each header has to be there as soon as the
one before it announces it, and the UDP length has to fit.
-/

namespace NatGhost

open ReadTree

/-! ## The code -/

/-- The part of the loop up to `payload_len`: where the UDP header starts, and `payload_len`. -/
def sniffHeaders (len : ℕ) : ReadTree ℕ UInt8 (Option (ℕ × UInt64)) :=
  if len = 0 then pure none
  else do
    let etherType ← read16 12
    if ntohs etherType ≠ 0x0800 then pure none
    else
      let protocol ← cell 23
      if protocol ≠ udpProto then pure none
      else
        let verIhl ← cell 14
        let iphdrLen := (verIhl &&& 0x0F).toNat * 4
        let udp := 14 + iphdrLen
        let udpLen ← read16 (udp + 4)
        pure (some (udp, (ntohs udpLen).toUInt64 - 8))

/-- What is printed for a hit: the reported port, and the source address and port of the packet. -/
structure Sighting where
  reportedPort : ℤ
  saddr : UInt32
  source : UInt16

/-- The rest of the loop. -/
def sniffPayload (udp : ℕ) (payloadLen : UInt64) : ReadTree ℕ UInt8 (Option Sighting) :=
  let payload := udp + 8
  if 9 ≤ payloadLen then do
    let marked ← readStrncmpEq prefixLen payload fun i ↦ payloadPrefix.getD i 0
    if marked = true then
      let portStr ← readCells (payload + prefixLen) portStrLen
      let reportedPort := atoi (byteChars (portStr ++ [0]))
      if 0 ≤ reportedPort ∧ reportedPort < 65536 then
        let saddr ← read32 26
        let source ← read16 udp
        pure (some ⟨reportedPort, saddr, ntohs source⟩)
      else pure none
    else pure none
  else pure none

/-- One round of the loop, behind `recvfrom`. -/
def sniffRound (len : ℕ) : ReadTree ℕ UInt8 (Option Sighting) := do
  match ← sniffHeaders len with
  | some (udp, payloadLen) => sniffPayload udp payloadLen
  | none => pure none

/-! ## The same loop -/

/-- The line of the log for a sighting, if there is one. -/
def Sniffer.log (s : Sniffer) (timeUs : UInt64) : Option Sighting → Sniffer
  | some sighting =>
    { s with
      seqIndex := s.seqIndex + 1
      logFile := s.logFile ++ [logLine sighting.reportedPort timeUs s.seqIndex] }
  | none => s

section

variable {mem : ℕ → UInt8} {len udp : ℕ} {payloadLen : UInt64}

theorem run_sniffHeaders (hlen : len ≠ 0) : run mem (sniffHeaders len)
    = if ntohs (load16 mem 12) ≠ 0x0800 then none
      else if mem 23 ≠ udpProto then none
      else
        let udp := 14 + (mem 14 &&& 0x0F).toNat * 4
        some (udp, NatGhost.payloadLen (UdpHeader.read mem udp)) := by
  rw [sniffHeaders, if_neg hlen, run_bind, run_read16]
  split_ifs with htype hproto
  · rw [run_pure]
  · rw [run_bind, run_cell, if_pos hproto, run_pure]
  · rw [run_bind, run_cell, if_neg hproto, run_bind, run_cell, run_bind, run_read16, run_pure]
    rfl

/-- The comparison of the loop. -/
def marked (mem : ℕ → UInt8) (payload : ℕ) : Bool :=
  strncmpEq prefixLen (fun i ↦ mem (payload + i)) fun i ↦ payloadPrefix.getD i 0

theorem payloadAt_eq (hlen : len ≠ 0) : payloadAt mem =
    match run mem (sniffHeaders len) with
    | some (udp, payloadLen) =>
      if 9 ≤ payloadLen ∧ marked mem (udp + 8) = true then some (udp + 8) else none
    | none => none := by
  have hproto : (IpHeader.read mem 14).proto = mem 23 := rfl
  rw [run_sniffHeaders hlen, payloadAt]
  dsimp only
  rw [hproto]
  by_cases htype : ntohs (load16 mem 12) ≠ 0x0800
  · rw [if_pos htype, if_pos htype]
  · rw [if_neg htype, if_neg htype]
    by_cases hudp : mem 23 ≠ udpProto
    · rw [if_pos hudp, if_pos hudp]
    · rw [if_neg hudp, if_neg hudp]
      rfl

theorem run_marked : run mem (readStrncmpEq prefixLen (udp + 8) fun i ↦ payloadPrefix.getD i 0)
    = marked mem (udp + 8) := run_readStrncmpEq mem _ _ _

theorem run_sniffPayload_of_not (h : ¬(9 ≤ payloadLen ∧ marked mem (udp + 8) = true)) :
    run mem (sniffPayload udp payloadLen) = none := by
  rw [sniffPayload]
  dsimp only
  split_ifs with hlen
  · rw [run_bind, run_marked, if_neg fun hmarked ↦ h ⟨hlen, hmarked⟩, run_pure]
  · rw [run_pure]

theorem Sniffer.report_eq_log (s : Sniffer) (timeUs : UInt64)
    (h : 9 ≤ payloadLen ∧ marked s.buf (udp + 8) = true) :
    s.report (udp + 8) timeUs = s.log timeUs (run s.buf (sniffPayload udp payloadLen)) := by
  rw [sniffPayload, report]
  dsimp only
  rw [if_pos h.1, run_bind, run_marked, if_pos h.2, run_bind, run_readCells]
  split_ifs
  · rw [run_bind, run_bind, run_pure]
    rfl
  · rw [run_pure]
    rfl

/-- **The program reads what the loop reads.** A round of the listener is a run of it on the
buffer. -/
theorem Sniffer.receive_eq_log (s : Sniffer) (frame : List UInt8) (timeUs : UInt64) :
    s.receive ⟨some frame, timeUs⟩ =
      let received := frame.take Sniffer.bufSize
      let buf := overlay 0 received s.buf
      Sniffer.log { s with buf := buf } timeUs (run buf (sniffRound received.length)) := by
  rw [receive]
  dsimp only
  generalize frame.take Sniffer.bufSize = received
  rw [sniffRound, run_bind]
  split_ifs with hlen
  · rw [sniffHeaders, if_pos hlen, run_pure]
    rfl
  · rw [inspect, payloadAt_eq hlen]
    cases run (overlay 0 received s.buf) (sniffHeaders received.length) with
    | none => rfl
    | some found =>
      dsimp only
      split_ifs with hpayload
      · exact report_eq_log { s with buf := overlay 0 received s.buf } timeUs hpayload
      · rw [run_sniffPayload_of_not hpayload]
        rfl

/-! ## The cells read -/

theorem reads_sniffHeaders (hlen : len ≠ 0) : reads mem (sniffHeaders len)
    = [12, 13] ++ if ntohs (load16 mem 12) ≠ 0x0800 then []
      else 23 :: if mem 23 ≠ udpProto then []
      else
        let udp := 14 + (mem 14 &&& 0x0F).toNat * 4
        [14, udp + 4, udp + 5] := by
  rw [sniffHeaders, if_neg hlen, reads_bind, reads_read16, run_read16]
  split_ifs with htype hproto
  · rw [reads_pure]
  · rw [reads_bind, reads_cell, run_cell, if_pos hproto, reads_pure, List.append_nil]
  · rw [reads_bind, reads_cell, run_cell, if_neg hproto, reads_bind, reads_cell, run_cell,
      reads_bind, reads_read16, reads_pure, List.append_nil]
    rfl

theorem of_mem_reads_sniffPayload {a : ℕ} (h : a ∈ reads mem (sniffPayload udp payloadLen)) :
    9 ≤ payloadLen ∧ (a < udp + 17 ∨ a < 30) := by
  rw [sniffPayload] at h
  dsimp only at h
  split_ifs at h with hlen
  · refine ⟨hlen, ?_⟩
    rw [reads_bind, run_marked, List.mem_append] at h
    rcases h with hcmp | hcopy
    · have hlt := lt_of_mem_reads_readStrncmpEq mem (udp + 8) hcmp
      rw [prefixLen] at hlt
      omega
    · split_ifs at hcopy
      · rw [reads_bind, reads_readCells, List.mem_append, List.mem_range'_1, prefixLen,
          portStrLen] at hcopy
        rcases hcopy with hcopy | hprint
        · omega
        · split_ifs at hprint
          · simp only [reads_bind, reads_read32, reads_read16, reads_pure, List.append_nil,
              List.mem_append, List.mem_cons, List.not_mem_nil, or_false] at hprint
            omega
          · exact absurd hprint List.not_mem_nil
      · exact absurd hcopy List.not_mem_nil
  · exact absurd h List.not_mem_nil

end

/-! ## Inside the received bytes -/

/-- Everything that is read is one of the `len` bytes received, and `payload_len` is not more than
what follows the UDP header. -/
structure FrameReads (mem : ℕ → UInt8) (len : ℕ) : Prop where
  inside : ∀ a ∈ reads mem (sniffRound len), a < len
  payload : ∀ udp payloadLen, run mem (sniffHeaders len) = some (udp, payloadLen) →
    payloadLen.toNat ≤ len - (udp + 8)

def wireUdpLen (wire : List UInt8) : ℕ := (ntohs (wireUdp wire).len).toNat

/-- What is announced is there: the IP header of a frame of type IP up to the protocol, for UDP the
UDP header up to the length, and what this length says. -/
def HeadersInside (received : List UInt8) : Prop :=
  received.length = 0 ∨ 14 ≤ received.length ∧
    (ntohs (load16 (fun i ↦ received.getD i 0) 12) = 0x0800 → 24 ≤ received.length ∧
      ((wireIp received).proto = udpProto → wireUdpAt received + 6 ≤ received.length ∧
        8 ≤ wireUdpLen received ∧
        wireUdpLen received - 8 ≤ received.length - (wireUdpAt received + 8)))

section

variable {received : List UInt8} {udp : UdpHeader}

theorem lt_toNat_payloadLen (h : (ntohs udp.len).toNat < 8) :
    Sniffer.bufSize < (payloadLen udp).toNat := by
  have hle : (ntohs udp.len).toUInt64.toNat = (ntohs udp.len).toNat := rfl
  have h8 : (8 : UInt64).toNat = 8 := rfl
  rw [payloadLen, UInt64.toNat_sub, hle, h8, Sniffer.bufSize]
  omega

theorem load16_overlay (buf : ℕ → UInt8) {i : ℕ} (hi : i + 2 ≤ received.length) :
    load16 (overlay 0 received buf) i = load16 (fun i ↦ received.getD i 0) i := by
  rw [load16, overlay_zero_eq_getD buf (by omega) 0, overlay_zero_eq_getD buf (by omega) 0]
  rfl

theorem headers_overlay (buf : ℕ → UInt8) (h : 24 ≤ received.length) :
    overlay 0 received buf 23 = (wireIp received).proto ∧
      14 + (overlay 0 received buf 14 &&& 0x0F).toNat * 4 = wireUdpAt received := by
  rw [overlay_zero_eq_getD buf (by omega) 0, overlay_zero_eq_getD buf (by omega) 0]
  exact ⟨rfl, rfl⟩

/-- The UDP length as the loop reads it. -/
theorem payloadLen_overlay (buf : ℕ → UInt8) (h : wireUdpAt received + 6 ≤ received.length) :
    payloadLen (UdpHeader.read (overlay 0 received buf) (wireUdpAt received))
      = payloadLen (wireUdp received) := by
  rw [payloadLen, payloadLen]
  change (ntohs (load16 (overlay 0 received buf) (wireUdpAt received + 4))).toUInt64 - 8 = _
  rw [load16_overlay buf h]
  rfl

theorem run_sniffHeaders_overlay (buf : ℕ → UInt8) (hheader : 24 ≤ received.length)
    (hudp : wireUdpAt received + 6 ≤ received.length)
    (htype : ntohs (load16 (fun i ↦ received.getD i 0) 12) = 0x0800)
    (hproto : (wireIp received).proto = udpProto) :
    run (overlay 0 received buf) (sniffHeaders received.length)
      = some (wireUdpAt received, payloadLen (wireUdp received)) := by
  obtain ⟨hcell, hstart⟩ := headers_overlay buf hheader
  rw [run_sniffHeaders (by omega), load16_overlay buf (by omega), if_neg (not_not.mpr htype), hcell,
    if_neg (not_not.mpr hproto)]
  dsimp only
  rw [hstart, payloadLen_overlay buf hudp]

theorem FrameReads.headersInside {buf : ℕ → UInt8} (hbound : received.length ≤ Sniffer.bufSize)
    (h : FrameReads (overlay 0 received buf) received.length) : HeadersInside received := by
  by_cases hlen : received.length = 0
  · exact .inl hlen
  have hheaders : ∀ a ∈ reads (overlay 0 received buf) (sniffHeaders received.length),
      a < received.length := by
    intro a ha
    refine h.inside a ?_
    rw [sniffRound, reads_bind]
    exact List.mem_append_left _ ha
  rw [reads_sniffHeaders hlen] at hheaders
  have htypeAt : 14 ≤ received.length := hheaders 13 (by simp)
  refine .inr ⟨htypeAt, fun htype ↦ ?_⟩
  rw [load16_overlay buf htypeAt, if_neg (not_not.mpr htype)] at hheaders
  have hprotoAt : 24 ≤ received.length := hheaders 23 (by simp)
  refine ⟨hprotoAt, fun hproto ↦ ?_⟩
  obtain ⟨hcell, hstart⟩ := headers_overlay buf hprotoAt
  rw [hcell, if_neg (not_not.mpr hproto)] at hheaders
  dsimp only at hheaders
  rw [hstart] at hheaders
  have hudp : wireUdpAt received + 6 ≤ received.length :=
    hheaders (wireUdpAt received + 5) (by simp)
  have hpayload := h.payload _ _ (run_sniffHeaders_overlay buf hprotoAt hudp htype hproto)
  have hlong : 8 ≤ wireUdpLen received := by
    by_contra hshort
    have hhuge := lt_toNat_payloadLen (Nat.not_le.mp hshort)
    omega
  rw [toNat_payloadLen hlong] at hpayload
  exact ⟨hudp, hlong, hpayload⟩

theorem HeadersInside.frameReads (buf : ℕ → UInt8) (h : HeadersInside received) :
    FrameReads (overlay 0 received buf) received.length := by
  by_cases hlen : received.length = 0
  · refine ⟨fun a ha ↦ ?_, fun udp payloadLen hrun ↦ ?_⟩
    · rw [sniffRound, sniffHeaders, if_pos hlen] at ha
      exact absurd ha List.not_mem_nil
    · rw [sniffHeaders, if_pos hlen] at hrun
      exact absurd hrun nofun
  obtain ⟨htypeAt, h⟩ := h.resolve_left hlen
  -- the bytes the headers promise have been received
  have hpayload : ∀ udp payloadLen,
      run (overlay 0 received buf) (sniffHeaders received.length) = some (udp, payloadLen) →
        14 ≤ udp ∧ payloadLen.toNat ≤ received.length - (udp + 8) := by
    intro udp payloadLen hrun
    by_cases htype : ntohs (load16 (fun i ↦ received.getD i 0) 12) = 0x0800
    · obtain ⟨hprotoAt, h⟩ := h htype
      by_cases hproto : (wireIp received).proto = udpProto
      · obtain ⟨hudp, hlong, hfits⟩ := h hproto
        rw [run_sniffHeaders_overlay buf hprotoAt hudp htype hproto, Option.some.injEq,
          Prod.mk.injEq] at hrun
        rw [← hrun.1, ← hrun.2, toNat_payloadLen hlong]
        exact ⟨Nat.le_add_right _ _, hfits⟩
      · rw [run_sniffHeaders hlen, (headers_overlay buf hprotoAt).1, if_pos hproto,
          ite_self] at hrun
        exact absurd hrun nofun
    · rw [run_sniffHeaders hlen, load16_overlay buf htypeAt, if_pos htype] at hrun
      exact absurd hrun nofun
  refine ⟨fun a ha ↦ ?_, fun udp payloadLen hrun ↦ (hpayload udp payloadLen hrun).2⟩
  rw [sniffRound, reads_bind, List.mem_append] at ha
  -- a read of a header, or one of the payload behind it
  rcases ha with hheader | hrest
  · rw [reads_sniffHeaders hlen, load16_overlay buf htypeAt] at hheader
    split_ifs at hheader with htype hproto
    · simp only [List.mem_append, List.mem_cons, List.not_mem_nil, or_false] at hheader
      omega
    · have hprotoAt := (h (not_not.mp htype)).1
      simp only [List.mem_append, List.mem_cons, List.not_mem_nil, or_false] at hheader
      omega
    · obtain ⟨hprotoAt, h⟩ := h (not_not.mp htype)
      obtain ⟨hcell, hstart⟩ := headers_overlay buf hprotoAt
      rw [hcell] at hproto
      have hudp := (h (not_not.mp hproto)).1
      simp only [hstart, List.mem_append, List.mem_cons, List.not_mem_nil, or_false] at hheader
      omega
  · cases hfound : run (overlay 0 received buf) (sniffHeaders received.length) with
    | none =>
      rw [hfound] at hrest
      exact absurd hrest List.not_mem_nil
    | some found =>
      rw [hfound] at hrest
      obtain ⟨hudp, hfits⟩ := hpayload found.1 found.2 hfound
      obtain ⟨hnine, hread⟩ := of_mem_reads_sniffPayload hrest
      have hnine' : 9 ≤ found.2.toNat := UInt64.le_iff_toNat_le.mp hnine
      omega

end

/-- **When the loop stays inside the frame.** This depends on the received bytes only, not on what
the buffer held before. -/
theorem frameReads_iff (frame : List UInt8) (buf : ℕ → UInt8) :
    FrameReads (overlay 0 (frame.take Sniffer.bufSize) buf) (frame.take Sniffer.bufSize).length
      ↔ HeadersInside (frame.take Sniffer.bufSize) :=
  ⟨fun h ↦ h.headersInside (List.length_take_le _ _), fun h ↦ h.frameReads buf⟩

/-- **A frame whose UDP header claims more than was sent**: 20 bytes of payload, where two were
received. The loop compares and copies what the buffer held before. -/
theorem overstatedLength_reads_behind :
    ¬∀ (frame : List UInt8) (buf : ℕ → UInt8), FrameReads
      (overlay 0 (frame.take Sniffer.bufSize) buf) (frame.take Sniffer.bufSize).length := by
  intro h
  have hreads := (h (listenedFrame 0 [0, 53, 17, 92, 0, 28, 0, 0, 80, 79]) fun _ ↦ 0).payload 34 20
    (by decide)
  exact absurd hreads (by decide)

end NatGhost
