import NatGhost.Wave.Sniffer

/-!
# From the wave to the analyzers

The three programs of a measurement, one behind the other: `burst_wawe` sends its datagrams, the
network delivers some of them, in any order and any number of times, `sniff_listener` logs what it
recognises, and `load_packet_data` reads the log.

## The log

Whatever arrives, the log is a list of records, one a line, and is read back as these records
(`Sniffer.Logged`). Nothing depends on where the frames come from: the number in a line is checked
against the range of the ports before it is written, and the sequence numbers count the lines.

## The datagrams

A datagram of the wave arrives in a frame with some headers in front of it (`BurstDatagram`),
between frames that are none (`IsForeign`). The names of the ports survive the way through the text
of the payload, the digits in the log and the two parsers, whatever stands in the headers.
-/

namespace NatGhost

/-! ## The log of any run -/

theorem readPackets_flatMap_line (records : List PacketInfo) (text : List Char) :
    readPackets (records.flatMap PacketInfo.line ++ text) = records ++ readPackets text := by
  induction records with
  | nil => rfl
  | cons p records ih =>
    rw [List.flatMap_cons, List.append_assoc, readPackets_of_some (readPacket_line p _),
      readPackets_newline, ih, List.cons_append]

/-- **The log of a listener**: the lines of some records, numbered from 0 on, each with the time of
its event. -/
structure Sniffer.Logged (s : Sniffer) (times : List UInt64) (records : List PacketInfo) :
    Prop where
  lines : s.logFile = records.map PacketInfo.line
  next : s.seqIndex = UInt32.ofNat records.length
  numbered : records.map PacketInfo.seqIndex = (List.range records.length).map UInt32.ofNat
  timed : (records.map PacketInfo.timestampUs).Sublist times

section

variable {s : Sniffer} {times : List UInt64} {records : List PacketInfo}

theorem Sniffer.logged_start (buf : ℕ → UInt8) : (Sniffer.start buf).Logged [] [] :=
  ⟨rfl, rfl, rfl, List.Sublist.slnil⟩

theorem Sniffer.Logged.loadPacketData (h : s.Logged times records) :
    loadPacketData (some s.logFile.flatten) = records := by
  rw [h.lines, ← List.flatMap_def]
  have hread := readPackets_flatMap_line records []
  have hnil : readPackets [] = [] := readPackets_of_none rfl
  rwa [List.append_nil, hnil, List.append_nil] at hread

theorem Sniffer.Logged.skip (h : s.Logged times records) (buf : ℕ → UInt8) (timeUs : UInt64) :
    Sniffer.Logged { s with buf } (times ++ [timeUs]) records :=
  ⟨h.lines, h.next, h.numbered, h.timed.trans (List.sublist_append_left _ _)⟩

theorem Sniffer.Logged.append (h : s.Logged times records) (buf : ℕ → UInt8) (port : UInt16)
    (timeUs : UInt64) :
    Sniffer.Logged ⟨buf, s.seqIndex + 1, s.logFile ++ [logLine port.toNat timeUs s.seqIndex]⟩
      (times ++ [timeUs]) (records ++ [⟨port, timeUs, UInt32.ofNat records.length⟩]) := by
  refine ⟨?_, ?_, ?_, ?_⟩
  · rw [List.map_append, h.lines, h.next]
    rfl
  · change s.seqIndex + 1 = _
    rw [h.next, List.length_append, List.length_singleton, UInt32.ofNat_add]
    rfl
  · rw [List.map_append, h.numbered, List.length_append, List.length_singleton, List.range_succ,
      List.map_append]
    rfl
  · rw [List.map_append]
    exact h.timed.append (List.Sublist.refl _)

theorem Sniffer.report_cases (s : Sniffer) (payload : ℕ) (timeUs : UInt64) :
    s.report payload timeUs = s ∨ ∃ port : UInt16, s.report payload timeUs
      = ⟨s.buf, s.seqIndex + 1, s.logFile ++ [logLine port.toNat timeUs s.seqIndex]⟩ := by
  rw [report]
  split_ifs with hrange
  · right
    set reportedPort := atoi (byteChars (cellsAt s.buf (payload + prefixLen) portStrLen ++ [0]))
    obtain ⟨port, hport⟩ := Int.eq_ofNat_of_zero_le hrange.1
    have hlt : port < 65536 := by exact_mod_cast hport ▸ hrange.2
    refine ⟨UInt16.ofNat port, ?_⟩
    rw [hport, UInt16.toNat_ofNat_of_lt' hlt]
  · exact Or.inl rfl

/-- **Every event keeps the log a log.** -/
theorem Sniffer.Logged.receive (h : s.Logged times records) (e : SniffEvent) :
    ∃ records', (s.receive e).Logged (times ++ [e.timeUs]) records' := by
  obtain ⟨frame, timeUs⟩ := e
  cases frame with
  | none => exact ⟨records, h.skip s.buf timeUs⟩
  | some frame =>
    set mem := overlay 0 (frame.take Sniffer.bufSize) s.buf with hmem
    simp only [Sniffer.receive]
    rw [← hmem]
    split_ifs
    · exact ⟨records, h.skip mem timeUs⟩
    · rw [Sniffer.inspect]
      cases payloadAt mem with
      | none => exact ⟨records, h.skip mem timeUs⟩
      | some payload =>
        rcases Sniffer.report_cases { s with buf := mem } payload timeUs with hsame | ⟨port, hline⟩
        · change ∃ records', (Sniffer.report { s with buf := mem } payload timeUs).Logged _ records'
          rw [hsame]
          exact ⟨records, h.skip mem timeUs⟩
        · change ∃ records', (Sniffer.report { s with buf := mem } payload timeUs).Logged _ records'
          rw [hline]
          exact ⟨_, h.append mem port timeUs⟩

end

theorem Sniffer.exists_logged (buf : ℕ → UInt8) (events : List SniffEvent) :
    ∃ records, (events.foldl Sniffer.receive (Sniffer.start buf)).Logged
      (events.map SniffEvent.timeUs) records := by
  induction events using List.reverseRecOn with
  | nil => exact ⟨[], Sniffer.logged_start buf⟩
  | append_singleton events e ih =>
    obtain ⟨records, hlogged⟩ := ih
    rw [List.foldl_append, List.map_append]
    exact hlogged.receive e

/-- **The analyzers read what the listener has logged.** Whatever frames and errors come in, and
whatever the buffer held: the file consists of the lines of the records that `load_packet_data`
extracts from it, their sequence numbers count from 0, wrapping around at 2³², and their times are
those of events, in order. -/
theorem sniffer_log_reads_back (buf : ℕ → UInt8) (events : List SniffEvent) :
    let log := (events.foldl Sniffer.receive (Sniffer.start buf)).logFile
    let records := loadPacketData (some log.flatten)
    log = records.map PacketInfo.line ∧
      records.map PacketInfo.seqIndex = (List.range records.length).map UInt32.ofNat ∧
      (records.map PacketInfo.timestampUs).Sublist (events.map SniffEvent.timeUs) := by
  intro log records
  obtain ⟨records', hlogged⟩ := Sniffer.exists_logged buf events
  have hread : records = records' := hlogged.loadPacketData
  rw [hread]
  exact ⟨hlogged.lines, hlogged.numbered, hlogged.timed⟩

/-! ## Traffic -/

/-- A message of the wave as it arrives: the headers in front of it, whatever they say beyond being
those of a UDP packet of this length, what is behind it, and when. -/
structure BurstDatagram where
  macs : Vector UInt8 12
  ip : IpHeader
  options : List UInt8
  udp : UdpHeader
  message : BurstMessage
  trailer : List UInt8
  timeUs : UInt64
  isUdp : ip.proto = udpProto
  five_le_ihl : 5 ≤ ip.ihl.toNat
  length_options : options.length = ip.ihl.toNat * 4 - 20
  length_udp : udp.len = htons (8 + 20)

/-- The return of `recvfrom`. -/
def BurstDatagram.event (d : BurstDatagram) : SniffEvent where
  frame := some (waveFrame d.macs d.ip d.options d.udp d.message.payload d.trailer)
  timeUs := d.timeUs

/-- A return of `recvfrom` that is no UDP packet: an error, nothing, a frame of another type, or an
IP packet of another protocol. -/
def SniffEvent.IsForeign (e : SniffEvent) : Prop :=
  ∀ frame ∈ e.frame, frame = [] ∨
    14 ≤ frame.length ∧ be16 (frame.getD 12 0) (frame.getD 13 0) ≠ 0x0800 ∨
    24 ≤ frame.length ∧ frame.getD 23 0 ≠ udpProto

inductive Arrival where
  | datagram (d : BurstDatagram)
  | foreign (e : SniffEvent) (h : e.IsForeign)

def Arrival.event : Arrival → SniffEvent
  | .datagram d => d.event
  | .foreign e _ => e

def Arrival.datagram? : Arrival → Option BurstDatagram
  | .datagram d => some d
  | .foreign _ _ => none

def datagrams (arrivals : List Arrival) : List BurstDatagram := arrivals.filterMap Arrival.datagram?

/-- A message `burst_worker` prepares. -/
def BurstMessage.IsOfWave (m : BurstMessage) : Prop :=
  ∃ stale port, port < 65536 ∧ m = burstMessage stale port

def BurstDatagram.record (d : BurstDatagram) (index : ℕ) : PacketInfo :=
  ⟨d.message.port, d.timeUs, UInt32.ofNat index⟩

/-! ## One frame -/

section

variable {s : Sniffer}

theorem overlay_frame {frame : List UInt8} {i : ℕ} (buf : ℕ → UInt8) (hi : i < Sniffer.bufSize)
    (hframe : i < frame.length) :
    overlay 0 (frame.take Sniffer.bufSize) buf i = frame.getD i 0 := by
  have htake : i < (frame.take Sniffer.bufSize).length := by
    rw [List.length_take]
    exact lt_min hi hframe
  have hholds := (holds_overlay 0 (frame.take Sniffer.bufSize) buf).getD htake 0
  rw [Nat.zero_add, List.getD_eq_getElem _ _ htake, List.getElem_take] at hholds
  rw [hholds, List.getD_eq_getElem _ _ hframe]

/-- **What is no UDP packet leaves no line**, whatever is in the buffer behind it. -/
theorem Sniffer.receive_foreign (s : Sniffer) {e : SniffEvent} (he : e.IsForeign) :
    ∃ buf, s.receive e = { s with buf } := by
  obtain ⟨frame, timeUs⟩ := e
  cases frame with
  | none => exact ⟨s.buf, rfl⟩
  | some frame =>
    refine ⟨overlay 0 (frame.take Sniffer.bufSize) s.buf, ?_⟩
    simp only [Sniffer.receive]
    rcases he frame rfl with rfl | ⟨hlength, htype⟩ | ⟨hlength, hproto⟩
    · rw [List.take_nil, if_pos List.length_nil]
    all_goals
      have hne : ¬(frame.take Sniffer.bufSize).length = 0 := by
        rw [List.length_take, Sniffer.bufSize]
        omega
      rw [if_neg hne, Sniffer.inspect]
    · have hread : ntohs (load16 (overlay 0 (frame.take Sniffer.bufSize) s.buf) 12) ≠ 0x0800 := by
        rw [load16, ntohs_le16, overlay_frame s.buf (by decide) (by omega),
          overlay_frame s.buf (by decide) (by omega)]
        exact htype
      have hnone : payloadAt (overlay 0 (frame.take Sniffer.bufSize) s.buf) = none := by
        rw [payloadAt, if_pos hread]
      simp only [hnone]
    · have hread : (IpHeader.read (overlay 0 (frame.take Sniffer.bufSize) s.buf) 14).proto
          ≠ udpProto := by
        have hcell : overlay 0 (frame.take Sniffer.bufSize) s.buf 23 = frame.getD 23 0 :=
          overlay_frame s.buf (by decide) (by omega)
        change overlay 0 (frame.take Sniffer.bufSize) s.buf 23 ≠ udpProto
        rw [hcell]
        exact hproto
      have hnone : payloadAt (overlay 0 (frame.take Sniffer.bufSize) s.buf) = none := by
        rw [payloadAt]
        simp only [if_pos hread, ite_self]
      simp only [hnone]

/-- **A datagram of the wave leaves one line**, with its port, from any state of the listener. -/
theorem Sniffer.receive_datagram (s : Sniffer) (d : BurstDatagram) (hwave : d.message.IsOfWave) :
    ∃ buf, s.receive d.event = ⟨buf, s.seqIndex + 1,
      s.logFile ++ [logLine d.message.port.toNat d.timeUs s.seqIndex]⟩ := by
  obtain ⟨stale, port, hport, hmessage⟩ := hwave
  have hname : d.message.port.toNat = port := by
    rw [hmessage, port_burstMessage, UInt16.toNat_ofNat_of_lt' hport]
  have hpayload : d.message.payload = burstPayload (stale port) port := by rw [hmessage]; rfl
  have htext : d.message.payload = utf8Bytes "PORT".toList ++ (utf8Bytes (printPadded 5 port)
      ++ 0 :: (stale port).toList.drop 10) := by rw [hpayload, burstPayload_eq _ hport]
  have hlength : d.message.payload.length = 20 := by rw [hpayload, length_burstPayload _ hport]
  set mem := overlay 0 ((waveFrame d.macs d.ip d.options d.udp d.message.payload d.trailer).take
    Sniffer.bufSize) s.buf with hmem
  have hholds : Holds mem 12 ([0x08, 0x00] ++ d.ip.bytes ++ d.options ++ d.udp.bytes
      ++ d.message.payload) := by
    refine holds_waveFrame ?_
    have hle := length_options_le d.length_options
    rw [hlength, Sniffer.bufSize]
    omega
  obtain ⟨hdata, haddr⟩ := payloadAt_of_holds hholds d.isUdp d.five_le_ihl d.length_options
    (by rw [d.length_udp, hlength]; rfl) (by omega)
  rw [if_pos ⟨by omega, by rw [htext]; rfl⟩] at haddr
  rw [htext] at hdata
  have hreport := Sniffer.report_of_holds { s with buf := mem } d.timeUs hport
    (holds_append_iff.mp hdata).2
  refine ⟨mem, ?_⟩
  rw [hname, BurstDatagram.event]
  simp only [Sniffer.receive]
  rw [if_neg (length_take_waveFrame_ne_zero _ _ _ _ _ _), Sniffer.inspect, ← hmem]
  simp only [haddr]
  -- the report is a line, and the line is this one
  rcases Sniffer.report_cases { s with buf := mem } (14 + d.ip.ihl.toNat * 4 + 8) d.timeUs with
    hsame | ⟨port', hline⟩
  · rw [hsame] at hreport
    have hlines := congrArg List.length hreport
    rw [List.length_append, List.length_singleton] at hlines
    exact absurd hlines (Nat.succ_ne_self _).symm
  · rw [hline] at hreport ⊢
    exact congrArg (Sniffer.mk mem (s.seqIndex + 1)) hreport

theorem Sniffer.Logged.datagram {times : List UInt64} {records : List PacketInfo}
    (h : s.Logged times records) (d : BurstDatagram) (hwave : d.message.IsOfWave) :
    (s.receive d.event).Logged (times ++ [d.timeUs]) (records ++ [d.record records.length]) := by
  obtain ⟨buf, hreceive⟩ := Sniffer.receive_datagram s d hwave
  rw [hreceive]
  exact h.append buf d.message.port d.timeUs

end

/-- **The records of a run** are those of its datagrams. -/
theorem Sniffer.logged_arrivals (buf : ℕ → UInt8) {arrivals : List Arrival}
    (hwave : ∀ d ∈ datagrams arrivals, d.message.IsOfWave) :
    ∃ times, ((arrivals.map Arrival.event).foldl Sniffer.receive (Sniffer.start buf)).Logged times
      ((datagrams arrivals).mapIdx fun index d ↦ d.record index) := by
  induction arrivals using List.reverseRecOn with
  | nil => exact ⟨[], Sniffer.logged_start buf⟩
  | append_singleton arrivals a ih =>
    have hsplit : datagrams (arrivals ++ [a]) = datagrams arrivals ++ datagrams [a] :=
      List.filterMap_append
    obtain ⟨times, hlogged⟩ := ih fun d hd ↦ hwave d (hsplit ▸ List.mem_append_left _ hd)
    rw [List.map_append, List.foldl_append, hsplit]
    cases a with
    | foreign e he =>
      obtain ⟨buf', hreceive⟩ := Sniffer.receive_foreign _ he
      have hnone : datagrams [.foreign e he] = [] := rfl
      change ∃ times, Sniffer.Logged (Sniffer.receive _ e) times _
      rw [hreceive, hnone, List.append_nil]
      exact ⟨_, hlogged.skip buf' e.timeUs⟩
    | datagram d =>
      have hd : d ∈ datagrams (arrivals ++ [.datagram d]) :=
        hsplit ▸ List.mem_append_right _ List.mem_cons_self
      have hnext := hlogged.datagram d (hwave d hd)
      rw [List.length_mapIdx] at hnext
      change ∃ times, Sniffer.Logged (Sniffer.receive _ d.event) times
        ((datagrams arrivals ++ [d]).mapIdx _)
      rw [List.mapIdx_concat]
      exact ⟨_, hnext⟩

/-! ## The three programs together -/

section

variable {stale : ℕ → Vector UInt8 20} {refused : UInt16 → Bool}
  {log : List (Fin threadCount × BurstMessage)} {s' : Fin threadCount → BurstThread}

theorem isOfWave_of_sent (h : Interleaved (BurstThread.next refused) (burstThreads stale) log s')
    {m : BurstMessage} (hm : m ∈ log.map Prod.snd) :
    m.IsOfWave ∧ Unobstructed refused m.port := by
  obtain ⟨⟨i, m⟩, hmem, rfl⟩ := List.mem_map.mp hm
  have hproj := h.proj_append_future (BurstThread.future refused)
    (fun _ _ _ hnext ↦ BurstThread.future_eq hnext) i
  have hfuture : m ∈ (burstThreads stale i).future refused := by
    rw [← hproj]
    exact List.mem_append_left _ (mem_proj.mpr hmem)
  have hclear := (mem_map_port_future.mp (List.mem_map_of_mem hfuture)).2
  refine ⟨?_, hclear⟩
  rw [burstThreads, BurstThread.future] at hfuture
  have hqueue := (List.takeWhile_sublist _).subset hfuture
  obtain ⟨j, hj, rfl⟩ := List.mem_map.mp hqueue
  refine ⟨stale, i * portsPerThread + j, ?_, rfl⟩
  have hi : (i : ℕ) < 128 := i.isLt
  have hj : j < 512 := List.mem_range.mp hj
  simp only [portsPerThread]
  omega

theorem loadPacketData_arrivals
    (hrun : Interleaved (BurstThread.next refused) (burstThreads stale) log s')
    (buf : ℕ → UInt8) {arrivals : List Arrival}
    (hsent : ∀ d ∈ datagrams arrivals, d.message ∈ log.map Prod.snd) :
    loadPacketData (some
        ((arrivals.map Arrival.event).foldl Sniffer.receive (Sniffer.start buf)).logFile.flatten)
      = (datagrams arrivals).mapIdx fun index d ↦ d.record index := by
  obtain ⟨times, hlogged⟩ := Sniffer.logged_arrivals buf fun d hd ↦
    (isOfWave_of_sent hrun (hsent d hd)).1
  exact hlogged.loadPacketData

theorem map_port_records (ds : List BurstDatagram) :
    (ds.mapIdx fun index d ↦ d.record index).map PacketInfo.port
      = (ds.map BurstDatagram.message).map BurstMessage.port := by
  rw [List.map_map]
  refine List.ext_getElem? fun i ↦ ?_
  rw [List.getElem?_map, List.getElem?_mapIdx, List.getElem?_map, Option.map_map]
  rfl

/-- **What is read of a complete wave**: the ports nothing stands in front of, once each. -/
theorem count_port_of_complete
    (hrun : Interleaved (BurstThread.next refused) (burstThreads stale) log s')
    (hjoined : Joined (BurstThread.next refused) s') (buf : ℕ → UInt8) {arrivals : List Arrival}
    (hperm : ((datagrams arrivals).map BurstDatagram.message).Perm (log.map Prod.snd))
    (port : UInt16) :
    let count := ((loadPacketData (some ((arrivals.map Arrival.event).foldl Sniffer.receive
      (Sniffer.start buf)).logFile.flatten)).map PacketInfo.port).count port
    (count = 1 ∧ Unobstructed refused port) ∨ (count = 0 ∧ ¬Unobstructed refused port) := by
  have hsent : ∀ d ∈ datagrams arrivals, d.message ∈ log.map Prod.snd := fun d hd ↦
    hperm.subset (List.mem_map_of_mem hd)
  simp only [loadPacketData_arrivals hrun buf hsent, map_port_records]
  rw [(hperm.map BurstMessage.port).count_eq, List.map_map]
  exact count_port_of_joined hrun hjoined port

end

/-- **The measurement, end to end.** The threads of a wave, all created and with a socket, run in
any order, up to any point; of what they have sent, anything arrives in any order and any number of
times, under any headers and between any frames that are no UDP packets. Then the records that
`load_packet_data` reads from the log of `sniff_listener` are the datagrams that arrived, in that
order: each with the port it was sent to, the time of its arrival and its place. Every port that is
read has been sent to by the wave, and if all threads have been joined and everything sent has
arrived once, then each port nothing stands in front of is read once and no other port is. -/
theorem wave_read_as_sent (stale : ℕ → Vector UInt8 20) (refused : UInt16 → Bool)
    {log : List (Fin threadCount × BurstMessage)} {s' : Fin threadCount → BurstThread}
    (hrun : Interleaved (BurstThread.next refused) (burstThreads stale) log s')
    (buf : ℕ → UInt8) (arrivals : List Arrival)
    (hsent : ∀ d ∈ datagrams arrivals, d.message ∈ log.map Prod.snd) :
    let records := loadPacketData (some
      ((arrivals.map Arrival.event).foldl Sniffer.receive (Sniffer.start buf)).logFile.flatten)
    records = ((datagrams arrivals).mapIdx fun index d ↦
        ⟨d.message.port, d.timeUs, UInt32.ofNat index⟩) ∧
      (∀ p ∈ records, Unobstructed refused p.port) ∧
      (Joined (BurstThread.next refused) s' →
        ((datagrams arrivals).map BurstDatagram.message).Perm (log.map Prod.snd) →
        ∀ port, ((records.map PacketInfo.port).count port = 1 ∧ Unobstructed refused port) ∨
          ((records.map PacketInfo.port).count port = 0 ∧ ¬Unobstructed refused port)) := by
  intro records
  have hrecords : records = (datagrams arrivals).mapIdx fun index d ↦ d.record index :=
    loadPacketData_arrivals hrun buf hsent
  refine ⟨hrecords, fun p hp ↦ ?_, fun hjoined hperm port ↦
    count_port_of_complete hrun hjoined buf hperm port⟩
  have hport : p.port ∈ records.map PacketInfo.port := List.mem_map_of_mem hp
  rw [hrecords, map_port_records, List.mem_map] at hport
  obtain ⟨m, hm, heq⟩ := hport
  obtain ⟨d, hd, rfl⟩ := List.mem_map.mp hm
  rw [← heq]
  exact (isOfWave_of_sent hrun (hsent d hd)).2

/-- A message behind the headers of `portFrame`. -/
def plainDatagram (m : BurstMessage) : BurstDatagram where
  macs := Vector.replicate 12 0xAA
  ip := ipWithOptions
  options := [1, 1, 1, 0]
  udp := ⟨htons 5000, m.sinPort, htons (8 + 20), 0⟩
  message := m
  trailer := []
  timeUs := 0
  isUdp := rfl
  five_le_ihl := by decide
  length_options := rfl
  length_udp := rfl

theorem exists_complete (refused : UInt16 → Bool) :
    ∃ log s', ∃ arrivals : List Arrival,
      Interleaved (BurstThread.next refused) (burstThreads fun _ ↦ Vector.replicate 20 0) log s' ∧
        Joined (BurstThread.next refused) s' ∧
        (datagrams arrivals).map BurstDatagram.message = log.map Prod.snd := by
  obtain ⟨log, s', hrun, hjoined⟩ := exists_joined (BurstThread.next refused)
    BurstThread.stepsLeft (fun _ _ _ hnext ↦ BurstThread.stepsLeft_lt hnext)
    (burstThreads fun _ ↦ Vector.replicate 20 0)
  refine ⟨log, s', log.map fun e ↦ Arrival.datagram (plainDatagram e.2), hrun, hjoined, ?_⟩
  have hdatagrams : datagrams (log.map fun e ↦ Arrival.datagram (plainDatagram e.2))
      = log.map fun e ↦ plainDatagram e.2 := by
    rw [datagrams, List.filterMap_map]
    exact congrFun List.filterMap_eq_map' log
  rw [hdatagrams, List.map_map]
  rfl

/-- If no port is refused, some wave is read back with every port once. -/
theorem wave_read_as_sent_all : ∃ arrivals : List Arrival, ∀ port,
    ((loadPacketData (some ((arrivals.map Arrival.event).foldl Sniffer.receive
      (Sniffer.start fun _ ↦ 0)).logFile.flatten)).map PacketInfo.port).count port = 1 := by
  obtain ⟨log, s', arrivals, hrun, hjoined, hmessages⟩ := exists_complete fun _ ↦ false
  have hread := wave_read_as_sent (fun _ ↦ Vector.replicate 20 0) (fun _ ↦ false) hrun (fun _ ↦ 0)
    arrivals fun d hd ↦ hmessages ▸ List.mem_map_of_mem hd
  refine ⟨arrivals, fun port ↦ ?_⟩
  rcases hread.2.2 hjoined (hmessages ▸ List.Perm.refl _) port with ⟨hone, -⟩ | ⟨-, hnot⟩
  · exact hone
  · exact absurd (fun _ _ _ ↦ rfl) hnot

end NatGhost
