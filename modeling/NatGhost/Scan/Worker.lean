import NatGhost.Foundation.Loop
import NatGhost.Packet.Ethernet

/-!
# The port loop of a worker

`run_worker` opens a raw socket and sends one packet for each port of its range. The loop counter is
a sixteen-bit number, like the end of the range, and the loop runs while it is less than or equal to
the end. If the end is 65535, the largest number of the type, the comparison is never false: behind
65535 the counter starts at 0 again, and the worker sends to all ports over and over. The last
worker of `run_master` gets such a range.

What the C library and the allocator do may change from one packet to the next, so the library is a
function of the number of packets forged so far.
-/

namespace NatGhost

/-! ## The worker -/

/-- A call of `sendto`: the packet, and port and address of `dest_addr`. -/
structure Send where
  packet : List UInt8
  sinPort : UInt16
  sAddr : UInt32

def Send.destPort (send : Send) : UInt16 :=
  ntohs (UdpHeader.read (overlay 0 send.packet fun _ ↦ 0) 20).dstPort

/-- The local state of `run_worker` in its loop: the counter, how many packets have been forged, and
what has been sent. -/
structure Worker where
  port : UInt16
  forged : ℕ
  sends : List Send

section

variable (libc : ℕ → Libc) (sourceIp destIp : String)

/-- The body of the loop, with the increment behind it. -/
def Worker.body (w : Worker) : Worker :=
  if w.port = 0 then { w with port := w.port + 1 }
  else
    match Forge.forgeUdpPacket (libc w.forged) (some sourceIp) (some destIp) w.port w.port
        (some defaultPayload) with
    | some packet =>
      let iph := IpHeader.read (overlay 0 packet fun _ ↦ 0) 0
      let sends :=
        if packet.length > 0 then w.sends
          ++ [{ packet := packet, sinPort := 0, sAddr := iph.dstIp }]
        else w.sends
      { port := w.port + 1, forged := w.forged + 1, sends := sends }
    | none => { w with port := w.port + 1, forged := w.forged + 1 }

/-- The loop of `run_worker`, `none` if it has not ended within `fuel` rounds. -/
def portLoop (startPort endPort : UInt16) (fuel : ℕ) : Option (List Send) :=
  (whileLoop (fun w : Worker ↦ decide (w.port ≤ endPort)) (Worker.body libc sourceIp destIp) fuel
    ⟨startPort, 0, []⟩).map Worker.sends

/-- `run_worker`, given whether `socket` and `setsockopt` succeed. -/
def runWorker (socket setsockopt : Bool) (startPort endPort : UInt16) (fuel : ℕ) :
    Option (List Send) :=
  if socket && setsockopt then portLoop libc sourceIp destIp startPort endPort fuel else some []

/-! ## One round -/

theorem Worker.body_of_ne_zero {w : Worker} (h : w.port ≠ 0) :
    ∃ send : Send, send.destPort = w.port ∧
      Worker.body libc sourceIp destIp w = ⟨w.port + 1, w.forged + 1, w.sends ++ [send]⟩ := by
  obtain ⟨packet, hpacket, hport, hlength⟩ := Forge.destPort_forgeUdpPacket (libc w.forged) sourceIp
    destIp w.port w.port defaultPayload
  refine ⟨⟨packet, 0, (IpHeader.read (overlay 0 packet fun _ ↦ 0) 0).dstIp⟩, hport, ?_⟩
  rw [Worker.body, if_neg h, hpacket]
  simp only [if_pos hlength]

theorem Worker.body_of_eq_zero {w : Worker} (h : w.port = 0) :
    Worker.body libc sourceIp destIp w = { w with port := w.port + 1 } := if_pos h

end

/-- The ports a range stands for, in increasing order. -/
def rangePorts (startPort endPort : UInt16) : List ℕ :=
  List.range' (max 1 startPort.toNat) (endPort.toNat + 1 - max 1 startPort.toNat)

/-! ## The loop -/

/-- What the loop keeps: everything from the start of the range up to the counter has been sent. -/
structure Worker.Sent (startPort endPort : UInt16) (w : Worker) : Prop where
  ports : w.sends.map (fun send ↦ send.destPort.toNat)
    = List.range' (max 1 startPort.toNat) (w.port.toNat - max 1 startPort.toNat)
  start_le : startPort.toNat ≤ w.port.toNat
  le_end : w.port.toNat ≤ max startPort.toNat (endPort.toNat + 1)

section

variable (libc : ℕ → Libc) (sourceIp destIp : String) {startPort endPort : UInt16}

theorem toNat_succ_of_le {port : UInt16} (hend : endPort ≠ 65535) (h : port ≤ endPort) :
    (port + 1).toNat = port.toNat + 1 := by
  have hle : port.toNat ≤ endPort.toNat := UInt16.le_iff_toNat_le.mp h
  have hne : endPort.toNat ≠ 65535 := fun heq ↦ hend (UInt16.toNat_inj.mp heq)
  have hlt := endPort.toNat_lt
  rw [UInt16.toNat_add]
  exact Nat.mod_eq_of_lt (show port.toNat + 1 < 65536 by omega)

theorem Worker.Sent.step {w : Worker} (hw : w.Sent startPort endPort) (hend : endPort ≠ 65535)
    (h : w.port ≤ endPort) : (Worker.body libc sourceIp destIp w).Sent startPort endPort ∧
      (Worker.body libc sourceIp destIp w).port = w.port + 1 := by
  have hsucc := toNat_succ_of_le hend h
  have hle : w.port.toNat ≤ endPort.toNat := UInt16.le_iff_toNat_le.mp h
  have hstart := hw.start_le
  -- port 0 is skipped
  rcases eq_or_ne w.port 0 with hzero | hne
  · rw [Worker.body_of_eq_zero libc sourceIp destIp hzero]
    have hport : w.port.toNat = 0 := congrArg UInt16.toNat hzero
    refine ⟨⟨?_, ?_, ?_⟩, rfl⟩
    · rw [hw.ports, hsucc]
      congr 1
      omega
    · rw [hsucc]
      omega
    · rw [hsucc]
      omega
  · obtain ⟨send, hsend, hbody⟩ := Worker.body_of_ne_zero libc sourceIp destIp hne
    have hpos : w.port.toNat ≠ 0 := fun heq ↦ hne (UInt16.toNat_inj.mp heq)
    rw [hbody]
    refine ⟨⟨?_, ?_, ?_⟩, rfl⟩
    · have hcount : (w.port + 1).toNat - max 1 startPort.toNat
          = w.port.toNat - max 1 startPort.toNat + 1 := by omega
      rw [List.map_append, hw.ports, List.map_singleton, hsend, hcount, List.range'_1_concat]
      congr 2
      omega
    · rw [hsucc]
      omega
    · rw [hsucc]
      omega

theorem portLoop_of_ne (startPort : UInt16) (hend : endPort ≠ 65535) :
    ∃ fuel sends, portLoop libc sourceIp destIp startPort endPort fuel = some sends ∧
      sends.map (fun send ↦ send.destPort.toNat) = rangePorts startPort endPort := by
  have hinit : Worker.Sent startPort endPort ⟨startPort, 0, []⟩ := by
    refine ⟨?_, Nat.le_refl _, Nat.le_max_left _ _⟩
    rw [Nat.sub_eq_zero_of_le (Nat.le_max_right _ _)]
    rfl
  obtain ⟨w, ⟨fuel, hfuel⟩, hw, hcond⟩ := returns_of_variant
    (fun w : Worker ↦ decide (w.port ≤ endPort)) (Worker.body libc sourceIp destIp)
    (Worker.Sent startPort endPort) (fun w ↦ endPort.toNat + 1 - w.port.toNat) hinit
    fun w hw h ↦ by
      have hle := of_decide_eq_true h
      obtain ⟨hstep, hport⟩ := hw.step libc sourceIp destIp hend hle
      have hle' : w.port.toNat ≤ endPort.toNat := UInt16.le_iff_toNat_le.mp hle
      refine ⟨hstep, ?_⟩
      rw [hport, toNat_succ_of_le hend hle]
      omega
  refine ⟨fuel, w.sends, ?_, ?_⟩
  · rw [portLoop, hfuel, Option.map_some]
  · have hgt : ¬w.port.toNat ≤ endPort.toNat := fun hle ↦
      of_decide_eq_false hcond (UInt16.le_iff_toNat_le.mpr hle)
    have hle := hw.le_end
    have hstart := hw.start_le
    rw [hw.ports, rangePorts]
    congr 1
    omega

theorem runWorker_of_ne (socket setsockopt : Bool) (startPort : UInt16) (hend : endPort ≠ 65535) :
    ∃ fuel sends, runWorker libc sourceIp destIp socket setsockopt startPort endPort fuel
        = some sends ∧
      sends.map (fun send ↦ send.destPort.toNat)
        = if socket && setsockopt then rangePorts startPort endPort else [] := by
  obtain ⟨fuel, sends, hloop, hports⟩ := portLoop_of_ne libc sourceIp destIp startPort hend
  cases hopen : socket && setsockopt with
  | true =>
    exact ⟨fuel, sends, by rw [runWorker, hopen, if_pos rfl, hloop], by rw [if_pos rfl, hports]⟩
  | false => exact ⟨0, [], by rw [runWorker, hopen]; rfl, rfl⟩

theorem portLoop_eq_none (startPort : UInt16) (fuel : ℕ) :
    portLoop libc sourceIp destIp startPort 65535 fuel = none := by
  rw [portLoop, Option.map_eq_none_iff]
  cases h : whileLoop (fun w : Worker ↦ decide (w.port ≤ 65535)) (Worker.body libc sourceIp destIp)
      fuel ⟨startPort, 0, []⟩ with
  | none => rfl
  | some w =>
    refine absurd ⟨fuel, h⟩ (not_returns (fun _ ↦ True) trivial (fun w _ ↦ ?_) fun _ _ ↦ trivial)
    exact decide_eq_true (UInt16.le_iff_toNat_le.mpr (Nat.le_of_lt_succ w.port.toNat_lt))

end

/-- **When a worker sends its range.** The loop ends, having sent to each port of the range once, in
increasing order and without port 0, unless the range ends at 65535; then it does not end. -/
theorem portLoop_sends_range_iff (libc : ℕ → Libc) (sourceIp destIp : String)
    (startPort endPort : UInt16) :
    (∃ fuel sends, portLoop libc sourceIp destIp startPort endPort fuel = some sends ∧
      sends.map (fun send ↦ send.destPort.toNat) = rangePorts startPort endPort) ↔
      endPort ≠ 65535 := by
  constructor
  · rintro ⟨fuel, sends, h, -⟩ rfl
    rw [portLoop_eq_none] at h
    exact absurd h nofun
  · intro hend
    exact portLoop_of_ne libc sourceIp destIp startPort hend

/-- **The last worker does not end.** Its range is 61426 to 65535. -/
theorem lastWorker_never_returns :
    ¬∃ fuel sends, portLoop (fun _ ↦ smallLibc) "192.168.1.15" "192.168.1.254" 61426 65535 fuel
        = some sends ∧
      sends.map (fun send ↦ send.destPort.toNat) = rangePorts 61426 65535 := by
  rintro ⟨fuel, sends, h, -⟩
  rw [portLoop_eq_none] at h
  exact absurd h nofun

end NatGhost
