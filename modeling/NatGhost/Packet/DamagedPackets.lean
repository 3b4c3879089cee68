import NatGhost.Foundation.BurstErrors
import NatGhost.Packet.UdpPacket

/-!
# Forged packets that are damaged on the way

The checksums both programs compute let a receiver find out about damage. How much of it is the same
for every packet that verifies: a change of up to sixteen consecutive bits, at any place, is found
unless it inverts sixteen equal bits, and a new order of the words of the segment is never found
(`damageFound_of_verifies`). A UDP checksum of zero is taken for a checksum here; a receiver that
follows the standard does not check it at all.
-/

namespace NatGhost

/-- What a receiver finds out about damage to a packet from `src` to `dst`. -/
structure DamageFound (src dst packet : List UInt8) : Prop where
  /-- A burst in the IP header. -/
  header : ∀ (received : List UInt8) (a b : List ℕ),
    Burst16 (packet.take 20) (received.take 20) a b →
      (onesSum (beWords (received.take 20)) = 65535 ↔
        (a = b ∨ Flipped a b) ∧ ∃ byte ∈ received.take 20, byte ≠ 0)
  /-- A burst in the UDP header or the payload. -/
  segment : ∀ (received : List UInt8) (a b : List ℕ), received.take 20 = packet.take 20 →
    Burst16 (packet.drop 20) (received.drop 20) a b →
      (Verifies src dst received ↔ a = b ∨ Flipped a b)
  /-- The same words in another order. -/
  reordered : ∀ received : List UInt8, received.take 20 = packet.take 20 →
    received.length = packet.length →
      (beWords (received.drop 20)).Perm (beWords (packet.drop 20)) → Verifies src dst received

section

variable {src dst packet received : List UInt8}

theorem sum_beWords_pos_iff {bytes : List UInt8} :
    0 < (beWords bytes).sum ↔ ∃ b ∈ bytes, b ≠ 0 := by
  refine ⟨fun hpos ↦ ?_, fun ⟨b, hb, hne⟩ ↦ sum_beWords_pos hb hne⟩
  by_contra hnone
  have hzero : ∀ b ∈ bytes, b = 0 := fun b hb ↦ by_contra fun hne ↦ hnone ⟨b, hb, hne⟩
  have hleSum : leSum bytes = 0 := by
    clear hpos hnone
    induction bytes using beWords.induct with
    | case1 b₀ b₁ bytes ih =>
      obtain ⟨h₀, hrest⟩ := List.forall_mem_cons.mp hzero
      obtain ⟨h₁, hrest⟩ := List.forall_mem_cons.mp hrest
      rw [leSum_cons_cons, ih hrest, h₀, h₁]
      rfl
    | case2 b₀ =>
      rw [leSum_singleton, hzero b₀ (List.mem_singleton_self b₀)]
      rfl
    | case3 => rfl
  exact hpos.ne' (sum_beWords_eq_zero.mpr hleSum)

/-- The pseudo-header a receiver puts in front of the segment. -/
def pseudoBytes (src dst packet : List UInt8) : List UInt8 :=
  src ++ dst ++ [0, 17] ++ bytesBe16 (UInt16.ofNat (packet.length - 20))

theorem verifies_iff (h : Verifies src dst packet) (hheader : received.take 20 = packet.take 20)
    (hlength : received.length - 20 = packet.length - 20) : Verifies src dst received ↔
      onesSum (beWords (pseudoBytes src dst packet ++ received.drop 20)) = 65535 := by
  have hsame : pseudoBytes src dst received = pseudoBytes src dst packet := by
    rw [pseudoBytes, hlength, pseudoBytes]
  constructor
  · intro hverifies
    rw [← hsame]
    exact hverifies.segment
  · intro hsegment
    refine ⟨?_, hheader ▸ h.header, ?_⟩
    · have hslice (bytes : List UInt8) : (bytes.drop 12).take 8 = (bytes.take 20).drop 12 := by
        rw [List.drop_take]
      rw [hslice, hheader, ← hslice]
      exact h.addresses
    · rw [← hsame] at hsegment
      exact hsegment

/-- **What damage does to a packet that verifies.** -/
theorem damageFound_of_verifies (h : Verifies src dst packet) (hlong : 20 ≤ packet.length) :
    DamageFound src dst packet where
  header received a b hburst := by
    rw [hburst.onesSum_iff h.header, sum_beWords_pos_iff]
  segment received a b hheader hburst := by
    have hlength := hburst.length_bytes
    rw [List.length_drop, List.length_drop] at hlength
    have hseventeen : 0 < (beWords (pseudoBytes src dst packet ++ received.drop 20)).sum :=
      sum_beWords_pos_iff.mpr ⟨17, by simp [pseudoBytes], by decide⟩
    rw [verifies_iff h hheader hlength.symm,
      (hburst.append_left (pseudoBytes src dst packet)).onesSum_iff h.segment]
    exact and_iff_left hseventeen
  reordered received hheader hlength hperm := by
    rw [verifies_iff h hheader (by rw [hlength])]
    have hsegment : onesSum (beWords (pseudoBytes src dst packet ++ packet.drop 20)) = 65535 :=
      h.segment
    have heven : (pseudoBytes src dst packet).length % 2 = 0 := by
      rw [pseudoBytes, ← h.addresses]
      simp [bytesBe16]
      omega
    have hsum : (beWords (pseudoBytes src dst packet ++ received.drop 20)).sum
        = (beWords (pseudoBytes src dst packet ++ packet.drop 20)).sum := by
      rw [beWords_append heven, beWords_append heven, List.sum_append, List.sum_append,
        hperm.sum_eq]
    rw [onesSum_eq_iff fun _ ↦ lt_of_mem_beWords] at hsegment ⊢
    rwa [hsum]

end

/-- **What damage does to forged packets.** For all addresses, ports, identifications and payloads
that fit into a packet, if the second program gets the memory it sums in: a burst of up to sixteen
bits in the IP header or behind it makes the packet fail at the receiver, except for sixteen zeros
that have become ones or the other way round; a new order of the words behind the header does
not. -/
theorem forged_packets_damaged :
    (∀ (srcIp : UInt32) (srcPort : UInt16) (dstIp : UInt32) (dstPort : UInt16)
      (payload : List UInt8), 28 + payload.length ≤ 65535 →
        DamageFound (bytesBe32 srcIp) (bytesBe32 dstIp)
          (Kernel.forgeUdpPacket srcIp srcPort dstIp dstPort payload)) ∧
      ∀ (libc : Libc) (srcIp dstIp : String) (srcPort dstPort : UInt16) (data : List UInt8),
        28 + data.length ≤ 65535 → libc.malloc (20 + data.length) = true →
          ∃ packet, Forge.forgeUdpPacket libc (some srcIp) (some dstIp) srcPort dstPort (some data)
              = some packet ∧
            DamageFound (bytesLe32 (libc.inetAddr srcIp)) (bytesLe32 (libc.inetAddr dstIp))
              packet := by
  refine ⟨fun srcIp srcPort dstIp dstPort payload h ↦ ?_,
    fun libc srcIp dstIp srcPort dstPort data h hmalloc ↦ ?_⟩
  · refine damageFound_of_verifies (Kernel.verifies srcIp srcPort dstIp dstPort h) ?_
    rw [Kernel.forgeUdpPacket, List.length_append, IpHeader.length_bytes]
    exact Nat.le_add_right ..
  · obtain ⟨packet, hpacket, hverifies⟩ := Forge.verifies libc srcIp dstIp srcPort dstPort h hmalloc
    refine ⟨packet, hpacket, damageFound_of_verifies hverifies ?_⟩
    rw [← Option.some.inj hpacket, List.length_append, IpHeader.length_bytes]
    exact Nat.le_add_right ..

end NatGhost
