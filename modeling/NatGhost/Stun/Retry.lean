import NatGhost.Stun.Discovery

/-!
# The second burst

Servers that answered without a usable address are asked again. The retry set is chosen by
`rtt_ms >= 0`, the receive loop accepts a reply only for targets with `rtt_ms == -1`, and nothing
between the two resets `rtt_ms`. So the second burst sends its requests and then discards every
reply: no retried server ever becomes valid.

`RetryLaw` states what the second burst is for. It holds of a run only when nobody sends the reply
it is about.
-/

namespace NatGhost

open ReadTree

variable {n : ℕ}

/-- The received part of a datagram contains a complete IPv4 XOR-MAPPED-ADDRESS, the first usable
one, for this address. -/
def HasCompleteAddress (d : Datagram) (address : MappedOut) : Prop :=
  ∃ p, UsesAttr (buffered d) 0 (msgLen d) p ∧ p + 12 ≤ msgLen d ∧ addressAt (buffered d) p = address

/-- Server `k` is retried, and the second burst receives in time a reply to the new request that
gives a usable address. -/
def OwedAddress (stunList : StunList n) (second : BurstInput n) (k : Fin n)
    (address : MappedOut) : Prop :=
  k ∈ retryTargets stunList ∧ address.outPort ≠ 0 ∧
    ∃ d ∈ second.delivered, Bears d (second.transactionIds k) ∧ HasCompleteAddress d address

/-- What retrying is for: a server that is owed an address has it after the second burst. -/
def RetryLaw (stunList : StunList n) (second : BurstInput n) : Prop :=
  ∀ k address, OwedAddress stunList second k address →
    isValidStun (retry second stunList) k ∧ (retry second stunList k).mapped = address

/-! ## What the second burst does -/

theorem mem_retryTargets {stunList : StunList n} {k : Fin n} :
    k ∈ retryTargets stunList ↔ 0 ≤ (stunList k).rttMs ∧ ¬isValidStun stunList k := by
  rw [retryTargets, List.mem_filter, Bool.and_eq_true, decide_eq_true_iff, decide_eq_true_iff]
  exact and_iff_right (List.mem_finRange k)

theorem burstSendAll_frame (targets : List (Fin n)) (transactionIds : Fin n → Vector UInt8 12)
    (sendTimes : Fin n → Timespec) (stunList : StunList n) (k : Fin n) :
    ((burstSendAll targets transactionIds sendTimes stunList).1 k).rttMs = (stunList k).rttMs ∧
      ((burstSendAll targets transactionIds sendTimes stunList).1 k).mapped
        = (stunList k).mapped := by
  rw [burstSendAll_apply]
  split_ifs
  · exact ⟨rfl, rfl⟩
  · exact ⟨rfl, rfl⟩

/-- **The second burst changes no public address.** Its targets count as answered already. -/
theorem retry_mapped (second : BurstInput n) (stunList : StunList n) (k : Fin n) :
    (retry second stunList k).mapped = (stunList k).mapped := by
  rw [retry]
  split_ifs with hretry
  · obtain ⟨hrtt, hmapped⟩ := burstSendAll_frame (retryTargets stunList) second.transactionIds
      second.sendTimes stunList k
    rw [burst, burstReceive_of_not, hmapped]
    by_cases hk : k ∈ retryTargets stunList
    · refine Or.inr ?_
      have hnonneg := (mem_retryTargets.mp hk).1
      rw [StunCtx.Answered, hrtt]
      omega
    · exact Or.inl hk
  · rfl

theorem isValidStun_congr {stunList stunList' : StunList n} {k : Fin n}
    (h : (stunList' k).mapped = (stunList k).mapped) :
    isValidStun stunList' k ↔ isValidStun stunList k := by
  simp only [StunCtx.mapped, MappedOut.mk.injEq] at h
  rw [isValidStun, isValidStun, h.1, h.2]

theorem not_isValidStun_retry (second : BurstInput n) {stunList : StunList n} {k : Fin n}
    (hk : k ∈ retryTargets stunList) : ¬isValidStun (retry second stunList) k := by
  rw [isValidStun_congr (retry_mapped second stunList k)]
  exact (mem_retryTargets.mp hk).2

/-- **When retrying keeps its promise**: only if no retried server is owed anything. Every server
that is owed an address goes without. -/
theorem retryLaw_iff (stunList : StunList n) (second : BurstInput n) :
    (RetryLaw stunList second ↔ ∀ k address, ¬OwedAddress stunList second k address) ∧
      ∀ k address, OwedAddress stunList second k address →
        ¬isValidStun (retry second stunList) k :=
  ⟨⟨fun h k address howed ↦ not_isValidStun_retry second howed.1 (h k address howed).1,
      fun h k address howed ↦ absurd howed (h k address)⟩,
    fun _ _ howed ↦ not_isValidStun_retry second howed.1⟩

/-! ## A server that is asked twice -/

/-- A server that answered the first request after 5 ms with no address. -/
def answeredWithoutAddress : StunList 1 := fun _ ↦
  { host := "stun.example", ipStr := "192.0.2.1", port := 3478, addr := ⟨3478, 0⟩
    transactionId := Vector.replicate 12 0, sendTime := .reading 10 0
    rttMs := 5, publicIp := "", publicPort := 0 }

/-- A Binding Success Response with a complete XOR-MAPPED-ADDRESS for 198.51.100.7:4660. -/
def successResponse (transactionId : Vector UInt8 12) : Datagram :=
  [0x01, 0x01, 0x00, 0x0C, 0x21, 0x12, 0xA4, 0x42] ++ transactionId.toList
    ++ [0x00, 0x20, 0x00, 0x08, 0x00, 0x01, 0x33, 0x26, 0xE7, 0x21, 0xC0, 0x45]

/-- The second request, answered after 5 ms with that response; the loop then runs to its
deadline. -/
def answeredRetry : BurstInput 1 where
  transactionIds := fun _ ↦ Vector.replicate 12 7
  sendTimes := fun _ ↦ .reading 11 0
  start := .reading 11 0
  wakeups := [{ msgs := [successResponse (Vector.replicate 12 7)]
                now := .reading 11 5000000, cur := .reading 11 5000000 },
              .idle (.reading 11 100000000) (.reading 11 100000000)]
  stale := fun _ ↦ 0

/-- The server is owed an address and does not get it. -/
theorem answeredRetry_is_lost :
    OwedAddress answeredWithoutAddress answeredRetry 0 ⟨"198.51.100.7", 4660⟩ ∧
      ¬RetryLaw answeredWithoutAddress answeredRetry := by
  have howed : OwedAddress answeredWithoutAddress answeredRetry 0 ⟨"198.51.100.7", 4660⟩ := by
    refine ⟨by decide, by decide, successResponse (Vector.replicate 12 7), by decide, by decide,
      20, ⟨.refl _, by decide, by decide⟩, by decide, by decide⟩
  refine ⟨howed, fun hlaw ↦ ?_⟩
  exact not_isValidStun_retry answeredRetry howed.1 (hlaw 0 _ howed).1

end NatGhost
