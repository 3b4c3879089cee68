import NatGhost.Stun.Discovery

/-!
# What a public address may come from

A STUN client takes an address only from a Binding Success Response to its request: type `0x0101`,
the magic cookie, the transaction id, and attributes inside the length the header announces. The
receive loop tests the transaction id and nothing else, and the parser takes the length of the
datagram for the length of the message.

`OnlyFromResponses` is the rule as a property of a whole run, over every event and the table it
meets. A run keeps it exactly when the untested part happens to be right at every message that is
matched to a waiting server and yields an address.
-/

namespace NatGhost

variable {n : ℕ}

namespace Delivery

variable (v : Delivery)

/-- Binding Success Response, with the magic cookie. -/
def HasSuccessHeader : Prop :=
  bytesAt v.bufs v.buf 2 = [0x01, 0x01] ∧ bytesAt v.bufs (v.buf + 4) 4 = [0x21, 0x12, 0xA4, 0x42]

def announcedEnd : ℕ :=
  v.buf + stunPktLen + (be16 (v.bufs (v.buf + 2)) (v.bufs (v.buf + 3))).toNat

/-- The attribute at `p` ends inside the announced length. -/
def InsideAnnounced (p : ℕ) : Prop := p + 4 + (alenAt v.bufs p).toNat ≤ v.announcedEnd

/-- The message is a Binding Success Response to the request with this id, and its attribute at `p`
is the one the parser uses. -/
def IsResponse (transactionId : Vector UInt8 12) (p : ℕ) : Prop :=
  v.HasSuccessHeader ∧ v.Carries transactionId ∧ UsesAttr v.bufs v.buf v.len p ∧
    v.InsideAnnounced p

end Delivery

/-- The event changes the public address of an entry only as the response to its outstanding request
does. -/
def FromResponse (x : StunList n × Event n) : Prop :=
  ∀ k, (Event.apply x.1 x.2 k).mapped ≠ (x.1 k).mapped →
    ∃ targets v p, x.2 = .reply targets v ∧ v.IsResponse (x.1 k).transactionId p ∧
      (Event.apply x.1 x.2 k).mapped = addressAt v.bufs p

/-- In a run, public addresses are set only from such responses. -/
def OnlyFromResponses (S : Session n) : Prop := ∀ x ∈ S.history, FromResponse x

/-- What the code leaves to the sender: a message that is matched to a waiting server and contains
an address to use is a Binding Success Response with the cookie, and the attribute is inside the
announced length. -/
def SenderSound (x : StunList n × Event n) : Prop :=
  ∀ targets v p, x.2 = .reply targets v → stunPktLen ≤ v.len →
    (∃ k, matchTarget x.1 v targets = some k) → UsesAttr v.bufs v.buf v.len p →
    v.HasSuccessHeader ∧ v.InsideAnnounced p

/-! ## When an address is set -/

theorem mapped_receiveMessage (targets : List (Fin n)) (stunList : StunList n) (v : Delivery)
    (k : Fin n) :
    (receiveMessage targets stunList v k).mapped
      = if stunPktLen ≤ v.len ∧ matchTarget stunList v targets = some k then
          (v.parse (stunList k).mapped).2
        else (stunList k).mapped := by
  rw [receiveMessage_apply]
  split_ifs <;> rfl

theorem mapped_request (stunList : StunList n) (j k : Fin n) (transactionId : Vector UInt8 12)
    (sendTime : Timespec) :
    (Event.apply stunList (.request j transactionId sendTime) k).mapped
      = (stunList k).mapped := by
  rw [Event.apply]
  by_cases hk : k = j
  · subst hk
    rw [Function.update_self]
    rfl
  · rw [Function.update_of_ne hk]

theorem exists_usesAttr_of_mapped_ne {x : StunList n × Event n} {k : Fin n}
    (h : (Event.apply x.1 x.2 k).mapped ≠ (x.1 k).mapped) :
    ∃ targets v p, x.2 = .reply targets v ∧ stunPktLen ≤ v.len ∧
      matchTarget x.1 v targets = some k ∧ UsesAttr v.bufs v.buf v.len p ∧
      (Event.apply x.1 x.2 k).mapped = addressAt v.bufs p := by
  obtain ⟨stunList, e⟩ := x
  cases e with
  | request j transactionId sendTime => exact absurd (mapped_request _ _ _ _ _) h
  | reply targets v =>
    change (receiveMessage targets stunList v k).mapped ≠ (stunList k).mapped at h
    rw [mapped_receiveMessage] at h
    split_ifs at h with hmatch
    · rcases v.parse_cases with ⟨p, hp, hparse⟩ | hparse
      · refine ⟨targets, v, p, rfl, hmatch.1, hmatch.2, hp, ?_⟩
        change (receiveMessage targets stunList v k).mapped = _
        rw [mapped_receiveMessage, if_pos hmatch, hparse]
      · exact absurd (by rw [hparse]) h
    · exact absurd rfl h

theorem mapped_ne_of_usesAttr {stunList : StunList n} (hinv : TableInv stunList)
    {targets : List (Fin n)} {v : Delivery} {k : Fin n} {p : ℕ} (hlen : stunPktLen ≤ v.len)
    (hmatch : matchTarget stunList v targets = some k) (hp : UsesAttr v.bufs v.buf v.len p) :
    (receiveMessage targets stunList v k).mapped ≠ (stunList k).mapped := by
  have hparse : v.parse (stunList k).mapped = (0, addressAt v.bufs p) := hp.run_parse
  rw [mapped_receiveMessage, if_pos ⟨hlen, hmatch⟩, hparse]
  intro heq
  have hempty := ((hinv k).waiting (matchTarget_some hmatch).2.1).1
  exact dottedQuad_ne_empty _ _ _ _ ((congrArg MappedOut.outIp heq).trans hempty)

/-! ## The exact condition -/

theorem fromResponse_iff {x : StunList n × Event n} (hinv : TableInv x.1) :
    FromResponse x ↔ SenderSound x := by
  constructor
  · rintro h targets v p hx hlen ⟨k, hmatch⟩ hp
    obtain ⟨stunList, e⟩ := x
    change e = .reply targets v at hx
    subst hx
    obtain ⟨targets', v', p', hreply, hresponse, -⟩ :=
      h k (mapped_ne_of_usesAttr hinv hlen hmatch hp)
    obtain ⟨rfl, rfl⟩ := Event.reply.inj hreply
    obtain ⟨hheader, -, hp', hinside⟩ := hresponse
    rw [hp.unique hp']
    exact ⟨hheader, hinside⟩
  · intro h k hne
    obtain ⟨targets, v, p, hx, hlen, hmatch, hp, haddress⟩ := exists_usesAttr_of_mapped_ne hne
    obtain ⟨hheader, hinside⟩ := h targets v p hx hlen ⟨k, hmatch⟩ hp
    exact ⟨targets, v, p, hx, ⟨hheader, (matchTarget_some hmatch).2.2, hp, hinside⟩, haddress⟩

/-- **When a run takes addresses only from responses to its requests**: exactly when at every event
the sender was sound where the receive loop does not look. -/
theorem onlyFromResponses_iff (S : Session n) :
    OnlyFromResponses S ↔ ∀ x ∈ S.history, SenderSound x :=
  forall₂_congr fun x hx ↦ fromResponse_iff (S.tableInv.1 x hx)

/-! ## A forged reply -/

/-- A datagram with the right transaction id, but of type `0x0000`, without cookie, and with an
announced length of zero. -/
def forgedReply : Datagram :=
  [0, 0, 0, 0, 0, 0, 0, 0, 9, 9, 9, 9, 9, 9, 9, 9, 9, 9, 9, 9,
    0x00, 0x20, 0x00, 0x08, 0x00, 0x01, 0x33, 0x26, 0xE7, 0x21, 0xC0, 0x45]

/-- A run with one server, in which that datagram arrives 5 ms after the request. -/
def forgedSession : Session 1 where
  servers := fun _ ↦ ⟨"stun.example", "192.0.2.1", ⟨3478, 0⟩⟩
  first :=
    { transactionIds := fun _ ↦ Vector.replicate 12 9
      sendTimes := fun _ ↦ .reading 10 0
      start := .reading 10 0
      wakeups := [{ msgs := [forgedReply], now := .reading 10 5000000
                    cur := .reading 10 100000000 }]
      stale := fun _ ↦ 0 }
  second :=
    { transactionIds := fun _ ↦ Vector.replicate 12 0
      sendTimes := fun _ ↦ .reading 11 0
      start := .reading 11 0
      wakeups := []
      stale := fun _ ↦ 0 }
  count_le := one_le_maxStun
  clock := by
    unfold ClockOrdered
    decide +kernel

private theorem one_lt_length_history : 1 < forgedSession.history.length := by decide +kernel

/-- The datagram is accepted, and the server ends with the address it contains. -/
theorem forgedReply_is_accepted :
    (forgedSession.final 0).mapped = ⟨"198.51.100.7", 4660⟩ ∧ ¬OnlyFromResponses forgedSession := by
  refine ⟨by decide +kernel, fun h ↦ ?_⟩
  have hmem := List.getElem_mem one_lt_length_history
  have hsound := (fromResponse_iff (forgedSession.tableInv.1 _ hmem)).mp (h _ hmem)
  have hheader := (hsound _ _ 20 rfl (by decide +kernel) ⟨0, by decide +kernel⟩
    ⟨.refl _, by decide +kernel, by decide +kernel⟩).1.1
  exact absurd hheader (by decide +kernel)

end NatGhost
