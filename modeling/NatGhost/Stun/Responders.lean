import NatGhost.Stun.FirstReply

/-!
# Servers that follow the standard

The discovery program is one side of a protocol. Here is the other side: a server answers a request
with the cookie and the id of the request and with the address it has seen the request come from, in
an XOR-MAPPED-ADDRESS attribute. Attributes the program does not know may stand before and behind
it, and requests and responses may be lost, repeated and overtake each other on the way. A response
can be longer than the 512 bytes of a receive buffer; here those that arrive are not
(`ResponsesFit`).

The program works if nothing else that arrives bears the id of a request: `responders_published`.
Behind a NAT that maps all requests alike, the reader then gets the public address, and otherwise
the one that a fastest server has seen.
-/

namespace NatGhost

variable {n : ℕ}

/-- A response to the request `pkt` from `seen`. -/
structure Response (pkt : List UInt8) (seen : Endpoint) where
  header : Vector UInt8 20
  before : List Attribute
  mapped : Attribute
  after : List Attribute
  reserved : UInt8
  extra : List UInt8
  /-- Cookie and transaction id are those of the request. -/
  echo : header.toList.drop 4 = pkt.drop 4
  before_not : ∀ a ∈ before, ¬a.IsXorMapped
  type_eq : mapped.type = 0x0020
  value_eq : mapped.value = Attribute.xorMappedValue reserved seen.ip seen.port extra

namespace Response

variable {pkt : List UInt8} {seen : Endpoint} (r : Response pkt seen)

def bytes : Datagram := datagram r.header (r.before ++ r.mapped :: r.after)

theorem bears {transactionId : Vector UInt8 12} (hpkt : pkt.drop 8 = transactionId.toList) :
    Bears r.bytes transactionId := by
  have hheader : r.header.toList.drop 8 = transactionId.toList := by
    have hecho := congrArg (List.drop 4) r.echo
    rwa [List.drop_drop, List.drop_drop, hpkt] at hecho
  refine ⟨?_, ?_⟩
  · rw [bytes, length_datagram, stunPktLen]
    exact Nat.le_add_right ..
  · rw [bytes, datagram, List.drop_append_of_le_length (by simp), hheader,
      List.take_left' transactionId.length_toList]

theorem receivedWhole (hfits : r.bytes.length ≤ bufSize) : ReceivedWhole r.bytes :=
  (attributesInside_datagram _ _).receivedWhole hfits

theorem decode_bytes (hfits : r.bytes.length ≤ bufSize) (out : MappedOut) :
    decode r.bytes out = (0, seen.out) := by
  have hall : received r.bytes = r.bytes := List.take_of_length_le hfits
  rw [decode, buffered, msgLen, hall, bytes, run_parse_datagram,
    firstAddress_append_cons r.before_not (Attribute.isXorMapped_of_value r.type_eq r.value_eq),
    Attribute.address_of_value r.value_eq]
  rfl

end Response

namespace Session

variable (S : Session n)

def requests : List Sent :=
  (burstSendAll (List.finRange n) S.first.transactionIds S.first.sendTimes
    (loadStunServers S.servers)).2

/-- The datagram is a response to the request to server `k`. -/
def IsResponse (seen : Endpoint) (k : Fin n) (d : Datagram) : Prop :=
  ∃ sent, S.requests[(k : ℕ)]? = some sent ∧ ∃ r : Response sent.pkt seen, d = r.bytes

/-- The servers follow the standard, server `k` sees `seen k`, and nobody else uses the ids: what
arrives in the first burst is a response or does not bear an id of a request. -/
def OnlyResponses (seen : Fin n → Endpoint) : Prop :=
  ∀ d ∈ S.first.delivered,
    (∃ k, S.IsResponse (seen k) k d) ∨ ∀ k, ¬Bears d (S.first.transactionIds k)

/-- The responses that arrive fit into a receive buffer of the program. -/
def ResponsesFit (seen : Fin n → Endpoint) : Prop :=
  ∀ d ∈ S.first.delivered, ∀ k, S.IsResponse (seen k) k d → d.length ≤ bufSize

/-- A response of server `k` arrives in the first burst. -/
def Responded (seen : Fin n → Endpoint) (k : Fin n) : Prop :=
  ∃ d ∈ S.first.delivered, S.IsResponse (seen k) k d

variable {S} {seen : Fin n → Endpoint} {k : Fin n} {d : Datagram}

theorem drop_pkt {sent : Sent} (h : S.requests[(k : ℕ)]? = some sent) :
    sent.pkt.drop 8 = (S.first.transactionIds k).toList := by
  rw [requests, burstSendAll_sent, List.getElem?_map, List.getElem?_eq_getElem (by simp),
    Option.map_some, List.getElem_finRange, Option.some.injEq] at h
  rw [← h]
  rfl

theorem IsResponse.bears (h : S.IsResponse (seen k) k d) :
    Bears d (S.first.transactionIds k) := by
  obtain ⟨sent, hsent, r, rfl⟩ := h
  exact r.bears (drop_pkt hsent)

theorem IsResponse.receivedWhole (h : S.IsResponse (seen k) k d) (hfits : d.length ≤ bufSize) :
    ReceivedWhole d := by
  obtain ⟨sent, -, r, rfl⟩ := h
  exact r.receivedWhole hfits

theorem IsResponse.decode (h : S.IsResponse (seen k) k d) (hfits : d.length ≤ bufSize)
    (out : MappedOut) : decode d out = (0, (seen k).out) := by
  obtain ⟨sent, -, r, rfl⟩ := h
  exact r.decode_bytes hfits out

variable (hids : Function.Injective S.first.transactionIds) (honly : S.OnlyResponses seen)

include hids honly

theorem OnlyResponses.isResponse (hd : d ∈ S.first.delivered)
    (hbears : Bears d (S.first.transactionIds k)) : S.IsResponse (seen k) k d := by
  rcases honly d hd with ⟨j, hj⟩ | hnone
  · have htid : S.first.transactionIds j = S.first.transactionIds k :=
      Vector.toList_inj.mp (hj.bears.2.symm.trans hbears.2)
    exact hids htid ▸ hj
  · exact absurd hbears (hnone k)

variable (hfit : S.ResponsesFit seen)

include hfit

/-- **What is measured**: the address a server has seen, if its response arrives. -/
theorem OnlyResponses.measured_cases (k : Fin n) :
    (S.Responded seen k ∧ ∃ ms, 0 ≤ ms ∧ S.measured k = (S.sent k).replied ms (seen k).out) ∨
      ¬S.Responded seen k ∧ S.measured k = S.sent k := by
  rw [measured]
  rcases S.first.firstReply_cases k with ⟨hreply, hdatagram⟩ | ⟨v, d, hreply, hdatagram, hof⟩
  · rw [hreply]
    refine Or.inr ⟨?_, rfl⟩
    rintro ⟨d, hd, hresponse⟩
    have hnot := List.find?_eq_none.mp hdatagram d hd
    exact hnot (decide_eq_true hresponse.bears)
  · have hd : d ∈ S.first.delivered := List.mem_of_find?_eq_some hdatagram
    have hbears : Bears d (S.first.transactionIds k) := by
      have hfound := List.find?_some hdatagram
      exact of_decide_eq_true hfound
    have hresponse := honly.isResponse hids hd hbears
    have hread : S.first.sendTimes k ≤ v.now :=
      S.repliesAfter k (List.mem_finRange k) v (List.mem_of_find?_eq_some hreply)
    rw [hreply]
    refine Or.inl ⟨⟨d, hd, hresponse⟩, _, Timespec.elapsedMs_nonneg hread, ?_⟩
    simp only
    have hfits := hfit d hd k hresponse
    rw [hof.parse (hresponse.receivedWhole hfits), hresponse.decode hfits]

theorem OnlyResponses.retryTargets_eq_nil : retryTargets S.measured = [] := by
  refine List.eq_nil_iff_forall_not_mem.mpr fun k hk ↦ ?_
  obtain ⟨hnonneg, hinvalid⟩ := mem_retryTargets.mp hk
  rcases honly.measured_cases hids hfit k with ⟨-, ms, -, hmeasured⟩ | ⟨-, hmeasured⟩
  · refine hinvalid ?_
    rw [isValidStun, hmeasured]
    exact ⟨dottedQuad_ne_empty _ _ _ _, (seen k).port_ne⟩
  · have hsentinel : (S.sent k).rttMs = -1 := rfl
    rw [hmeasured, hsentinel] at hnonneg
    exact absurd hnonneg (by decide)

theorem OnlyResponses.final_eq : S.final = S.measured := by
  funext k
  rw [S.final_apply hids, honly.retryTargets_eq_nil hids hfit, if_neg List.not_mem_nil]

theorem OnlyResponses.isValidStun_iff (k : Fin n) :
    isValidStun S.final k ↔ S.Responded seen k := by
  rw [honly.final_eq hids hfit, isValidStun]
  rcases honly.measured_cases hids hfit k with ⟨hresponded, ms, -, hmeasured⟩ | ⟨hnot, hmeasured⟩
  · rw [hmeasured]
    exact iff_of_true ⟨dottedQuad_ne_empty _ _ _ _, (seen k).port_ne⟩ hresponded
  · rw [hmeasured]
    exact iff_of_false (fun h ↦ h.1 rfl) hnot

end Session

/-- **The discovery among servers that follow the standard** and whose responses have at most 512
bytes. Each server whose response arrives in the first burst ends with the address it has seen and a
round-trip time, every other server as its request left it, and no second request is sent. If no
response arrives the segment is left alone; otherwise `read_ip_port` returns, whatever was in the
segment before, the address that a server has seen whose response was measured fastest. -/
theorem responders_published (R : Run n) (seen : Fin n → Endpoint)
    (hids : Function.Injective R.first.transactionIds) (honly : R.OnlyResponses seen)
    (hfit : R.ResponsesFit seen) (segment : Segment) :
    (∀ k, (R.Responded seen k → (R.final k).mapped = (seen k).out ∧ 0 ≤ (R.final k).rttMs) ∧
        (¬R.Responded seen k → R.final k = R.sent k)) ∧
      retryTargets (burst (List.finRange n) R.first (loadStunServers R.servers)) = [] ∧
      ((∀ k, ¬R.Responded seen k) → R.publish segment = segment) ∧
      ((∃ k, R.Responded seen k) → ∃ k, R.Responded seen k ∧
        (∀ j, R.Responded seen j → (R.final k).rttMs ≤ (R.final j).rttMs) ∧
        readIpPort (R.publish segment) = .ok ((seen k).text, ((seen k).port.toNat : ℤ))) := by
  have hfinal := honly.final_eq hids hfit
  have hanswered (k : Fin n) (hk : R.Responded seen k) :
      (R.final k).mapped = (seen k).out ∧ 0 ≤ (R.final k).rttMs := by
    rcases honly.measured_cases hids hfit k with ⟨-, ms, hms, hmeasured⟩ | ⟨hnot, -⟩
    · rw [hfinal, hmeasured]
      exact ⟨rfl, hms⟩
    · exact absurd hk hnot
  have hretry :
      retryTargets (burst (List.finRange n) R.first (loadStunServers R.servers)) = [] := by
    rw [R.burst_first hids]
    exact honly.retryTargets_eq_nil hids hfit
  refine ⟨fun k ↦ ⟨hanswered k, fun hk ↦ ?_⟩, hretry, fun hnone ↦ ?_, fun hsome ↦ ?_⟩
  · rcases honly.measured_cases hids hfit k with ⟨hresponded, -⟩ | ⟨-, hmeasured⟩
    · exact absurd hresponded hk
    · rw [hfinal, hmeasured]
  · rcases R.publish_cases segment with ⟨-, hsame⟩ | ⟨k, hk, -⟩
    · exact hsame
    · exact absurd ((honly.isValidStun_iff hids hfit k).mp hk) (hnone k)
  · rcases R.publish_cases segment with ⟨hinvalid, -⟩ | ⟨k, hk, hfastest, hread⟩
    · obtain ⟨k, hk⟩ := hsome
      exact absurd ((honly.isValidStun_iff hids hfit k).mpr hk) (hinvalid k)
    · have hresponded := (honly.isValidStun_iff hids hfit k).mp hk
      refine ⟨k, hresponded, fun j hj ↦ hfastest j ((honly.isValidStun_iff hids hfit j).mpr hj), ?_⟩
      obtain ⟨hip, hport⟩ := (MappedOut.mk.injEq ..).mp (hanswered k hresponded).1
      rw [hread, hip, hport]

/-! ## A run with a response -/

/-- What the server of `answeredRun` sees. -/
def answeredEndpoint : Endpoint := ⟨.ofFn ![198, 51, 100, 7], 4660, by decide⟩

/-- The datagram of `answeredRun` is a response. -/
def answeredResponse : Response
    ([0x00, 0x01, 0x00, 0x00, 0x21, 0x12, 0xA4, 0x42] ++ List.replicate 12 9)
    answeredEndpoint where
  header := #v[0x01, 0x01, 0x00, 0x0C, 0x21, 0x12, 0xA4, 0x42, 9, 9, 9, 9, 9, 9, 9, 9, 9, 9, 9, 9]
  before := []
  mapped := ⟨0x0020, [0x00, 0x01, 0x33, 0x26, 0xE7, 0x21, 0xC0, 0x45], [], by decide, by decide⟩
  after := []
  reserved := 0
  extra := []
  echo := by decide
  before_not := by decide
  type_eq := rfl
  value_eq := by decide

/-- The address that the server of `answeredRun` has seen is read. -/
theorem responders_published_answeredRun :
    readIpPort (answeredRun.publish none) = .ok ("198.51.100.7", 4660) := by
  have hresponse : answeredRun.IsResponse answeredEndpoint 0 answeredResponse.bytes :=
    ⟨_, rfl, answeredResponse, rfl⟩
  have hdelivered : answeredRun.first.delivered = [answeredResponse.bytes] := by decide +kernel
  have honly : answeredRun.OnlyResponses fun _ ↦ answeredEndpoint := by
    intro d hd
    rw [hdelivered, List.mem_singleton] at hd
    exact Or.inl ⟨0, hd ▸ hresponse⟩
  have hfit : answeredRun.ResponsesFit fun _ ↦ answeredEndpoint := by
    intro d hd k _
    rw [hdelivered, List.mem_singleton] at hd
    exact hd ▸ show answeredResponse.bytes.length ≤ bufSize by decide
  obtain ⟨-, -, -, hpublished⟩ := responders_published answeredRun (fun _ ↦ answeredEndpoint)
    (Function.injective_of_subsingleton _) honly hfit none
  obtain ⟨k, -, -, hread⟩ := hpublished
    ⟨0, answeredResponse.bytes, hdelivered ▸ List.mem_singleton_self _, hresponse⟩
  exact hread

end NatGhost
