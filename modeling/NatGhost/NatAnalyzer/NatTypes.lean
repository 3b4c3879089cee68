import NatGhost.NatAnalyzer.Verdict
import NatGhost.Stun.Responders

/-!
# What the verdict says about the NAT

The NAT analyzer asks its servers from one local port. A NAT shows each of them an endpoint, and a
server that follows the standard sends back the one it has seen. So there are two programs between
the NAT and the verdict, and the decoder of this one gets every port wrong.

The verdict is right all the same, as far as it goes: the wrong ports are equal exactly if the right
ones are, so it compares what the NAT has shown to the first two servers
(`natVerdict_of_responses`). It is about the mapping of the NAT only, and not about what it lets in.
A NAT with the same endpoint for all destinations is called a full cone, whether or not it is one;
one with an endpoint for each destination is called symmetric only if it has several public
addresses.
-/

namespace NatGhost

open ReadTree

/-! ## The code -/

/-- The `req` of `get_mapped_address`. -/
def natRequest (transactionId : Vector UInt8 12) : List UInt8 :=
  [0x00, 0x01, 0x00, 0x00] ++ bytesLe32 (htonl magicCookie) ++ transactionId.toList

/-! ## Answered queries -/

/-- A response to a request of `get_mapped_address` from a server that sees it come from `seen`, and
what is in the receive buffer before. -/
structure NatReply (seen : Endpoint) where
  transactionId : Vector UInt8 12
  response : Response (natRequest transactionId) seen
  stale : ℕ → UInt8

namespace NatReply

variable {seen : Endpoint} (r : NatReply seen)

def query : Query := .received (recvLen r.response.bytes) (recvBuf r.response.bytes r.stale)

def Fits : Prop := r.response.bytes.length ≤ 1024

def offset : ℕ := 20 + (r.response.before.flatMap Attribute.encode).length

/-- No pair of bytes `00 20` stands before the address attribute, behind the header. -/
def Leads : Prop :=
  ∀ j < r.offset, 20 ≤ j → ¬PairAt (fun i ↦ r.response.bytes.getD i 0) j

end NatReply

/-- The endpoint as the analyzer prints it. -/
def Endpoint.misread (e : Endpoint) : MappedOut := ⟨e.text, e.port ^^^ 0x3333⟩

namespace NatReply

variable {seen : Endpoint} {r : NatReply seen}

theorem recvBuf_eq (hfits : r.Fits) :
    recvBuf r.response.bytes r.stale = overlay 0 r.response.bytes r.stale := by
  rw [recvBuf, List.take_of_length_le hfits]

theorem recvLen_eq (hfits : r.Fits) : recvLen r.response.bytes = r.response.bytes.length := by
  rw [recvLen, List.take_of_length_le hfits]

theorem holds_mapped (hfits : r.Fits) :
    Holds (recvBuf r.response.bytes r.stale) r.offset r.response.mapped.encode := by
  have hattrs := (holds_append_iff.mp (holds_overlay 0 r.response.bytes r.stale)).2
  rw [Vector.length_toList, List.flatMap_append, List.flatMap_cons, holds_append_iff,
    holds_append_iff, Nat.zero_add] at hattrs
  rw [recvBuf_eq hfits]
  exact hattrs.2.1

theorem firstPair (hfits : r.Fits) (hleads : r.Leads) :
    FirstPair (recvBuf r.response.bytes r.stale) (recvLen r.response.bytes) r.offset := by
  have hmapped := Attribute.isXorMapped_of_value r.response.type_eq r.response.value_eq
  have hencode := r.response.mapped.length_encode
  have hvalue := hmapped.2.1
  have hlength : r.response.bytes.length = r.offset
      + (r.response.mapped.encode.length
        + (r.response.after.flatMap Attribute.encode).length) := by
    rw [Response.bytes, length_datagram, List.flatMap_append, List.flatMap_cons,
      List.length_append, List.length_append, offset, Nat.add_assoc]
  refine ⟨Nat.le_add_right _ _, ?_, pairAt_of_holds (holds_mapped hfits) r.response.type_eq,
    fun j hj hlt ↦ ?_⟩
  · rw [recvLen_eq hfits, hlength]
    omega
  · have hcells (i : ℕ) (hi : i < r.response.bytes.length) :
        recvBuf r.response.bytes r.stale i = r.response.bytes.getD i 0 := by
      rw [recvBuf_eq hfits]
      exact overlay_zero_eq_getD r.stale hi 0
    rw [PairAt, hcells j (by omega), hcells (j + 1) (by omega)]
    exact hleads j hlt hj

/-- **An answered query gets the address right and the port wrong.** -/
theorem mapping_query (hfits : r.Fits) (hleads : r.Leads) :
    r.query.mapping = some seen.misread := by
  have hmapped := Attribute.isXorMapped_of_value r.response.type_eq r.response.value_eq
  have haddress : r.response.mapped.address = seen.out :=
    Attribute.address_of_value r.response.value_eq
  obtain ⟨hip, hport⟩ := pairAddress_of_holds (holds_mapped hfits) hmapped.2.1
  rw [haddress] at hip hport
  have hout : pairAddress (recvBuf r.response.bytes r.stale) r.offset = seen.misread :=
    (MappedOut.mk.injEq ..).mpr ⟨hip, hport⟩
  rw [query, Query.mapping, (firstPair hfits hleads).run_decode, hout]
  rfl

end NatReply

/-! ## The verdict -/

theorem compareResults_ne_undetermined (a b : MappedAddr) : compareResults a b ≠ .undetermined := by
  rw [compareResults]
  split_ifs
  all_goals decide

theorem analyzeNatType_eq_undetermined_iff (queries : Fin 3 → Query)
    (results : Fin 3 → MappedAddr) :
    analyzeNatType queries results = .undetermined ↔ successes queries < 2 := by
  constructor
  · intro hnone
    by_contra hmany
    rw [analyzeNatType_eq (Nat.le_of_not_lt hmany)] at hnone
    exact compareResults_ne_undetermined _ _ hnone
  · intro hfew
    have hcode (i : Fin 3) : decide ((getMappedAddress (queries i) (results i)).1 = 0)
        = (queries i).mapping.isSome := by
      rw [getMappedAddress]
      cases (queries i).mapping with
      | none => rfl
      | some out => rfl
    rw [analyzeNatType]
    simp only [hcode]
    exact if_pos hfew

theorem two_le_successes {queries : Fin 3 → Query} {out out' : MappedOut}
    (h₀ : (queries 0).mapping = some out) (h₁ : (queries 1).mapping = some out') :
    2 ≤ successes queries := by
  have hcount : ∀ p : Fin 3 → Bool, p 0 = true → p 1 = true →
      2 ≤ (List.finRange 3).countP p := by decide
  refine hcount _ ?_ ?_
  · rw [h₀, Option.isSome_some]
  · rw [h₁, Option.isSome_some]

section

variable {out out' : MappedOut}

theorem classify_eq_fullCone_iff : classify out out' = .fullCone ↔ out = out' := by
  rw [classify]
  by_cases heq : out = out'
  · rw [if_pos heq]
    exact iff_of_true rfl heq
  · rw [if_neg heq]
    refine iff_of_false (fun h ↦ ?_) heq
    split_ifs at h

theorem classify_eq_symmetric_iff : classify out out' = .symmetric ↔ out.outIp ≠ out'.outIp := by
  rw [classify]
  by_cases hip : out.outIp = out'.outIp
  · refine iff_of_false (fun h ↦ ?_) fun hne ↦ hne hip
    rw [if_pos hip] at h
    split_ifs at h
  · rw [if_neg fun heq ↦ hip (congrArg MappedOut.outIp heq), if_neg hip]
    exact iff_of_true rfl hip

theorem classify_eq_restricted_iff :
    classify out out' = .restricted ↔ out.outIp = out'.outIp ∧ out.outPort ≠ out'.outPort := by
  rw [classify]
  by_cases heq : out = out'
  · rw [if_pos heq]
    exact iff_of_false (by decide) fun h ↦ h.2 (congrArg MappedOut.outPort heq)
  · rw [if_neg heq]
    by_cases hip : out.outIp = out'.outIp
    · rw [if_pos hip]
      exact iff_of_true rfl ⟨hip, fun hport ↦ heq ((MappedOut.mk.injEq ..).mpr ⟨hip, hport⟩)⟩
    · rw [if_neg hip]
      exact iff_of_false (by decide) fun h ↦ hip h.1

end

section

variable {a b : Endpoint}

theorem misread_inj : a.misread = b.misread ↔ a = b := by
  rw [Endpoint.misread, Endpoint.misread, MappedOut.mk.injEq, Endpoint.text_inj,
    UInt16.xor_left_inj, Endpoint.mk.injEq]

theorem misread_port_ne (e : Endpoint) : e.misread.outPort ≠ e.port := by
  intro h
  have hzero : e.port ^^^ 0x3333 = e.port ^^^ 0 := h.trans UInt16.xor_zero.symm
  exact absurd ((UInt16.xor_right_inj e.port).mp hzero) (by decide)

end

section

variable {δ : Type*} (nat : δ → Endpoint)

def EndpointIndependent : Prop := ∀ d d', nat d = nat d'

def MapsEachDestination : Prop := Function.Injective nat

def OneAddress : Prop := ∀ d d', (nat d).ip = (nat d').ip

end

/-- **The verdict on a NAT.** Let the queries go out through a NAT to servers of which some answer
by the standard and the others not at all, and let each response fit into the receive buffer and
have no pair of bytes `00 20` before its address attribute. The address printed for a server is the
one it has seen, the port is not. The type is undetermined if less than two have answered. If the
first two have, then whatever else has happened the NAT is called a full cone exactly if it has
shown them the same endpoint, restricted if it has shown them two ports of one address, and
symmetric if it has shown them two addresses; so a NAT with one endpoint for all destinations is a
full cone, and one with one address and an endpoint for each destination is restricted. -/
theorem natVerdict_of_responses {δ : Type*} (nat : δ → Endpoint) (servers : Fin 3 → δ)
    (replies : ∀ i, Option (NatReply (nat (servers i)))) (queries : Fin 3 → Query)
    (results : Fin 3 → MappedAddr)
    (hanswered : ∀ i, ∀ r ∈ replies i, queries i = r.query)
    (hsilent : ∀ i, replies i = none → (queries i).mapping = none)
    (hfits : ∀ i, ∀ r ∈ replies i, r.Fits) (hleads : ∀ i, ∀ r ∈ replies i, r.Leads) :
    (∀ i out, (queries i).mapping = some out →
        out.outIp = (nat (servers i)).text ∧ out.outPort ≠ (nat (servers i)).port) ∧
      (analyzeNatType queries results = .undetermined ↔
        (List.finRange 3).countP (fun i ↦ (replies i).isSome) < 2) ∧
      ((replies 0).isSome → (replies 1).isSome →
        (analyzeNatType queries results = .fullCone ↔ nat (servers 0) = nat (servers 1)) ∧
        (analyzeNatType queries results = .restricted ↔
          (nat (servers 0)).ip = (nat (servers 1)).ip ∧
            (nat (servers 0)).port ≠ (nat (servers 1)).port) ∧
        (analyzeNatType queries results = .symmetric ↔
          (nat (servers 0)).ip ≠ (nat (servers 1)).ip) ∧
        (EndpointIndependent nat → analyzeNatType queries results = .fullCone) ∧
        (MapsEachDestination nat → OneAddress nat → servers 0 ≠ servers 1 →
          analyzeNatType queries results = .restricted)) := by
  have hmapping (i : Fin 3) :
      (queries i).mapping = (replies i).map fun _ ↦ (nat (servers i)).misread := by
    cases hreply : replies i with
    | none => exact hsilent i hreply
    | some r =>
      rw [hanswered i r hreply, NatReply.mapping_query (hfits i r hreply) (hleads i r hreply)]
      rfl
  refine ⟨fun i out hout ↦ ?_, ?_, fun h₀ h₁ ↦ ?_⟩
  · rw [hmapping i] at hout
    obtain ⟨-, -, rfl⟩ := Option.map_eq_some_iff.mp hout
    exact ⟨rfl, misread_port_ne _⟩
  · rw [analyzeNatType_eq_undetermined_iff, successes]
    simp only [hmapping, Option.isSome_map]
  · have hmapped (i : Fin 3) (h : (replies i).isSome) :
        (queries i).mapping = some (nat (servers i)).misread := by
      obtain ⟨r, hr⟩ := Option.isSome_iff_exists.mp h
      rw [hmapping i, hr]
      rfl
    have hverdict : analyzeNatType queries results
        = classify (nat (servers 0)).misread (nat (servers 1)).misread :=
      analyzeNatType_of_mapped (two_le_successes (hmapped 0 h₀) (hmapped 1 h₁)) (hmapped 0 h₀)
        (hmapped 1 h₁)
    have hip : (nat (servers 0)).misread.outIp = (nat (servers 1)).misread.outIp ↔
        (nat (servers 0)).ip = (nat (servers 1)).ip := Endpoint.text_inj
    have hport : (nat (servers 0)).misread.outPort = (nat (servers 1)).misread.outPort ↔
        (nat (servers 0)).port = (nat (servers 1)).port := UInt16.xor_left_inj _
    have hrestricted : analyzeNatType queries results = .restricted ↔
        (nat (servers 0)).ip = (nat (servers 1)).ip ∧
          (nat (servers 0)).port ≠ (nat (servers 1)).port := by
      rw [hverdict, classify_eq_restricted_iff, hip, ne_eq, hport]
    refine ⟨?_, hrestricted, ?_, fun hsame ↦ ?_, fun hmaps hone hservers ↦ ?_⟩
    · rw [hverdict, classify_eq_fullCone_iff, misread_inj]
    · rw [hverdict, classify_eq_symmetric_iff, ne_eq, hip]
    · rw [hverdict, classify_eq_fullCone_iff, misread_inj]
      exact hsame _ _
    · refine hrestricted.mpr ⟨hone _ _, fun hports ↦ hservers (hmaps ?_)⟩
      exact (Endpoint.mk.injEq ..).mpr ⟨hone _ _, hports⟩

/-! ## A NAT with a port for each server -/

def responseHeader : Vector UInt8 20 :=
  .ofFn ![0x01, 0x01, 0x00, 0x0C, 0x21, 0x12, 0xA4, 0x42, 9, 9, 9, 9, 9, 9, 9, 9, 9, 9, 9, 9]

def shortestAttribute (seen : Endpoint) : Attribute where
  type := 0x0020
  value := Attribute.xorMappedValue 0 seen.ip seen.port []
  padding := []
  length_lt := show 8 < 2 ^ 16 by decide
  length_padding := show 0 = (4 - 8 % 4) % 4 from rfl

theorem forall_mem_nil_not : ∀ a ∈ ([] : List Attribute), ¬a.IsXorMapped :=
  fun _ h ↦ absurd h List.not_mem_nil

def shortestResponse (seen : Endpoint) : Response (natRequest (Vector.replicate 12 9)) seen where
  header := responseHeader
  before := []
  mapped := shortestAttribute seen
  after := []
  reserved := 0
  extra := []
  echo := by decide +kernel
  before_not := forall_mem_nil_not
  type_eq := rfl
  value_eq := rfl

def shortestReply (seen : Endpoint) : NatReply seen :=
  ⟨Vector.replicate 12 9, shortestResponse seen, fun _ ↦ 0⟩

theorem shortestReply_fits (seen : Endpoint) : (shortestReply seen).Fits := by
  rw [NatReply.Fits, Response.bytes, length_datagram]
  exact show 32 ≤ 1024 by decide

theorem shortestReply_leads (seen : Endpoint) : (shortestReply seen).Leads :=
  fun j hj hle ↦ absurd (show j < 20 from hj) (Nat.not_lt.mpr hle)

/-- Two servers are shown two ports of one address. -/
def twoPortsNat (server : Bool) : Endpoint where
  ip := .ofFn ![198, 51, 100, 7]
  port := if server then 40001 else 40000
  port_ne := by cases server <;> decide

theorem twoPortsNat_maps : MapsEachDestination twoPortsNat := by
  intro a b h
  have hport : (if a then 40001 else 40000 : UInt16) = if b then 40001 else 40000 :=
    congrArg Endpoint.port h
  revert hport
  cases a <;> cases b <;> decide

/-- This NAT is called restricted. -/
theorem natVerdict_of_responses_twoPorts :
    analyzeNatType (fun i ↦ (shortestReply (twoPortsNat (decide (i = 1)))).query)
      (fun _ ↦ ⟨List.replicate inetAddrstrlen 0, 0, List.length_replicate⟩) = .restricted := by
  obtain ⟨-, -, hverdict⟩ := natVerdict_of_responses twoPortsNat (fun i ↦ decide (i = 1))
    (fun i ↦ some (shortestReply (twoPortsNat (decide (i = 1)))))
    (fun i ↦ (shortestReply (twoPortsNat (decide (i = 1)))).query)
    (fun _ ↦ ⟨List.replicate inetAddrstrlen 0, 0, List.length_replicate⟩)
    (fun i r hr ↦ by rw [Option.some_injective _ hr])
    (fun i h ↦ absurd h (Option.some_ne_none _))
    (fun i r hr ↦ Option.some_injective _ hr ▸ shortestReply_fits _)
    fun i r hr ↦ Option.some_injective _ hr ▸ shortestReply_leads _
  exact (hverdict rfl rfl).2.2.2.2 twoPortsNat_maps (fun _ _ ↦ rfl) (by decide)

end NatGhost
