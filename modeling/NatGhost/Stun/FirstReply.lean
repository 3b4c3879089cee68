import NatGhost.Archive.FastestServers
import NatGhost.Shm.Segment
import NatGhost.Stun.ArrivalOrder
import NatGhost.Stun.Retry

/-!
# What a run of the discovery measures

The loops of the discovery program work on a table, a retry set, batches and buffers. What they are
for can be said without them: for each server, look for the first datagram that arrives before the
deadline and bears the id of its request; the time of its batch gives the round-trip time, and its
first usable attribute the public address. If the ids of the first burst are distinct, the table at
the end is just that (`Session.final_apply`). The second burst has no part in it, except that it
leaves its ids and send times in the entries it was for.

With the choice of the server and the shared segment behind it, this becomes a statement about the
datagrams and the text the Python tools read (`published_address`).

`epoll_burst` has one thread a server and a table without addresses. Its loop goes through the
states of the other program, seen without what it does not have (`listenerLoop_forget`), so it
measures the same times.
-/

namespace NatGhost

variable {n : ℕ}

/-! ## The first reply -/

/-- The message answers the request with this id. -/
def Delivery.Answers (v : Delivery) (transactionId : Vector UInt8 12) : Prop :=
  stunPktLen ≤ v.len ∧ v.Carries transactionId

instance (v : Delivery) (transactionId : Vector UInt8 12) : Decidable (v.Answers transactionId) :=
  inferInstanceAs (Decidable (_ ∧ _))

namespace BurstInput

/-- The first message that answers the request to server `k`. -/
def firstReply (input : BurstInput n) (k : Fin n) : Option Delivery :=
  input.deliveries.find? fun v ↦ decide (v.Answers (input.transactionIds k))

/-- The first datagram that bears the id of the request to server `k`. -/
def firstDatagram (input : BurstInput n) (k : Fin n) : Option Datagram :=
  input.delivered.find? fun d ↦ decide (Bears d (input.transactionIds k))

end BurstInput

theorem find?_of_forall₂ {α β : Type} {R : α → β → Prop} {p : α → Bool} {q : β → Bool}
    {as : List α} {bs : List β} (h : List.Forall₂ R as bs) (hpq : ∀ a b, R a b → p a = q b) :
    (as.find? p = none ∧ bs.find? q = none) ∨
      ∃ a b, as.find? p = some a ∧ bs.find? q = some b ∧ R a b := by
  induction h with
  | nil => exact Or.inl ⟨rfl, rfl⟩
  | @cons a b as bs hab _ ih =>
    rw [List.find?_cons, List.find?_cons, hpq a b hab]
    cases q b with
    | true => exact Or.inr ⟨a, b, rfl, rfl, hab⟩
    | false => exact ih

/-- **The first message that answers is that of the first datagram that bears the id.** -/
theorem BurstInput.firstReply_cases (input : BurstInput n) (k : Fin n) :
    (input.firstReply k = none ∧ input.firstDatagram k = none) ∨
      ∃ v d, input.firstReply k = some v ∧ input.firstDatagram k = some d ∧ v.IsOf d :=
  find?_of_forall₂ (forall₂_deliveries _ _) fun _ _ h ↦ decide_eq_decide.mpr (h.bears_iff _)

theorem foldl_receive_eq_find? {ctx : StunCtx} {vs : List Delivery} (hwaiting : ctx.rttMs = -1)
    (hclock : ∀ v ∈ vs, ctx.sendTime ≤ v.now) : vs.foldl StunCtx.receive ctx
      = match vs.find? fun v ↦ decide (v.Answers ctx.transactionId) with
        | none => ctx
        | some v =>
          ctx.replied (Timespec.elapsedMs v.now ctx.sendTime) (v.parse ctx.mapped).2 := by
  induction vs with
  | nil => rfl
  | cons v vs ih =>
    obtain ⟨hv, hvs⟩ := List.forall_mem_cons.mp hclock
    rw [List.foldl_cons, List.find?_cons, StunCtx.receive]
    by_cases hanswers : v.Answers ctx.transactionId
    · rw [if_pos ⟨hanswers.1, hwaiting, hanswers.2⟩, decide_eq_true hanswers]
      exact foldl_receive_of_answered
        (ctx.answered_replied (Timespec.elapsedMs_nonneg hv) _) vs
    · rw [if_neg fun h ↦ hanswers ⟨h.1, h.2.2⟩, decide_eq_false hanswers]
      exact ih hvs

/-- **A burst for all servers**, with distinct ids, in a table that waits. -/
theorem burst_apply {input : BurstInput n} {stunList : StunList n}
    (hids : Function.Injective input.transactionIds) (hwaiting : ∀ k, (stunList k).rttMs = -1)
    (hclock : input.RepliesAfter (List.finRange n)) (k : Fin n) :
    burst (List.finRange n) input stunList k
      = match input.firstReply k with
        | none => (stunList k).requested (input.transactionIds k) (input.sendTimes k)
        | some v => ((stunList k).requested (input.transactionIds k) (input.sendTimes k)).replied
            (Timespec.elapsedMs v.now (input.sendTimes k)) (v.parse (stunList k).mapped).2 := by
  have hsent (j : Fin n) : (burstSendAll (List.finRange n) input.transactionIds input.sendTimes
      stunList).1 j = (stunList j).requested (input.transactionIds j) (input.sendTimes j) := by
    rw [burstSendAll_apply, if_pos (List.mem_finRange j)]
  have hdistinct : ((List.finRange n).map fun j ↦ ((burstSendAll (List.finRange n)
      input.transactionIds input.sendTimes stunList).1 j).transactionId).Nodup := by
    have htids : (fun j ↦ ((burstSendAll (List.finRange n) input.transactionIds input.sendTimes
        stunList).1 j).transactionId) = input.transactionIds :=
      funext fun j ↦ congrArg StunCtx.transactionId (hsent j)
    rw [htids]
    exact (List.nodup_finRange n).map hids
  rw [burst, burstReceive_eq_foldl, foldl_receiveMessage_apply hdistinct (List.mem_finRange k),
    hsent k]
  exact foldl_receive_eq_find? (hwaiting k) fun v hv ↦ hclock k (List.mem_finRange k) v hv

/-! ## The table -/

namespace Session

variable (S : Session n)

def sent (k : Fin n) : StunCtx :=
  (loadStunServers S.servers k).requested (S.first.transactionIds k) (S.first.sendTimes k)

/-- **What a run should measure**: for each server the first reply. -/
def measured : StunList n := fun k ↦
  match S.first.firstReply k with
  | none => S.sent k
  | some v =>
    (S.sent k).replied (Timespec.elapsedMs v.now (S.first.sendTimes k)) (v.parse ⟨"", 0⟩).2

theorem repliesAfter : S.first.RepliesAfter (List.finRange n) := by
  have hclock := S.clock
  rw [ClockOrdered, discoverEvents, List.map_append, List.pairwise_append] at hclock
  exact ClockOrdered.repliesAfter hclock.1

theorem burst_first (hids : Function.Injective S.first.transactionIds) :
    burst (List.finRange n) S.first (loadStunServers S.servers) = S.measured :=
  funext fun k ↦ burst_apply hids (fun _ ↦ rfl) S.repliesAfter k

end Session

/-- **The second burst** leaves its requests in the entries it is for, and nothing else. -/
theorem retry_apply (second : BurstInput n) (stunList : StunList n) (k : Fin n) :
    retry second stunList k
      = if k ∈ retryTargets stunList then
          (stunList k).requested (second.transactionIds k) (second.sendTimes k)
        else stunList k := by
  rw [retry]
  split_ifs with hretry hk hk
  · rw [burst, burstReceive_of_not second, burstSendAll_apply, if_pos hk]
    refine Or.inr ?_
    have hnonneg := (mem_retryTargets.mp hk).1
    have hrtt := (burstSendAll_frame (retryTargets stunList) second.transactionIds
      second.sendTimes stunList k).1
    rw [StunCtx.Answered, hrtt]
    omega
  · rw [burst, burstReceive_of_not second (Or.inl hk), burstSendAll_apply, if_neg hk]
  · exact absurd (List.length_pos_of_mem hk) hretry
  · rfl

/-- **The table of a run.** -/
theorem Session.final_apply (S : Session n) (hids : Function.Injective S.first.transactionIds)
    (k : Fin n) : S.final k
      = if k ∈ retryTargets S.measured then
          (S.measured k).requested (S.second.transactionIds k) (S.second.sendTimes k)
        else S.measured k := by
  rw [Session.final, discover, S.burst_first hids, retry_apply]

/-! ## The addresses -/

/-- The address found in the first reply, if there is one and it is usable. -/
def BurstInput.discovered (input : BurstInput n) (k : Fin n) : Option (MappedOut × ℤ) :=
  match input.firstReply k with
  | none => none
  | some v =>
    let out := (v.parse ⟨"", 0⟩).2
    if out.outIp ≠ "" ∧ out.outPort ≠ 0 then
      some (out, Timespec.elapsedMs v.now (input.sendTimes k))
    else none

namespace Session

variable (S : Session n)

theorem final_frame (hids : Function.Injective S.first.transactionIds) (k : Fin n) :
    (S.final k).rttMs = (S.measured k).rttMs ∧ (S.final k).mapped = (S.measured k).mapped := by
  rw [S.final_apply hids]
  split_ifs
  · exact ⟨rfl, rfl⟩
  · exact ⟨rfl, rfl⟩

theorem discovered_eq_some_iff (hids : Function.Injective S.first.transactionIds) (k : Fin n)
    {out : MappedOut} {ms : ℤ} : S.first.discovered k = some (out, ms) ↔
      isValidStun S.final k ∧ (S.final k).mapped = out ∧ (S.final k).rttMs = ms := by
  obtain ⟨hrtt, hmapped⟩ := S.final_frame hids k
  rw [isValidStun_congr hmapped, hrtt, hmapped, isValidStun,
    BurstInput.discovered, measured]
  cases S.first.firstReply k with
  | none => exact iff_of_false (Option.some_ne_none _).symm fun h ↦ h.1.1 rfl
  | some v =>
    simp only
    split_ifs with husable
    · rw [Option.some.injEq, Prod.mk.injEq]
      exact (and_iff_right husable).symm
    · exact iff_of_false not_false fun h ↦ husable h.1

end Session

/-- **What a run measures.** If the ids of the first burst are distinct, an entry at the end is what
the first reply makes of it: either no datagram that arrives in the first burst bears its id, and it
is as its request left it, or it has the time and the address of the message that holds the first
such datagram; where the datagram is received whole, the address it decodes to. Whatever happens in
the second burst, it only leaves the id and the time of its request in the entries that were
answered without a usable address. -/
theorem discover_measures (S : Session n) (hids : Function.Injective S.first.transactionIds)
    (k : Fin n) :
    (S.first.firstDatagram k = none ∧ S.final k = S.sent k) ∨
      ∃ v d, S.first.firstReply k = some v ∧ S.first.firstDatagram k = some d ∧ v.IsOf d ∧
        (ReceivedWhole d → (v.parse ⟨"", 0⟩).2 = (decode d ⟨"", 0⟩).2) ∧
        let entry := (S.sent k).replied (Timespec.elapsedMs v.now (S.first.sendTimes k))
          (v.parse ⟨"", 0⟩).2
        S.final k = if entry.publicIp ≠ "" ∧ entry.publicPort ≠ 0 then entry
          else entry.requested (S.second.transactionIds k) (S.second.sendTimes k) := by
  have hfinal := S.final_apply hids k
  rcases S.first.firstReply_cases k with ⟨hreply, hdatagram⟩ | ⟨v, d, hreply, hdatagram, hof⟩
  · have hmeasured : S.measured k = S.sent k := by rw [Session.measured, hreply]
    have hwaiting : k ∉ retryTargets S.measured := fun hk ↦ by
      have hnonneg := (mem_retryTargets.mp hk).1
      have hsentinel : (S.sent k).rttMs = -1 := rfl
      rw [hmeasured, hsentinel] at hnonneg
      exact absurd hnonneg (by decide)
    rw [if_neg hwaiting, hmeasured] at hfinal
    exact Or.inl ⟨hdatagram, hfinal⟩
  · have hmeasured : S.measured k = (S.sent k).replied
        (Timespec.elapsedMs v.now (S.first.sendTimes k)) (v.parse ⟨"", 0⟩).2 := by
      rw [Session.measured, hreply]
    refine Or.inr ⟨v, d, hreply, hdatagram, hof, fun hwhole ↦ by rw [hof.parse hwhole], ?_⟩
    have hread : S.first.sendTimes k ≤ v.now :=
      S.repliesAfter k (List.mem_finRange k) v (List.mem_of_find?_eq_some hreply)
    have hretry : k ∈ retryTargets S.measured ↔ ¬isValidStun S.measured k := by
      rw [mem_retryTargets, hmeasured]
      exact and_iff_right (Timespec.elapsedMs_nonneg hread)
    rw [hfinal]
    simp only [hretry, isValidStun, hmeasured, ite_not]

/-- The server of this run has a first reply. -/
theorem discover_measures_answeredRun :
    ∃ v d, answeredRun.first.firstReply 0 = some v ∧ v.IsOf d := by
  rcases discover_measures answeredRun.toSession (Function.injective_of_subsingleton _) 0 with
    ⟨hnone, -⟩ | ⟨v, d, hv, -, hof, -⟩
  · exact absurd hnone (by decide +kernel)
  · exact ⟨v, d, hv, hof⟩

theorem Run.publish_cases (R : Run n) (segment : Segment) :
    ((∀ k, ¬isValidStun R.final k) ∧ R.publish segment = segment) ∨
      ∃ k, isValidStun R.final k ∧
        (∀ j, isValidStun R.final j → (R.final k).rttMs ≤ (R.final j).rttMs) ∧
        readIpPort (R.publish segment)
          = .ok ((R.final k).publicIp, ((R.final k).publicPort.toNat : ℤ)) := by
  have hsorted (j : Fin n) : R.table (R.order.symm j) = R.final j := by
    rw [Run.table, Function.comp_apply, R.order.apply_symm_apply]
  have hvalid (j : Fin n) : isValidStun R.table (R.order.symm j) ↔ isValidStun R.final j := by
    rw [isValidStun, isValidStun, hsorted]
  cases hbest : R.best with
  | none =>
    refine Or.inl ⟨fun k hk ↦ ?_, by rw [Run.publish, hbest]⟩
    exact R.best_eq_none_iff.mp hbest _ ((hvalid k).mpr hk)
  | some best =>
    have hbestValid : isValidStun R.final (R.order best) := R.isValidStun_of_best hbest
    refine Or.inr ⟨R.order best, hbestValid, fun j hj ↦ ?_, ?_⟩
    · rw [← hsorted j]
      exact R.best_rtt_le hbest ((hvalid j).mpr hj)
    · obtain ⟨b₀, b₁, b₂, b₃, hip⟩ := (R.tableInv best).printed.resolve_left hbestValid.1
      rw [Run.publish, hbest]
      exact readIpPort_write hip segment

/-- **From the datagrams to the reader.** If the ids of the first burst are distinct, the segment is
left alone exactly if no first reply of a server has a usable address in it; otherwise
`read_ip_port` returns, whatever was in the segment before, the address in the first reply of a
server, and no server with a usable address in its first reply has a shorter round-trip time. -/
theorem published_address (R : Run n) (hids : Function.Injective R.first.transactionIds)
    (segment : Segment) :
    ((∀ k, R.first.discovered k = none) ∧ R.publish segment = segment) ∨
      ∃ k out ms, R.first.discovered k = some (out, ms) ∧
        (∀ j out' ms', R.first.discovered j = some (out', ms') → ms ≤ ms') ∧
        readIpPort (R.publish segment) = .ok (out.outIp, (out.outPort.toNat : ℤ)) := by
  rcases R.publish_cases segment with ⟨hnone, hsame⟩ | ⟨k, hk, hfastest, hread⟩
  · refine Or.inl ⟨fun k ↦ ?_, hsame⟩
    cases hfound : R.first.discovered k with
    | none => rfl
    | some found => exact absurd ((R.discovered_eq_some_iff hids k).mp hfound).1 (hnone k)
  · refine Or.inr ⟨_, _, _, (R.discovered_eq_some_iff hids k).mpr ⟨hk, rfl, rfl⟩,
      fun j out' ms' hj ↦ ?_, hread⟩
    obtain ⟨hjvalid, -, hjms⟩ := (R.discovered_eq_some_iff hids j).mp hj
    rw [← hjms]
    exact hfastest j hjvalid

/-- The address in the first reply of this run is read. -/
theorem published_address_answeredRun :
    readIpPort (answeredRun.publish none) = .ok ("198.51.100.7", 4660) := by
  have hdiscovered : answeredRun.first.discovered 0 = some (⟨"198.51.100.7", 4660⟩, 5) := by
    decide +kernel
  rcases published_address answeredRun (Function.injective_of_subsingleton _) none with
    ⟨hnone, -⟩ | ⟨k, out, ms, hk, -, hread⟩
  · exact absurd (hdiscovered.symm.trans (hnone 0)) nofun
  · obtain rfl : k = 0 := Subsingleton.elim k 0
    obtain ⟨rfl, -⟩ := Prod.mk.inj (Option.some.inj (hk.symm.trans hdiscovered))
    exact hread

/-! ## The program with a thread for each server -/

namespace EpollBurst

/-- An entry of the other program, without what this one does not have. -/
def forget (ctx : StunCtx) : EpollCtx where
  host := ctx.host
  port := ctx.port
  addr := ctx.addr
  transactionId := ctx.transactionId
  sendTime := ctx.sendTime
  rttMs := ctx.rttMs

theorem receiveMessage_forget (stunList : StunList n) (v : Delivery) :
    receiveMessage (forget ∘ stunList) v
      = forget ∘ NatGhost.receiveMessage (List.finRange n) stunList v := by
  have hmatch : matchServer (forget ∘ stunList) v = matchTarget stunList v (List.finRange n) := rfl
  rw [receiveMessage, NatGhost.receiveMessage, hmatch]
  split_ifs
  · rfl
  · cases matchTarget stunList v (List.finRange n) with
    | none => rfl
    | some k =>
      simp only [storeReply, Function.comp_update]
      rfl

/-- **The two receive loops go through the same states.** -/
theorem listenerLoop_forget (input : BurstInput n) (stunList : StunList n) :
    listenerLoop input (forget ∘ stunList)
      = forget ∘ burstReceive (List.finRange n) input stunList := by
  rw [listenerLoop, receiveLoop_eq_foldl, burstReceive_eq_foldl]
  change input.deliveries.foldl receiveMessage (forget ∘ stunList) = _
  induction input.deliveries generalizing stunList with
  | nil => rfl
  | cons v vs ih => rw [List.foldl_cons, List.foldl_cons, receiveMessage_forget, ih]

/-- **The threads make no difference.** Whatever the order in which the sender threads write, and
whether or not the ids are distinct, `epoll_burst` ends with the ids and times of the first burst of
the discovery program for the same servers, requests and messages. So if the ids are distinct, the
time of a server is that of its first reply. -/
theorem epollBurst_measures (R : Run n) (ipStrs : Fin n → String) :
    let servers : Fin n → Resolved := fun k ↦ ⟨(R.servers k).1, ipStrs k, (R.servers k).2⟩
    R.table = forget ∘ burst (List.finRange n) R.input (NatGhost.loadStunServers servers) ∧
      (Function.Injective R.input.transactionIds → ∀ k, (R.table k).rttMs
        = match R.input.firstReply k with
          | none => -1
          | some v => Timespec.elapsedMs v.now (R.input.sendTimes k)) := by
  intro servers
  have hloaded : loadStunServers R.servers = forget ∘ NatGhost.loadStunServers servers := rfl
  have hsent : sendAll R.order R.input (loadStunServers R.servers)
      = forget ∘ (burstSendAll (List.finRange n) R.input.transactionIds R.input.sendTimes
          (NatGhost.loadStunServers servers)).1 := by
    funext k
    rw [sendAll_apply (R.perm.nodup_iff.mpr (List.nodup_finRange n)),
      if_pos (R.perm.mem_iff.mpr (List.mem_finRange k)), Function.comp_apply, burstSendAll_apply,
      if_pos (List.mem_finRange k)]
    rfl
  have htable : R.table
      = forget ∘ burst (List.finRange n) R.input (NatGhost.loadStunServers servers) := by
    rw [Run.table, hsent, listenerLoop_forget, burst]
  have hreplies : R.input.RepliesAfter (List.finRange n) := fun k _ v hv ↦ by
    obtain ⟨w, hw, hnow, -⟩ := exists_of_mem_batchDeliveries hv
    exact hnow ▸ R.clock k w (mem_of_mem_takenWakeups hw)
  refine ⟨htable, fun hids k ↦ ?_⟩
  rw [htable, Function.comp_apply, burst_apply hids (fun _ ↦ rfl) hreplies]
  cases R.input.firstReply k with
  | none => rfl
  | some v => rfl

end EpollBurst

end NatGhost
