import Mathlib.Data.List.FinRange
import NatGhost.Stun.BurstReceive

/-!
# A run of the discovery program

`main` fills the table, sends a request to every server and collects replies; then it sends a second
request to every server that replied without giving a usable address and collects once more; then it
sorts the table and takes the first server with a usable address.

Up to the sort, a run is a list of *events*, requests sent and messages handled, and the table is
the fold of `Event.apply` over them. That view is what statements about every reachable state are
made of: `visits` pairs each event with the table it meets. The retry set depends on the table after
the first burst, so the list of events of a run is computed along with it.

## The invariant

An entry that still waits has no public address, and an entry that has been answered has a
round-trip time that is not negative (`EntryInv`). The second half is where the clock comes in: a
reply is read after the request was sent, so a monotonic clock never produces the sentinel `-1`.
-/

namespace NatGhost

/-- `MAX_STUN`. -/
def maxStun : ℕ := 100

theorem one_le_maxStun : 1 ≤ maxStun := by decide

/-- A server name together with what `getaddrinfo` and `inet_ntop` made of it. -/
structure Resolved where
  host : String
  ipStr : String
  addr : SockaddrIn

variable {n : ℕ}

/-! ## The phases of `main` -/

/-- `load_stun_servers`, for the servers that resolved. The table is static storage, so the fields
it does not write are zero. -/
def loadStunServers (servers : Fin n → Resolved) : StunList n := fun i ↦
  { host := (servers i).host
    ipStr := (servers i).ipStr
    port := 3478
    addr := (servers i).addr
    transactionId := Vector.replicate 12 0
    sendTime := .reading 0 0
    rttMs := -1
    publicIp := ""
    publicPort := 0 }

/-- `burst_send_all` followed by `burst_receive`, for the same targets. -/
def burst (targets : List (Fin n)) (input : BurstInput n) (stunList : StunList n) : StunList n :=
  burstReceive targets input
    (burstSendAll targets input.transactionIds input.sendTimes stunList).1

/-- `retry_targets`: the servers that answered without a usable address. -/
def retryTargets (stunList : StunList n) : List (Fin n) :=
  (List.finRange n).filter fun i ↦
    decide ((stunList i).rttMs ≥ 0) && decide ¬isValidStun stunList i

def retry (input : BurstInput n) (stunList : StunList n) : StunList n :=
  if (retryTargets stunList).length > 0 then burst (retryTargets stunList) input stunList
  else stunList

def discover (servers : Fin n → Resolved) (first second : BurstInput n) : StunList n :=
  retry second (burst (List.finRange n) first (loadStunServers servers))

/-- The search for `best`: the first entry with a usable address. `none` stands for `-1`. -/
def selectBest (stunList : StunList n) : Option (Fin n) :=
  (List.finRange n).find? fun i ↦ decide (isValidStun stunList i)

/-! ## Events -/

inductive Event (n : ℕ) where
  /-- A request is sent to server `k`. -/
  | request (k : Fin n) (transactionId : Vector UInt8 12) (sendTime : Timespec)
  /-- A message is handled in a burst with these targets. -/
  | reply (targets : List (Fin n)) (v : Delivery)

namespace Event

def apply (stunList : StunList n) : Event n → StunList n
  | request k transactionId sendTime =>
    Function.update stunList k ((stunList k).requested transactionId sendTime)
  | reply targets v => receiveMessage targets stunList v

def time : Event n → Timespec
  | request _ _ sendTime => sendTime
  | reply _ v => v.now

end Event

def requestEvents (targets : List (Fin n)) (input : BurstInput n) : List (Event n) :=
  targets.map fun k ↦ .request k (input.transactionIds k) (input.sendTimes k)

def replyEvents (targets : List (Fin n)) (input : BurstInput n) : List (Event n) :=
  input.deliveries.map (.reply targets)

def burstEvents (targets : List (Fin n)) (input : BurstInput n) : List (Event n) :=
  requestEvents targets input ++ replyEvents targets input

theorem foldl_requestEvents (targets : List (Fin n)) (input : BurstInput n)
    (stunList : StunList n) :
    (requestEvents targets input).foldl Event.apply stunList
      = (burstSendAll targets input.transactionIds input.sendTimes stunList).1 := by
  rw [burstSendAll_fst, requestEvents, List.foldl_map]
  rfl

theorem foldl_replyEvents (targets : List (Fin n)) (input : BurstInput n)
    (stunList : StunList n) :
    (replyEvents targets input).foldl Event.apply stunList
      = burstReceive targets input stunList := by
  rw [burstReceive_eq_foldl, replyEvents, List.foldl_map]
  rfl

theorem foldl_burstEvents (targets : List (Fin n)) (input : BurstInput n)
    (stunList : StunList n) :
    (burstEvents targets input).foldl Event.apply stunList = burst targets input stunList := by
  rw [burstEvents, List.foldl_append, foldl_requestEvents, foldl_replyEvents, burst]

/-- The events of the second burst, given the table after the first. -/
def retryEvents (input : BurstInput n) (stunList : StunList n) : List (Event n) :=
  if (retryTargets stunList).length > 0 then burstEvents (retryTargets stunList) input else []

def discoverEvents (servers : Fin n → Resolved) (first second : BurstInput n) : List (Event n) :=
  burstEvents (List.finRange n) first
    ++ retryEvents second (burst (List.finRange n) first (loadStunServers servers))

theorem foldl_retryEvents (input : BurstInput n) (stunList : StunList n) :
    (retryEvents input stunList).foldl Event.apply stunList = retry input stunList := by
  rw [retryEvents, retry]
  split_ifs with h
  · exact foldl_burstEvents _ _ _
  · rfl

/-- **A run is the fold of its events.** -/
theorem foldl_discoverEvents (servers : Fin n → Resolved) (first second : BurstInput n) :
    (discoverEvents servers first second).foldl Event.apply (loadStunServers servers)
      = discover servers first second := by
  rw [discoverEvents, List.foldl_append, foldl_burstEvents, foldl_retryEvents, discover]

/-- The events of a run are in the order of a clock that never goes back. -/
def ClockOrdered (es : List (Event n)) : Prop := (es.map Event.time).Pairwise (· ≤ ·)

/-! ## The invariant -/

structure EntryInv (ctx : StunCtx) : Prop where
  /-- The sentinel, or a real round-trip time. -/
  rtt : ctx.rttMs = -1 ∨ 0 ≤ ctx.rttMs
  /-- Before the answer there is no address. -/
  waiting : ctx.rttMs = -1 → ctx.publicIp = "" ∧ ctx.publicPort = 0
  /-- The address text is empty or a printed IPv4 address. -/
  printed : ctx.publicIp = "" ∨ ∃ b₀ b₁ b₂ b₃, ctx.publicIp = dottedQuad b₀ b₁ b₂ b₃

theorem EntryInv.load (servers : Fin n → Resolved) (k : Fin n) :
    EntryInv (loadStunServers servers k) :=
  ⟨Or.inl rfl, fun _ ↦ ⟨rfl, rfl⟩, Or.inl rfl⟩

theorem EntryInv.requested {ctx : StunCtx} (h : EntryInv ctx) (transactionId : Vector UInt8 12)
    (sendTime : Timespec) : EntryInv (ctx.requested transactionId sendTime) :=
  ⟨h.rtt, h.waiting, h.printed⟩

theorem Delivery.parse_cases (v : Delivery) :
    (∃ p, UsesAttr v.bufs v.buf v.len p ∧ ∀ out, v.parse out = (0, addressAt v.bufs p)) ∨
      ∀ out, v.parse out = (-1, out) := by
  rcases usesAttr_or_run_parse_eq v.bufs v.buf v.len with ⟨p, hp⟩ | hnone
  · exact Or.inl ⟨p, hp, fun out ↦ hp.run_parse⟩
  · exact Or.inr hnone

theorem EntryInv.replied {ctx : StunCtx} (h : EntryInv ctx) {v : Delivery}
    (hclock : ctx.sendTime ≤ v.now) :
    EntryInv (ctx.replied (Timespec.elapsedMs v.now ctx.sendTime) (v.parse ctx.mapped).2) := by
  have hms := Timespec.elapsedMs_nonneg hclock
  refine ⟨Or.inr hms, fun hwaiting ↦ ?_, ?_⟩
  · change Timespec.elapsedMs v.now ctx.sendTime = -1 at hwaiting
    omega
  · rcases v.parse_cases with ⟨p, -, hparse⟩ | hparse
    · rw [StunCtx.replied, hparse]
      exact Or.inr ⟨_, _, _, _, rfl⟩
    · rw [StunCtx.replied, hparse]
      exact h.printed

/-- The invariant of a whole table. -/
def TableInv (stunList : StunList n) : Prop := ∀ k, EntryInv (stunList k)

theorem TableInv.load (servers : Fin n → Resolved) : TableInv (loadStunServers servers) :=
  EntryInv.load servers

theorem TableInv.request {stunList : StunList n} (h : TableInv stunList) (k : Fin n)
    (transactionId : Vector UInt8 12) (sendTime : Timespec) :
    TableInv (Event.apply stunList (.request k transactionId sendTime)) := by
  intro j
  rw [Event.apply]
  by_cases hj : j = k
  · subst hj
    rw [Function.update_self]
    exact (h j).requested transactionId sendTime
  · rw [Function.update_of_ne hj]
    exact h j

theorem TableInv.receiveMessage {stunList : StunList n} (h : TableInv stunList)
    {targets : List (Fin n)} {v : Delivery}
    (hclock : ∀ k ∈ targets, (stunList k).sendTime ≤ v.now) :
    TableInv (receiveMessage targets stunList v) := by
  intro k
  rw [receiveMessage_apply]
  split_ifs with hmatch
  · exact (h k).replied (hclock k (matchTarget_some hmatch.2).1)
  · exact h k

/-! ## Bursts keep the invariant -/

/-- Every message of a burst is read after every request of the burst was sent. -/
def BurstInput.RepliesAfter (input : BurstInput n) (targets : List (Fin n)) : Prop :=
  ∀ k ∈ targets, ∀ v ∈ input.deliveries, input.sendTimes k ≤ v.now

theorem ClockOrdered.repliesAfter {targets : List (Fin n)} {input : BurstInput n}
    (h : ClockOrdered (burstEvents targets input)) : input.RepliesAfter targets := by
  intro k hk v hv
  rw [ClockOrdered, burstEvents, List.map_append, List.pairwise_append] at h
  refine h.2.2 _ (List.mem_map_of_mem (List.mem_map_of_mem hk)) _
    (List.mem_map_of_mem (List.mem_map_of_mem hv))

private theorem sendTime_burst {targets : List (Fin n)} {input : BurstInput n}
    {stunList : StunList n} {k : Fin n} (hk : k ∈ targets) :
    (((requestEvents targets input).foldl Event.apply stunList) k).sendTime
      = input.sendTimes k := by
  rw [foldl_requestEvents, burstSendAll_apply, if_pos hk]
  rfl

/-- **The invariant throughout a burst.** -/
theorem TableInv.burst {targets : List (Fin n)} {input : BurstInput n} {stunList : StunList n}
    (h : TableInv stunList) (hclock : input.RepliesAfter targets) :
    (∀ x ∈ visits Event.apply stunList (burstEvents targets input), TableInv x.1) ∧
      TableInv (burst targets input stunList) := by
  obtain ⟨hsend, hsent⟩ :=
    run_invariant Event.apply TableInv (requestEvents targets input) h fun x hx hI ↦ by
      obtain ⟨k, -, hkx⟩ := List.mem_map.mp (mem_of_mem_visits hx)
      rw [← hkx]
      exact hI.request k _ _
  -- while replies come in, the table also keeps the send times of the targets
  obtain ⟨hreply, hdone⟩ := run_invariant Event.apply
    (fun st : StunList n ↦ TableInv st ∧ ∀ k ∈ targets, (st k).sendTime = input.sendTimes k)
    (replyEvents targets input) ⟨hsent, fun k hk ↦ sendTime_burst hk⟩ fun x hx hI ↦ by
      obtain ⟨v, hv, hvx⟩ := List.mem_map.mp (mem_of_mem_visits hx)
      obtain ⟨hinv, htime⟩ := hI
      rw [← hvx]
      refine ⟨hinv.receiveMessage fun k hk ↦ ?_, fun k hk ↦ ?_⟩
      · rw [htime k hk]
        exact hclock k hk v hv
      · rw [← htime k hk]
        exact (receiveMessage_frame targets x.1 v k).2
  refine ⟨fun x hx ↦ ?_, ?_⟩
  · rw [burstEvents, visits_append, List.mem_append] at hx
    rcases hx with hx | hx
    · exact hsend x hx
    · exact (hreply x hx).1
  · rw [← foldl_burstEvents, burstEvents, List.foldl_append]
    exact hdone.1

/-- A run up to the sort: what the environment supplies, and a clock that does not go back. -/
structure Session (n : ℕ) where
  servers : Fin n → Resolved
  first : BurstInput n
  second : BurstInput n
  count_le : n ≤ maxStun
  clock : ClockOrdered (discoverEvents servers first second)

namespace Session

variable (S : Session n)

def final : StunList n := discover S.servers S.first S.second

/-- Every event of the run together with the table it meets. -/
def history : List (StunList n × Event n) :=
  visits Event.apply (loadStunServers S.servers) (discoverEvents S.servers S.first S.second)

/-- **The invariant throughout a run**, in every state an event meets and at the end. -/
theorem tableInv : (∀ x ∈ S.history, TableInv x.1) ∧ TableInv S.final := by
  have hclock := S.clock
  rw [ClockOrdered, discoverEvents, List.map_append, List.pairwise_append] at hclock
  obtain ⟨hfirst, hsecond, -⟩ := hclock
  have hreplies : S.first.RepliesAfter (List.finRange n) := ClockOrdered.repliesAfter hfirst
  obtain ⟨hvisits₁, hend₁⟩ := (TableInv.load S.servers).burst hreplies
  rw [history, final, discoverEvents, visits_append, foldl_burstEvents, discover, retry,
    retryEvents]
  rw [retryEvents] at hsecond
  split_ifs at hsecond ⊢ with hretry
  · obtain ⟨hvisits₂, hend₂⟩ := hend₁.burst (ClockOrdered.repliesAfter hsecond)
    refine ⟨fun x hx ↦ ?_, hend₂⟩
    rcases List.mem_append.mp hx with hx | hx
    · exact hvisits₁ x hx
    · exact hvisits₂ x hx
  · refine ⟨fun x hx ↦ hvisits₁ x ?_, hend₁⟩
    rwa [visits_nil, List.append_nil] at hx

end Session

end NatGhost
