import Mathlib.Data.Fin.VecNotation
import NatGhost.Foundation.TopEntries
import NatGhost.Stun.Ranking

/-!
# The fastest servers of `epoll_burst` and `burst_controller`

Both programs send a request to each server, collect the replies in a loop over `recvmmsg`, and
print five servers as the fastest ones. `burst_controller` sorts its table with `cmp_rtt` before it
prints; its table entries and its comparison are the ones of `memory_pool_optimization.c`, so
`StunCtx` and `cmpRtt` stand for them. `epoll_burst` has shorter entries (`EpollCtx`), and prints
from the table as it is, in the order of its list of names.

What is expected of both is `RanksFastest`. On the table as it is this holds only if the servers
answered in time happen to be in order as far as the printing goes (`ranksTable_iff`).

The batches, buffers and clock readings of the receive loop are those of `BurstReceive`.
-/

namespace NatGhost

/-! ## `epoll_burst` -/

namespace EpollBurst

/-- `stun_ctx_t`. -/
structure EpollCtx where
  host : String
  port : UInt16
  addr : SockaddrIn
  transactionId : Vector UInt8 12
  sendTime : Timespec
  rttMs : ℤ

/-- `stun_list[0 .. stun_count)`. -/
abbrev EpollList (n : ℕ) := Fin n → EpollCtx

/-- `MAX_STUN`. -/
def maxStun : ℕ := 150

variable {n : ℕ}

/-- `load_stun_servers`, for the servers that resolved. -/
def loadStunServers (servers : Fin n → String × SockaddrIn) : EpollList n := fun i ↦
  { host := (servers i).1
    port := 3478
    addr := (servers i).2
    transactionId := Vector.replicate 12 0
    sendTime := .reading 0 0
    rttMs := -1 }

/-- `sender_thread` of server `idx`: what it writes to the table. -/
def senderThread (stunList : EpollList n) (idx : Fin n) (transactionId : Vector UInt8 12)
    (sendTime : Timespec) : EpollList n :=
  Function.update stunList idx { stunList idx with transactionId, sendTime }

/-- All senders, in the order in which they write. -/
def sendAll (order : List (Fin n)) (input : BurstInput n) (stunList : EpollList n) : EpollList n :=
  order.foldl (fun st k ↦ senderThread st k (input.transactionIds k) (input.sendTimes k)) stunList

/-- The inner loop of `listener_loop`: the first server that waits and whose id the message
carries. -/
def matchServer (stunList : EpollList n) (v : Delivery) : Option (Fin n) :=
  (List.finRange n).find? fun k ↦
    decide ((stunList k).rttMs = -1) && decide (v.Carries (stunList k).transactionId)

def receiveMessage (stunList : EpollList n) (v : Delivery) : EpollList n :=
  if v.len < stunPktLen then stunList
  else match matchServer stunList v with
    | none => stunList
    | some k =>
      let ms := Timespec.elapsedMs v.now (stunList k).sendTime
      Function.update stunList k { stunList k with rttMs := ms }

/-- The `while` loop of `listener_loop`, with the content of the buffers. It is left when a turn
ends at or after the deadline. -/
def receiveLoop (start : Timespec) : List Wakeup → (ℕ → UInt8) → EpollList n → EpollList n
  | [], _, stunList => stunList
  | w :: ws, bufs, stunList =>
    let stunList := (w.deliveries bufs).foldl receiveMessage stunList
    if Timespec.elapsedMs w.cur start ≥ timeLimitMs then stunList
    else receiveLoop start ws (recvmmsg w.msgs bufs) stunList

/-- `listener_loop`. -/
def listenerLoop (input : BurstInput n) (stunList : EpollList n) : EpollList n :=
  receiveLoop input.start input.wakeups input.stale stunList

/-- A run of `epoll_burst` up to the end of `listener_loop`. -/
structure Run (n : ℕ) where
  servers : Fin n → String × SockaddrIn
  count_le : n ≤ maxStun
  /-- The order in which the sender threads write, each its own entry. -/
  order : List (Fin n)
  perm : order.Perm (List.finRange n)
  input : BurstInput n
  /-- The senders are joined before anything is received. -/
  clock : ∀ k, ∀ w ∈ input.wakeups, input.sendTimes k ≤ w.now

/-- The table `listener_loop` leaves. -/
def Run.table (R : Run n) : EpollList n :=
  listenerLoop R.input (sendAll R.order R.input (loadStunServers R.servers))

def inTime (stunList : EpollList n) (i : Fin n) : Bool :=
  decide ((stunList i).rttMs ≥ 0 ∧ (stunList i).rttMs < timeLimitMs)

/-- The servers printed by `main`. -/
def printed (stunList : EpollList n) : List (Fin n) :=
  takeWhere (inTime stunList) 5 (List.finRange n)

end EpollBurst

/-! ## `burst_controller` -/

namespace BurstController

variable {n : ℕ}

def answered (stunList : StunList n) (i : Fin n) : Bool := decide ((stunList i).rttMs ≥ 0)

/-- The servers printed by `main`, of the sorted table. -/
def printed (stunList : StunList n) : List (Fin n) :=
  takeWhere (answered stunList) 5 (List.finRange n)

end BurstController

/-! ## What `listener_loop` leaves -/

namespace EpollBurst

variable {n : ℕ}

theorem sendAll_apply {order : List (Fin n)} (hnodup : order.Nodup) (input : BurstInput n)
    (stunList : EpollList n) (k : Fin n) :
    sendAll order input stunList k
      = if k ∈ order then
          { stunList k with
            transactionId := input.transactionIds k
            sendTime := input.sendTimes k }
        else stunList k := by
  induction order generalizing stunList with
  | nil => rfl
  | cons j order ih =>
    obtain ⟨hj, hnodup⟩ := List.nodup_cons.mp hnodup
    have hstep := ih hnodup (senderThread stunList j (input.transactionIds j) (input.sendTimes j))
    rw [sendAll, List.foldl_cons]
    refine hstep.trans ?_
    rcases eq_or_ne k j with rfl | hne
    · rw [if_neg hj, if_pos List.mem_cons_self, senderThread, Function.update_self]
    · simp only [senderThread, Function.update_of_ne hne, List.mem_cons, hne, false_or]

/-- **The receive loop is a fold over its deliveries.** -/
theorem receiveLoop_eq_foldl (start : Timespec) (ws : List Wakeup) (bufs : ℕ → UInt8)
    (stunList : EpollList n) : receiveLoop start ws bufs stunList
      = (batchDeliveries (takenWakeups start ws) bufs).foldl receiveMessage stunList := by
  induction ws generalizing bufs stunList with
  | nil => rfl
  | cons w ws ih =>
    rw [receiveLoop, takenWakeups]
    split_ifs with hdeadline
    · rw [batchDeliveries, batchDeliveries, List.append_nil]
    · rw [ih, batchDeliveries, List.foldl_append]

theorem receiveMessage_apply (stunList : EpollList n) (v : Delivery) (k : Fin n) :
    receiveMessage stunList v k = stunList k ∨ receiveMessage stunList v k
      = { stunList k with rttMs := Timespec.elapsedMs v.now (stunList k).sendTime } := by
  rw [receiveMessage]
  split_ifs
  · exact Or.inl rfl
  · cases matchServer stunList v with
    | none => exact Or.inl rfl
    | some j =>
      rcases eq_or_ne k j with rfl | hne
      · exact Or.inr (Function.update_self ..)
      · exact Or.inl (Function.update_of_ne hne ..)

/-- **What is in the table**: the sentinel or a real round-trip time. -/
theorem Run.rttMs_table (R : Run n) (k : Fin n) :
    (R.table k).rttMs = -1 ∨ 0 ≤ (R.table k).rttMs := by
  have hsent : sendAll R.order R.input (loadStunServers R.servers) k
      = { loadStunServers R.servers k with
          transactionId := R.input.transactionIds k
          sendTime := R.input.sendTimes k } := by
    rw [sendAll_apply (R.perm.nodup_iff.mpr (List.nodup_finRange n)),
      if_pos (R.perm.mem_iff.mpr (List.mem_finRange k))]
  have hfold : ((R.table k).rttMs = -1 ∨ 0 ≤ (R.table k).rttMs) ∧
      (R.table k).sendTime = R.input.sendTimes k := by
    rw [table, listenerLoop, receiveLoop_eq_foldl]
    refine foldl_invariant (fun st : EpollList n ↦
      ((st k).rttMs = -1 ∨ 0 ≤ (st k).rttMs) ∧ (st k).sendTime = R.input.sendTimes k) ?_ ?_
    · rw [hsent]
      exact ⟨Or.inl rfl, rfl⟩
    · intro st v hv ⟨hrtt, htime⟩
      obtain ⟨w, hw, hnow, _⟩ := exists_of_mem_batchDeliveries hv
      rcases receiveMessage_apply st v k with heq | heq
      · rw [heq]
        exact ⟨hrtt, htime⟩
      · rw [heq]
        refine ⟨Or.inr (Timespec.elapsedMs_nonneg ?_), htime⟩
        rw [htime, hnow]
        exact R.clock k w (mem_of_mem_takenWakeups hw)
  exact hfold.1

end EpollBurst

/-! ## The fastest servers -/

section

variable {n : ℕ}

/-- The servers `listed` are the fastest five of those with `p`: at most five and otherwise all,
fastest first, and no answered server that is not listed is faster than one that is. -/
structure RanksFastest (rtt : Fin n → ℤ) (p : Fin n → Bool) (listed : List (Fin n)) : Prop where
  number : listed.length = min 5 (places p).length
  distinct : listed.Nodup
  subset : ∀ i ∈ listed, p i = true
  ascending : listed.Pairwise fun i j ↦ rtt i ≤ rtt j
  least : ∀ i ∈ listed, ∀ j, 0 ≤ rtt j → j ∉ listed → rtt i ≤ rtt j

theorem ranksFastest_iff_isTop {rtt : Fin n → ℤ} {p : Fin n → Bool} {listed : List (Fin n)}
    (hnonneg : ∀ i, p i = true → 0 ≤ rtt i)
    (hslow : ∀ i j, p i = true → p j = false → 0 ≤ rtt j → rtt i ≤ rtt j) :
    RanksFastest rtt p listed ↔ IsTop rtt 5 (places p) listed := by
  constructor
  · intro h
    exact ⟨h.number, h.distinct, fun i hi ↦ mem_places.mpr (h.subset i hi), h.ascending,
      fun i hi j hj ↦ h.least i hi j (hnonneg j (mem_places.mp hj))⟩
  · intro h
    refine ⟨h.number, h.distinct, fun i hi ↦ mem_places.mp (h.subset i hi), h.ascending, ?_⟩
    intro i hi j hj hnot
    cases hp : p j with
    | true => exact h.least i hi j (mem_places.mpr hp) hnot
    | false => exact hslow i j (mem_places.mp (h.subset i hi)) hp hj

theorem BurstController.ranksFastest {stunList : StunList n} {σ : Equiv.Perm (Fin n)}
    (hsorted : SortedBy cmpRtt (stunList ∘ σ)) :
    RanksFastest (fun i ↦ (stunList i).rttMs) (answered stunList)
      ((printed (stunList ∘ σ)).map σ) := by
  refine (ranksFastest_iff_isTop (fun i hi ↦ of_decide_eq_true hi)
    fun i j _ hj hnonneg ↦ absurd hnonneg (of_decide_eq_false hj)).mpr ?_
  have htop : IsTop ((fun i ↦ (stunList i).rttMs) ∘ σ) 5 (places (answered stunList ∘ σ))
      (printed (stunList ∘ σ)) := by
    refine (isTop_takeWhere_iff _).mpr fun i j hij hi hj _ ↦ ?_
    have hcmp := hsorted i j hij.le
    exact (cmpRtt_le_iff_of_nonneg (of_decide_eq_true hi) (of_decide_eq_true hj)).mp hcmp
  exact htop.map σ.injective (places_comp_perm _ σ)

theorem EpollBurst.ranksFastest_iff {stunList : EpollBurst.EpollList n} :
    RanksFastest (fun i ↦ (stunList i).rttMs) (inTime stunList) (printed stunList)
      ↔ ∀ i j, i < j → inTime stunList i = true → inTime stunList j = true →
        placesBefore (inTime stunList) i < 5 → (stunList i).rttMs ≤ (stunList j).rttMs := by
  have hrtt {i : Fin n} (hi : inTime stunList i = true) :
      0 ≤ (stunList i).rttMs ∧ (stunList i).rttMs < timeLimitMs := of_decide_eq_true hi
  refine (ranksFastest_iff_isTop (fun i hi ↦ (hrtt hi).1) fun i j hi hj hnonneg ↦ ?_).trans
    (isTop_takeWhere_iff _)
  -- a server answered too late is slower than any answered in time
  have hlate : ¬(stunList j).rttMs < timeLimitMs := fun hlt ↦
    of_decide_eq_false hj ⟨hnonneg, hlt⟩
  exact ((hrtt hi).2.trans_le (Int.not_lt.mp hlate)).le

/-- **The ranking law of the two programs**, for tables with the same round-trip times. -/
structure RanksTable (stunList : EpollBurst.EpollList n) : Prop where
  epollBurst : RanksFastest (fun i ↦ (stunList i).rttMs) (EpollBurst.inTime stunList)
    (EpollBurst.printed stunList)
  burstController : ∀ (ctxs : StunList n) (σ : Equiv.Perm (Fin n)),
    (∀ i, (ctxs i).rttMs = (stunList i).rttMs) → SortedBy cmpRtt (ctxs ∘ σ) →
      RanksFastest (fun i ↦ (stunList i).rttMs) (BurstController.answered ctxs)
        ((BurstController.printed (ctxs ∘ σ)).map σ)

/-- **When the ranking law holds of a table.** Exactly if no server answered in time, with fewer
than five such servers in front of it, is slower than a later one. -/
theorem ranksTable_iff (stunList : EpollBurst.EpollList n) : RanksTable stunList
    ↔ ∀ i j, i < j → EpollBurst.inTime stunList i = true → EpollBurst.inTime stunList j = true →
      placesBefore (EpollBurst.inTime stunList) i < 5 →
        (stunList i).rttMs ≤ (stunList j).rttMs := by
  refine ⟨fun h ↦ EpollBurst.ranksFastest_iff.mp h.epollBurst,
    fun h ↦ ⟨EpollBurst.ranksFastest_iff.mpr h, fun ctxs σ hsame hsorted ↦ ?_⟩⟩
  have hrtt : (fun i ↦ (stunList i).rttMs) = fun i ↦ (ctxs i).rttMs := funext fun i ↦ (hsame i).symm
  rw [hrtt]
  exact BurstController.ranksFastest hsorted

end

/-! ## The second server replies first -/

def bareResponse (transactionId : Vector UInt8 12) : Datagram :=
  [0x01, 0x01, 0x00, 0x00, 0x21, 0x12, 0xA4, 0x42] ++ transactionId.toList

/-- A wakeup with one message, so many nanoseconds after the start. -/
def messageAt (tvNsec : Fin 1000000000) (d : Datagram) : Wakeup where
  msgs := [d]
  now := .reading 0 tvNsec
  cur := .reading 0 tvNsec
  length_le := Nat.le_add_left 1 63

/-- Two servers, of which the second replies after 10 ms and the first after 20 ms. -/
def secondFirst : EpollBurst.Run 2 where
  servers := ![("stun.voipbuster.com", ⟨0x960D, 0x0100007F⟩),
    ("stun.voipstunt.com", ⟨0x960D, 0x0200007F⟩)]
  count_le := by decide
  order := [0, 1]
  perm := by decide
  input :=
    { transactionIds := ![Vector.replicate 12 1, Vector.replicate 12 2]
      sendTimes := fun _ ↦ .reading 0 0
      start := .reading 0 0
      wakeups := [messageAt 10000000 (bareResponse (Vector.replicate 12 2)),
        messageAt 20000000 (bareResponse (Vector.replicate 12 1)),
        .idle (.reading 0 100000000) (.reading 0 100000000)]
      stale := fun _ ↦ 0 }
  clock := by decide

/-- **The slower server is printed first.** -/
theorem secondFirst_not_ranked :
    ¬∀ (n : ℕ) (R : EpollBurst.Run n), RanksTable R.table := by
  intro h
  have hascending := (h 2 secondFirst).epollBurst.ascending
  have hprinted : EpollBurst.printed secondFirst.table = [0, 1] := by decide +kernel
  have hrtt : (secondFirst.table 0).rttMs = 20 ∧ (secondFirst.table 1).rttMs = 10 := by
    decide +kernel
  rw [hprinted, List.pairwise_pair, hrtt.1, hrtt.2] at hascending
  exact absurd hascending (by decide)

end NatGhost
