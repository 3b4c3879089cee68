import Mathlib.Tactic.Ring
import NatGhost.Stun.ArrivalOrder
import NatGhost.Stun.Ranking

/-!
# Milliseconds

`burst_receive` computes milliseconds in two places from two clock readings, always by the same
expression (`Timespec.elapsedMs`): the round-trip time stored for a server, and the time already
spent, from which the next timeout of `epoll_wait` is made. The expression divides the difference of
the `tv_nsec` fields, and the C division truncates toward zero.

## The direction of the rounding

If the `tv_nsec` field of the later reading is the greater one, the quotient is rounded down, and so
is the result. If it is the smaller one, because a second began between the readings, the negative
difference is rounded *up*, and so is the result. Both roundings are monotone, but they are mixed:
of two servers that answer within the same millisecond the faster one is stored as slower if its
reply crosses the beginning of a second and the other one's does not. That is the only way in which
the order is lost (`RoundedPast`).

## What does not depend on the direction

Neither rounding goes below zero. So an answered server never has the sentinel `-1`, and a timeout
is never 0 or negative, as the loop is left when the elapsed milliseconds reach the limit.
-/

namespace NatGhost

namespace Timespec

/-! ## Rounding -/

def nanosSince (later earlier : Timespec) : ℤ := later.nanos - earlier.nanos

/-- The `tv_nsec` field has gone down, because a second began in between. -/
def Borrows (later earlier : Timespec) : Prop := later.tvNsec < earlier.tvNsec

instance (later earlier : Timespec) : Decidable (later.Borrows earlier) :=
  inferInstanceAs (Decidable (_ < _))

theorem nanosSince_eq (later earlier : Timespec) :
    later.nanosSince earlier
      = (later.tvNsec - earlier.tvNsec) + (later.tvSec - earlier.tvSec) * 1000 * 1000000 := by
  rw [nanosSince, nanos, nanos]
  ring

theorem elapsedMs_of_not_borrows {later earlier : Timespec} (h : ¬later.Borrows earlier) :
    elapsedMs later earlier = later.nanosSince earlier / 1000000 := by
  have hnonneg : 0 ≤ later.tvNsec - earlier.tvNsec := Int.sub_nonneg_of_le (Int.not_lt.mp h)
  rw [elapsedMs, nanosSince_eq, Int.add_mul_ediv_right _ _ (by norm_num),
    Int.tdiv_eq_ediv_of_nonneg hnonneg, Int.add_comm]

theorem elapsedMs_of_borrows {later earlier : Timespec} (h : later.Borrows earlier) :
    elapsedMs later earlier = -(-later.nanosSince earlier / 1000000) := by
  have hnonneg : 0 ≤ earlier.tvNsec - later.tvNsec := Int.sub_nonneg_of_le (Int.le_of_lt h)
  have hneg : later.tvNsec - earlier.tvNsec = -(earlier.tvNsec - later.tvNsec) := by ring
  have hsplit : -later.nanosSince earlier
      = (earlier.tvNsec - later.tvNsec) + (earlier.tvSec - later.tvSec) * 1000 * 1000000 := by
    rw [nanosSince_eq]
    ring
  rw [elapsedMs, hsplit, Int.add_mul_ediv_right _ _ (by norm_num), hneg, Int.neg_tdiv,
    Int.tdiv_eq_ediv_of_nonneg hnonneg]
  ring

theorem elapsedMs_bounds (later earlier : Timespec) :
    (elapsedMs later earlier - 1) * 1000000 < later.nanosSince earlier ∧
      later.nanosSince earlier < (elapsedMs later earlier + 1) * 1000000 := by
  by_cases h : later.Borrows earlier
  · rw [elapsedMs_of_borrows h]
    omega
  · rw [elapsedMs_of_not_borrows h]
    omega

/-- The faster of two measurements is rounded past the slower one: both lie within one millisecond,
the faster one is rounded up and the slower one down. -/
structure RoundedPast (later₁ earlier₁ later₂ earlier₂ : Timespec) : Prop where
  faster : later₁.nanosSince earlier₁ < later₂.nanosSince earlier₂
  up : later₁.Borrows earlier₁
  down : ¬later₂.Borrows earlier₂
  within : later₁.nanosSince earlier₁ / 1000000 = later₂.nanosSince earlier₂ / 1000000
  /-- There is something to round. -/
  fraction : ¬(1000000 : ℤ) ∣ later₁.nanosSince earlier₁

/-- **Where the order of two measurements is lost.** -/
theorem elapsedMs_le_iff {later₁ earlier₁ later₂ earlier₂ : Timespec}
    (hfaster : later₁.nanosSince earlier₁ < later₂.nanosSince earlier₂) :
    elapsedMs later₁ earlier₁ ≤ elapsedMs later₂ earlier₂
      ↔ ¬RoundedPast later₁ earlier₁ later₂ earlier₂ := by
  constructor
  · rintro hle ⟨-, hup, hdown, hwithin, hfraction⟩
    rw [elapsedMs_of_borrows hup, elapsedMs_of_not_borrows hdown] at hle
    omega
  · intro h
    by_cases hup : later₁.Borrows earlier₁
    · by_cases hdown : later₂.Borrows earlier₂
      · rw [elapsedMs_of_borrows hup, elapsedMs_of_borrows hdown]
        omega
      · rw [elapsedMs_of_borrows hup, elapsedMs_of_not_borrows hdown]
        have hcases : later₁.nanosSince earlier₁ / 1000000 ≠ later₂.nanosSince earlier₂ / 1000000 ∨
            (1000000 : ℤ) ∣ later₁.nanosSince earlier₁ := by
          by_contra hneither
          rw [not_or, not_not] at hneither
          exact h ⟨hfaster, hup, hdown, hneither.1, hneither.2⟩
        omega
    · rw [elapsedMs_of_not_borrows hup]
      refine Int.le_trans (Int.ediv_le_ediv (by norm_num) (Int.le_of_lt hfaster)) ?_
      by_cases hdown : later₂.Borrows earlier₂
      · rw [elapsedMs_of_borrows hdown]
        omega
      · rw [elapsedMs_of_not_borrows hdown]

end Timespec

variable {n : ℕ}

/-! ## Stored round-trip times -/

/-- The time that really passed between the request of an entry and the reading of a reply to it. -/
def StunCtx.nanosUntil (ctx : StunCtx) (v : Delivery) : ℤ := v.now.nanosSince ctx.sendTime

theorem rttMs_storeReply (stunList : StunList n) (v : Delivery) (k : Fin n) :
    (storeReply stunList v k k).rttMs = Timespec.elapsedMs v.now (stunList k).sendTime := by
  rw [storeReply, Function.update_self]

/-- Two answered entries are ranked by the times their servers took: the stored times respect the
order, and where they differ the faster server comes first. -/
def RankedByTime (a b : StunCtx) (nanosA nanosB : ℤ) : Prop :=
  nanosA < nanosB → a.rttMs ≤ b.rttMs ∧ (a.rttMs ≠ b.rttMs → cmpRtt a b < 0)

theorem rankedByTime_iff {a b : StunCtx} {nanosA nanosB : ℤ} (ha : 0 ≤ a.rttMs) (hb : 0 ≤ b.rttMs) :
    RankedByTime a b nanosA nanosB ↔ (nanosA < nanosB → a.rttMs ≤ b.rttMs) := by
  refine ⟨fun h hlt ↦ (h hlt).1, fun h hlt ↦ ⟨h hlt, fun hne ↦ ?_⟩⟩
  have hless : a.rttMs < b.rttMs := lt_of_le_of_ne (h hlt) hne
  rw [cmpRtt, if_neg fun hneg ↦ absurd hneg.1 (Int.not_lt.mpr ha), if_neg (Int.not_lt.mpr ha),
    if_neg (Int.not_lt.mpr hb), if_neg (Int.not_lt.mpr (Int.le_of_lt hless)), if_pos hless]
  decide

/-- **When two servers are ranked by the times they took.** Two replies, each read no earlier than
its request was sent, are ranked in the order of the true times exactly when the faster one is not
rounded past the slower one. -/
theorem storedTimes_ranked_iff (stunList₁ stunList₂ : StunList n) (v₁ v₂ : Delivery) (k₁ k₂ : Fin n)
    (h₁ : (stunList₁ k₁).sendTime ≤ v₁.now) (h₂ : (stunList₂ k₂).sendTime ≤ v₂.now) :
    RankedByTime (storeReply stunList₁ v₁ k₁ k₁) (storeReply stunList₂ v₂ k₂ k₂)
        ((stunList₁ k₁).nanosUntil v₁) ((stunList₂ k₂).nanosUntil v₂)
      ↔ ¬Timespec.RoundedPast v₁.now (stunList₁ k₁).sendTime v₂.now (stunList₂ k₂).sendTime := by
  have hrtt₁ := Timespec.elapsedMs_nonneg h₁
  have hrtt₂ := Timespec.elapsedMs_nonneg h₂
  rw [← rttMs_storeReply] at hrtt₁ hrtt₂
  rw [rankedByTime_iff hrtt₁ hrtt₂, rttMs_storeReply, rttMs_storeReply]
  constructor
  · intro h hpast
    exact (Timespec.elapsedMs_le_iff hpast.faster).mp (h hpast.faster) hpast
  · intro h hfaster
    exact (Timespec.elapsedMs_le_iff hfaster).mpr h

/-- A server whose request was sent at this time. -/
def serverSentAt (sendTime : Timespec) : StunList 1 := fun _ ↦
  { host := "stun.ekiga.net", ipStr := "198.51.100.1", port := 3478, addr := ⟨3478, 1⟩,
    transactionId := Vector.replicate 12 0, sendTime := sendTime, rttMs := -1, publicIp := "",
    publicPort := 0 }

/-- A bare Binding Response read at this time. -/
def responseReadAt (now : Timespec) : Delivery where
  bufs := fun _ ↦ 0
  slot := 0
  len := 20
  now := now

theorem storedTimes_ranked_plain :
    RankedByTime
      (storeReply (serverSentAt (.reading 3 0)) (responseReadAt (.reading 3 500000)) 0 0)
      (storeReply (serverSentAt (.reading 3 0)) (responseReadAt (.reading 3 7000000)) 0 0)
      ((serverSentAt (.reading 3 0) 0).nanosUntil (responseReadAt (.reading 3 500000)))
      ((serverSentAt (.reading 3 0) 0).nanosUntil (responseReadAt (.reading 3 7000000))) :=
  (storedTimes_ranked_iff _ _ _ _ 0 0 (by decide) (by decide)).mpr fun h ↦
    absurd h.within (by decide)

/-- Half a millisecond across the beginning of a second is stored as 1, nine tenths within a second
as 0. -/
theorem fasterServer_is_ranked_behind :
    ¬RankedByTime
      (storeReply (serverSentAt (.reading 0 999600000)) (responseReadAt (.reading 1 100000)) 0 0)
      (storeReply (serverSentAt (.reading 0 0)) (responseReadAt (.reading 0 900000)) 0 0)
      ((serverSentAt (.reading 0 999600000) 0).nanosUntil (responseReadAt (.reading 1 100000)))
      ((serverSentAt (.reading 0 0) 0).nanosUntil (responseReadAt (.reading 0 900000))) := by
  intro h
  exact absurd (h (by decide)).1 (by decide)

/-! ## Timeouts -/

/-- The timeouts passed to `epoll_wait`: one for each turn that is taken, and one for the call still
pending when the wakeups end before the deadline. -/
def epollTimeouts (start : Timespec) (timeout : ℤ) : List Wakeup → List ℤ
  | [] => [timeout]
  | w :: ws =>
    timeout ::
      if Timespec.elapsedMs w.cur start ≥ timeLimitMs then []
      else epollTimeouts start (timeLimitMs - Timespec.elapsedMs w.cur start) ws

/-- `int timeout = TIME_LIMIT_MS` before the loop. -/
def BurstInput.timeouts (input : BurstInput n) : List ℤ :=
  epollTimeouts input.start timeLimitMs input.wakeups

theorem timeout_bounds {start cur : Timespec} (hclock : start ≤ cur)
    (hearly : ¬Timespec.elapsedMs cur start ≥ timeLimitMs) :
    1 ≤ timeLimitMs - Timespec.elapsedMs cur start ∧
      timeLimitMs - Timespec.elapsedMs cur start ≤ timeLimitMs := by
  have hnonneg := Timespec.elapsedMs_nonneg hclock
  constructor <;> omega

theorem epollTimeouts_bounds {start : Timespec} {ws : List Wakeup}
    (hclock : ∀ w ∈ takenWakeups start ws, start ≤ w.cur) {timeout : ℤ}
    (htimeout : 1 ≤ timeout ∧ timeout ≤ timeLimitMs) :
    ∀ t ∈ epollTimeouts start timeout ws, 1 ≤ t ∧ t ≤ timeLimitMs := by
  induction ws generalizing timeout with
  | nil =>
    intro t ht
    rw [epollTimeouts, List.mem_singleton] at ht
    rwa [ht]
  | cons w ws ih =>
    intro t ht
    rw [epollTimeouts] at ht
    rw [takenWakeups] at hclock
    rcases List.mem_cons.mp ht with rfl | ht
    · exact htimeout
    · split_ifs at ht hclock with hdeadline
      · exact absurd ht List.not_mem_nil
      · have hw : start ≤ w.cur := hclock w List.mem_cons_self
        exact ih (fun w' hw' ↦ hclock w' (List.mem_cons_of_mem w hw'))
          (timeout_bounds hw hdeadline) t ht

theorem BurstInput.start_le {input : BurstInput n} (hclock : input.readings.Pairwise (· ≤ ·))
    {w : Wakeup} (hw : w ∈ takenWakeups input.start input.wakeups) :
    input.start ≤ w.now ∧ input.start ≤ w.cur := by
  rw [readings, List.pairwise_cons] at hclock
  constructor
  · exact hclock.1 _ (List.mem_flatMap.mpr ⟨w, hw, by simp⟩)
  · exact hclock.1 _ (List.mem_flatMap.mpr ⟨w, hw, by simp⟩)

/-! ## Stored times and the sentinel -/

/-- The message is stored in entry `k`. -/
def Stores (targets : List (Fin n)) (stunList : StunList n) (v : Delivery) (k : Fin n) : Prop :=
  stunPktLen ≤ v.len ∧ matchTarget stunList v targets = some k

theorem receiveMessage_of_stores {targets : List (Fin n)} {stunList : StunList n} {v : Delivery}
    {k : Fin n} (h : Stores targets stunList v k) :
    receiveMessage targets stunList v k
      = (stunList k).replied (Timespec.elapsedMs v.now (stunList k).sendTime)
          (v.parse (stunList k).mapped).2 := by
  rw [receiveMessage_apply]
  exact if_pos h

theorem receiveMessage_of_not_stores {targets : List (Fin n)} {stunList : StunList n} {v : Delivery}
    {k : Fin n} (h : ¬Stores targets stunList v k) :
    receiveMessage targets stunList v k = stunList k := by
  rw [receiveMessage_apply]
  exact if_neg h

/-- A table on the way through a burst: the targets keep the send times that the burst found, and an
entry differs from what the burst found only in having a real round-trip time. -/
structure BurstInv (targets : List (Fin n)) (initial stunList : StunList n) : Prop where
  sendTime : ∀ k ∈ targets, (stunList k).sendTime = (initial k).sendTime
  rtt : ∀ k, (stunList k).rttMs = (initial k).rttMs ∨ 0 ≤ (stunList k).rttMs

theorem BurstInv.stored {targets : List (Fin n)} {initial stunList : StunList n}
    (h : BurstInv targets initial stunList) {v : Delivery}
    (hsent : ∀ k ∈ targets, (initial k).sendTime ≤ v.now) {k : Fin n}
    (hk : Stores targets stunList v k) :
    0 ≤ (receiveMessage targets stunList v k).rttMs := by
  have hmem := (matchTarget_some hk.2).1
  rw [receiveMessage_of_stores hk]
  refine Timespec.elapsedMs_nonneg ?_
  rw [h.sendTime k hmem]
  exact hsent k hmem

theorem BurstInv.receiveMessage {targets : List (Fin n)} {initial stunList : StunList n}
    (h : BurstInv targets initial stunList) {v : Delivery}
    (hsent : ∀ k ∈ targets, (initial k).sendTime ≤ v.now) :
    BurstInv targets initial (receiveMessage targets stunList v) where
  sendTime k hk := by rw [(receiveMessage_frame targets stunList v k).2, h.sendTime k hk]
  rtt k := by
    by_cases hstores : Stores targets stunList v k
    · exact Or.inr (h.stored hsent hstores)
    · rw [receiveMessage_of_not_stores hstores]
      exact h.rtt k

theorem burstReceive_eq_of_answered {targets : List (Fin n)} {input : BurstInput n}
    {stunList : StunList n} {x : StunList n × Delivery}
    (hx : x ∈ visits (receiveMessage targets) stunList input.deliveries) {k : Fin n}
    (hk : (receiveMessage targets x.1 x.2 k).Answered) :
    burstReceive targets input stunList k = receiveMessage targets x.1 x.2 k := by
  obtain ⟨before, after, hsplit, hstate⟩ := exists_split_of_mem_visits hx
  rw [burstReceive_eq_foldl, hsplit, List.foldl_append, List.foldl_cons, ← hstate]
  refine foldl_invariant (fun st : StunList n ↦ st k = receiveMessage targets x.1 x.2 k) rfl
    fun st v _ hst ↦ ?_
  have hanswered : (st k).Answered := by rwa [hst]
  rw [receiveMessage_of_not (Or.inr hanswered) v, hst]

theorem BurstInput.start_le_of_mem_deliveries {input : BurstInput n}
    (hclock : input.readings.Pairwise (· ≤ ·)) {v : Delivery} (hv : v ∈ input.deliveries) :
    input.start ≤ v.now := by
  obtain ⟨w, hw, hnow, -⟩ := exists_of_mem_batchDeliveries hv
  rw [hnow]
  exact (start_le hclock hw).1

/-- **The invariant of a burst**, at every message and at the end. -/
theorem burstInv {targets : List (Fin n)} {input : BurstInput n} {stunList : StunList n}
    (hsent : ∀ k ∈ targets, (stunList k).sendTime ≤ input.start)
    (hclock : input.readings.Pairwise (· ≤ ·)) :
    (∀ x ∈ visits (receiveMessage targets) stunList input.deliveries,
        BurstInv targets stunList x.1) ∧
      BurstInv targets stunList (burstReceive targets input stunList) := by
  rw [burstReceive_eq_foldl]
  have hinitial : BurstInv targets stunList stunList := ⟨fun _ _ ↦ rfl, fun _ ↦ Or.inl rfl⟩
  refine run_invariant _ _ _ hinitial fun x hx hinv ↦ hinv.receiveMessage fun k hk ↦ ?_
  exact (hsent k hk).trans (BurstInput.start_le_of_mem_deliveries hclock (mem_of_mem_visits hx))

/-- **A burst never stores a negative time and never waits for ever.** When the targets' requests
were sent before the receive loop began and the clock does not go back, then in every turn the
stored round-trip time is not negative, every entry ends with the time it had or with one that is
not negative, and every timeout given to `epoll_wait` lies between 1 and the limit. -/
theorem burstReceive_timing (targets : List (Fin n)) (input : BurstInput n) (stunList : StunList n)
    (hsent : ∀ k ∈ targets, (stunList k).sendTime ≤ input.start)
    (hclock : input.readings.Pairwise (· ≤ ·)) :
    (∀ x ∈ visits (receiveMessage targets) stunList input.deliveries, ∀ k,
        Stores targets x.1 x.2 k →
          0 ≤ (receiveMessage targets x.1 x.2 k).rttMs ∧
            burstReceive targets input stunList k = receiveMessage targets x.1 x.2 k) ∧
      (∀ k, (burstReceive targets input stunList k).rttMs = (stunList k).rttMs ∨
        0 ≤ (burstReceive targets input stunList k).rttMs) ∧
      ∀ t ∈ input.timeouts, 1 ≤ t ∧ t ≤ timeLimitMs := by
  obtain ⟨hvisits, hend⟩ := burstInv hsent hclock
  refine ⟨fun x hx k hk ↦ ?_, hend.rtt, ?_⟩
  · have hread := BurstInput.start_le_of_mem_deliveries hclock (mem_of_mem_visits hx)
    have hstored : 0 ≤ (receiveMessage targets x.1 x.2 k).rttMs :=
      (hvisits x hx).stored (fun j hj ↦ (hsent j hj).trans hread) hk
    refine ⟨hstored, burstReceive_eq_of_answered hx fun hsentinel ↦ ?_⟩
    omega
  · exact epollTimeouts_bounds (fun w hw ↦ (BurstInput.start_le hclock hw).2) (by decide)

/-- A burst across the beginning of a second: an idle turn, a turn with a reply, and one at the
deadline. -/
def secondCrossing : BurstInput 1 where
  transactionIds := fun _ ↦ Vector.replicate 12 0
  sendTimes := fun _ ↦ .reading 0 999500000
  start := .reading 0 999600000
  wakeups :=
    [.idle (.reading 1 0) (.reading 1 100000),
      { msgs := [List.replicate 20 0], now := .reading 1 200000, cur := .reading 1 300000 },
      .idle (.reading 1 200000000) (.reading 1 200000000)]
  stale := fun _ ↦ 0

theorem burstReceive_timing_secondCrossing :
    (∀ k, (burstReceive [0] secondCrossing (serverSentAt (.reading 0 999500000)) k).rttMs = -1 ∨
        0 ≤ (burstReceive [0] secondCrossing (serverSentAt (.reading 0 999500000)) k).rttMs) ∧
      ∀ t ∈ secondCrossing.timeouts, 1 ≤ t ∧ t ≤ timeLimitMs :=
  (burstReceive_timing [0] secondCrossing (serverSentAt (.reading 0 999500000)) (by decide)
    (by decide)).2

end NatGhost
