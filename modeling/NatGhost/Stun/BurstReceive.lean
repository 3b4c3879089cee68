import NatGhost.Foundation.Visits
import NatGhost.Stun.Context
import NatGhost.Stun.ReadBounds

/-!
# The receive loop

`burst_receive` waits for datagrams until a deadline, takes them from the socket in batches of at
most 64, and hands each to the first waiting target whose transaction id it carries. The 64 receive
buffers lie one behind the other in one array and are reused from batch to batch, so a buffer holds
the bytes of the datagram received last, then whatever an earlier, longer one left there, then the
next buffer. They are modelled as one memory, with buffer `m` at address `512 * m`.

## Two views of a burst

The model of the source is `burstReceive`: nested loops over wakeups, messages of a batch, and
targets. Everything proved about it goes through a flat view. What arrives does not depend on the
table, so a burst is a list of *deliveries*, each a filled buffer with its length and the clock
reading of its batch, and the table is the fold of `receiveMessage` over them
(`burstReceive_eq_foldl`). One delivery changes at most one entry, and `receiveMessage_apply` says
how.
-/

namespace NatGhost

open ReadTree

/-- `BATCH_SIZE`. -/
def batchSize : ℕ := 64

/-- `sizeof(bufs[i])`. -/
def bufSize : ℕ := 512

/-- `TIME_LIMIT_MS`. -/
def timeLimitMs : ℤ := 100

/-! ## Datagrams and buffers -/

/-- A datagram as it was sent. -/
abbrev Datagram := List UInt8

/-- What `recvmmsg` puts into a buffer: the datagram, cut off at the size of the buffer. -/
def received (d : Datagram) : List UInt8 := d.take bufSize

/-- `msgs[m].msg_len`. -/
def msgLen (d : Datagram) : ℕ := (received d).length

/-- The datagram is long enough to carry a transaction id and carries this one. -/
def Bears (d : Datagram) (transactionId : Vector UInt8 12) : Prop :=
  stunPktLen ≤ d.length ∧ (d.drop 8).take 12 = transactionId.toList

instance (d : Datagram) (transactionId : Vector UInt8 12) : Decidable (Bears d transactionId) :=
  inferInstanceAs (Decidable (_ ∧ _))

/-- A memory with what is received of a datagram at address 0, and zeros behind it. -/
def buffered (d : Datagram) : ℕ → UInt8 := overlay 0 (received d) fun _ ↦ 0

/-- The receive buffers after `recvmmsg` has delivered `msgs`: message `m` is copied to `bufs[m]`,
and all other bytes stay. -/
def recvmmsg (msgs : List Datagram) (bufs : ℕ → UInt8) : ℕ → UInt8 := fun a ↦
  match msgs[a / bufSize]? with
  | some d => (received d).getD (a % bufSize) (bufs a)
  | none => bufs a

/-- The `n` bytes at address `a`. -/
def bytesAt (mem : ℕ → UInt8) (a n : ℕ) : List UInt8 := (List.range n).map fun i ↦ mem (a + i)

/-! ## One message -/

/-- A message to be handled: the buffers as they are then, the buffer it is in, its length, and the
clock reading of its batch. -/
structure Delivery where
  bufs : ℕ → UInt8
  slot : ℕ
  len : ℕ
  now : Timespec

def Delivery.buf (v : Delivery) : ℕ := bufSize * v.slot

/-- `memcmp(tid, transaction_id, 12) == 0`. -/
def Delivery.Carries (v : Delivery) (transactionId : Vector UInt8 12) : Prop :=
  bytesAt v.bufs (v.buf + 8) 12 = transactionId.toList

instance (v : Delivery) (transactionId : Vector UInt8 12) : Decidable (v.Carries transactionId) :=
  inferInstanceAs (Decidable (_ = _))

/-- The parser's verdict on a message, given what the outputs hold before. -/
def Delivery.parse (v : Delivery) (out : MappedOut) : ℤ × MappedOut :=
  run v.bufs (parseXorMappedAddress v.buf v.len out)

def Delivery.IsOf (v : Delivery) (d : Datagram) : Prop :=
  v.len = msgLen d ∧ Holds v.bufs v.buf (received d)

variable {n : ℕ}

/-- The inner loop: the first target that is still waiting (`rtt_ms == -1`) and whose transaction id
the message carries. -/
def matchTarget (stunList : StunList n) (v : Delivery) (targets : List (Fin n)) :
    Option (Fin n) :=
  targets.find? fun k ↦
    decide ((stunList k).rttMs = -1) && decide (v.Carries (stunList k).transactionId)

/-- The body of the inner loop after a match: store the round-trip time, then let the parser write
to the public address. -/
def storeReply (stunList : StunList n) (v : Delivery) (k : Fin n) : StunList n :=
  let ms := Timespec.elapsedMs v.now (stunList k).sendTime
  let out := (v.parse (stunList k).mapped).2
  Function.update stunList k
    { stunList k with rttMs := ms, publicIp := out.outIp, publicPort := out.outPort }

/-- One turn of the loop over the messages of a batch. -/
def receiveMessage (targets : List (Fin n)) (stunList : StunList n) (v : Delivery) : StunList n :=
  if v.len < stunPktLen then stunList
  else match matchTarget stunList v targets with
    | none => stunList
    | some k => storeReply stunList v k

/-! ## The loops -/

/-- One return of `epoll_wait`: the messages `recvmmsg` then delivers, none if there was no event or
nothing to receive, and the two clock readings of this turn. -/
structure Wakeup where
  msgs : List Datagram
  now : Timespec
  cur : Timespec
  /-- `recvmmsg` is asked for at most `BATCH_SIZE` messages. -/
  length_le : msgs.length ≤ batchSize := by decide

def Wakeup.idle (now cur : Timespec) : Wakeup where
  msgs := []
  now := now
  cur := cur
  length_le := Nat.zero_le _

@[simp] theorem Wakeup.idle_msgs (now cur : Timespec) : (idle now cur).msgs = [] := rfl

@[simp] theorem Wakeup.idle_now (now cur : Timespec) : (idle now cur).now = now := rfl

@[simp] theorem Wakeup.idle_cur (now cur : Timespec) : (idle now cur).cur = cur := rfl

/-- The variables of `burst_receive` that outlive a turn. -/
structure Burst (n : ℕ) where
  stunList : StunList n
  bufs : ℕ → UInt8

def Wakeup.deliveries (w : Wakeup) (bufs : ℕ → UInt8) : List Delivery :=
  w.msgs.zipIdx.map fun dm ↦ ⟨recvmmsg w.msgs bufs, dm.2, msgLen dm.1, w.now⟩

/-- One turn of the `while` loop up to the deadline test. -/
def receiveBatch (targets : List (Fin n)) (s : Burst n) (w : Wakeup) : Burst n where
  stunList := (w.deliveries s.bufs).foldl (receiveMessage targets) s.stunList
  bufs := recvmmsg w.msgs s.bufs

/-- The `while` loop. It is left when a turn ends at or after the deadline; a list of wakeups that
ends before that is a run still in progress. The timeout given to `epoll_wait` only bounds how long
the kernel may take for the next wakeup. -/
def receiveLoop (targets : List (Fin n)) (start : Timespec) : List Wakeup → Burst n → Burst n
  | [], s => s
  | w :: ws, s =>
    if Timespec.elapsedMs w.cur start ≥ timeLimitMs then receiveBatch targets s w
    else receiveLoop targets start ws (receiveBatch targets s w)

/-- What the environment supplies to one burst: the ids and times of the requests, the clock reading
at the start of the receive loop, the wakeups, and the indeterminate content of the automatic
buffers. -/
structure BurstInput (n : ℕ) where
  transactionIds : Fin n → Vector UInt8 12
  sendTimes : Fin n → Timespec
  start : Timespec
  wakeups : List Wakeup
  stale : ℕ → UInt8

/-- `burst_receive`. -/
def burstReceive (targets : List (Fin n)) (input : BurstInput n) (stunList : StunList n) :
    StunList n :=
  (receiveLoop targets input.start input.wakeups ⟨stunList, input.stale⟩).stunList

/-! ## The flat view -/

/-- The turns that are taken: up to the first that reaches the deadline. -/
def takenWakeups (start : Timespec) : List Wakeup → List Wakeup
  | [] => []
  | w :: ws =>
    if Timespec.elapsedMs w.cur start ≥ timeLimitMs then [w] else w :: takenWakeups start ws

theorem mem_of_mem_takenWakeups {start : Timespec} {ws : List Wakeup} {w : Wakeup}
    (h : w ∈ takenWakeups start ws) : w ∈ ws := by
  induction ws with
  | nil => exact h
  | cons w' ws ih =>
    rw [takenWakeups] at h
    split_ifs at h
    · exact List.mem_cons.mpr (Or.inl (List.mem_singleton.mp h))
    · exact List.mem_cons.mpr ((List.mem_cons.mp h).imp_right ih)

/-- The messages of several batches one after the other; each batch overwrites the buffers. -/
def batchDeliveries : List Wakeup → (ℕ → UInt8) → List Delivery
  | [], _ => []
  | w :: ws, bufs => w.deliveries bufs ++ batchDeliveries ws (recvmmsg w.msgs bufs)

namespace BurstInput

variable (input : BurstInput n)

/-- The datagrams that arrive before the deadline, in order of arrival. -/
def delivered : List Datagram := (takenWakeups input.start input.wakeups).flatMap Wakeup.msgs

def deliveries : List Delivery :=
  batchDeliveries (takenWakeups input.start input.wakeups) input.stale

end BurstInput

theorem receiveLoop_stunList (targets : List (Fin n)) (start : Timespec) (ws : List Wakeup)
    (s : Burst n) :
    (receiveLoop targets start ws s).stunList
      = (batchDeliveries (takenWakeups start ws) s.bufs).foldl (receiveMessage targets)
          s.stunList := by
  induction ws generalizing s with
  | nil => rfl
  | cons w ws ih =>
    rw [receiveLoop, takenWakeups]
    split_ifs with hdeadline
    · rw [batchDeliveries, batchDeliveries, List.append_nil]
      rfl
    · rw [ih, batchDeliveries, List.foldl_append]
      rfl

/-- **A burst is a fold over its deliveries.** -/
theorem burstReceive_eq_foldl (targets : List (Fin n)) (input : BurstInput n)
    (stunList : StunList n) :
    burstReceive targets input stunList
      = input.deliveries.foldl (receiveMessage targets) stunList :=
  receiveLoop_stunList targets input.start input.wakeups ⟨stunList, input.stale⟩

/-! ## What is in the buffers -/

theorem length_received (d : Datagram) : (received d).length = min bufSize d.length :=
  List.length_take

theorem holds_recvmmsg {msgs : List Datagram} {m : ℕ} {d : Datagram} (h : msgs[m]? = some d)
    (bufs : ℕ → UInt8) : Holds (recvmmsg msgs bufs) (bufSize * m) (received d) := by
  intro i hi
  have hlt : i < bufSize := by rw [length_received] at hi; omega
  have hdiv : (bufSize * m + i) / bufSize = m := by
    rw [bufSize] at hlt ⊢
    omega
  have hmod : (bufSize * m + i) % bufSize = i := by
    rw [bufSize] at hlt ⊢
    omega
  rw [recvmmsg, hdiv, h, hmod]
  exact List.getD_eq_getElem _ _ hi

theorem exists_of_mem_batchDeliveries {ws : List Wakeup} {bufs : ℕ → UInt8} {v : Delivery}
    (h : v ∈ batchDeliveries ws bufs) :
    ∃ w ∈ ws, v.now = w.now ∧ ∃ d ∈ w.msgs, v.IsOf d := by
  induction ws generalizing bufs with
  | nil => exact absurd h List.not_mem_nil
  | cons w ws ih =>
    rw [batchDeliveries, List.mem_append] at h
    rcases h with h | h
    · rw [Wakeup.deliveries, List.mem_map] at h
      obtain ⟨⟨d, m⟩, hdm, rfl⟩ := h
      have hget : w.msgs[m]? = some d := List.mem_zipIdx_iff_getElem?.mp hdm
      exact ⟨w, List.mem_cons_self, rfl, d, List.mem_of_getElem? hget, rfl,
        holds_recvmmsg hget bufs⟩
    · obtain ⟨w', hw', hnow, hd⟩ := ih h
      exact ⟨w', List.mem_cons_of_mem w hw', hnow, hd⟩

theorem forall₂_deliveries (ws : List Wakeup) (bufs : ℕ → UInt8) :
    List.Forall₂ Delivery.IsOf (batchDeliveries ws bufs) (ws.flatMap Wakeup.msgs) := by
  induction ws generalizing bufs with
  | nil => exact .nil
  | cons w ws ih =>
    rw [batchDeliveries, List.flatMap_cons]
    refine List.rel_append ?_ (ih _)
    rw [List.forall₂_iff_get]
    refine ⟨by simp [Wakeup.deliveries], fun i h₁ h₂ ↦ ?_⟩
    have hget : w.msgs[i]? = some (w.msgs.get ⟨i, h₂⟩) := by simp
    have hdelivery : (w.deliveries bufs).get ⟨i, h₁⟩
        = ⟨recvmmsg w.msgs bufs, i, msgLen (w.msgs.get ⟨i, h₂⟩), w.now⟩ := by
      simp [Wakeup.deliveries]
    rw [hdelivery]
    exact ⟨rfl, holds_recvmmsg hget bufs⟩

/-! ## What one message changes -/

theorem matchTarget_some {stunList : StunList n} {v : Delivery} {targets : List (Fin n)}
    {k : Fin n} (h : matchTarget stunList v targets = some k) :
    k ∈ targets ∧ (stunList k).rttMs = -1 ∧ v.Carries (stunList k).transactionId := by
  have hp := List.find?_some h
  rw [Bool.and_eq_true, decide_eq_true_iff, decide_eq_true_iff] at hp
  exact ⟨List.mem_of_find?_eq_some h, hp⟩

/-- An entry after a reply has been stored in it. -/
def StunCtx.replied (ctx : StunCtx) (ms : ℤ) (out : MappedOut) : StunCtx :=
  { ctx with rttMs := ms, publicIp := out.outIp, publicPort := out.outPort }

/-- **What one message does to an entry**: nothing, unless it is long enough and the entry is the
first waiting target it matches; then round-trip time and public address are stored. -/
theorem receiveMessage_apply (targets : List (Fin n)) (stunList : StunList n) (v : Delivery)
    (k : Fin n) :
    receiveMessage targets stunList v k
      = if stunPktLen ≤ v.len ∧ matchTarget stunList v targets = some k then
          (stunList k).replied (Timespec.elapsedMs v.now (stunList k).sendTime)
            (v.parse (stunList k).mapped).2
        else stunList k := by
  rw [receiveMessage]
  by_cases hlen : v.len < stunPktLen
  · rw [if_pos hlen, if_neg fun h ↦ absurd h.1 (Nat.not_le.mpr hlen)]
  · rw [if_neg hlen]
    cases hmatch : matchTarget stunList v targets with
    | none => simp
    | some j =>
      by_cases hjk : k = j
      · subst hjk
        rw [if_pos ⟨Nat.not_lt.mp hlen, rfl⟩]
        exact Function.update_self ..
      · rw [if_neg fun h ↦ hjk (Option.some_injective _ h.2).symm]
        exact Function.update_of_ne hjk ..

theorem receiveMessage_frame (targets : List (Fin n)) (stunList : StunList n) (v : Delivery)
    (k : Fin n) :
    (receiveMessage targets stunList v k).transactionId = (stunList k).transactionId ∧
      (receiveMessage targets stunList v k).sendTime = (stunList k).sendTime := by
  rw [receiveMessage_apply]
  split_ifs
  · exact ⟨rfl, rfl⟩
  · exact ⟨rfl, rfl⟩

theorem receiveMessage_of_not {targets : List (Fin n)} {stunList : StunList n} {k : Fin n}
    (h : k ∉ targets ∨ (stunList k).Answered) (v : Delivery) :
    receiveMessage targets stunList v k = stunList k := by
  rw [receiveMessage_apply, if_neg]
  rintro ⟨-, hmatch⟩
  obtain ⟨hmem, hwaiting, -⟩ := matchTarget_some hmatch
  rcases h with h | h
  · exact h hmem
  · exact h hwaiting

theorem burstReceive_of_not {targets : List (Fin n)} {stunList : StunList n} {k : Fin n}
    (input : BurstInput n) (h : k ∉ targets ∨ (stunList k).Answered) :
    burstReceive targets input stunList k = stunList k := by
  rw [burstReceive_eq_foldl]
  refine foldl_invariant (fun st : StunList n ↦ st k = stunList k) rfl fun st v _ hst ↦ ?_
  have h' : k ∉ targets ∨ (st k).Answered := by rwa [hst]
  rw [receiveMessage_of_not h' v, hst]

end NatGhost
