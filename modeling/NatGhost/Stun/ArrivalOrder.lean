import Mathlib.Data.Finset.Order
import Mathlib.Data.Fintype.Basic
import NatGhost.Stun.BurstReceive

/-!
# Arrival order and batching

What a burst leaves in the table should depend on which datagrams arrive and not on their order or
on how `recvmmsg` groups them. `ArrivalLaw` says so for one table, one set of targets and one
collection of datagrams.

## One entry at a time

The targets have distinct transaction ids, so the search for the first matching target can be read
entry by entry: each entry folds `StunCtx.receive` over the deliveries on its own
(`foldl_receiveMessage_apply`). An entry accepts one message at most, and only one datagram bears
its id, so order can enter only through the parser.

## Where order enters

A datagram longer than a buffer is cut off, and if an announced address is cut off with it, the
parser reads on into the next buffer, where there is the next message of the batch or an old one. So
the law holds for a collection exactly when that happens to no datagram that bears the id of a
target.
-/

namespace NatGhost

open ReadTree

/-! ## The parser in another buffer -/

section Shift

variable (mem : ℕ → UInt8) (buf : ℕ)

theorem alenAt_add (attr : ℕ) :
    alenAt mem (buf + attr) = alenAt (fun a ↦ mem (buf + a)) attr := rfl

theorem mappedAt_add_iff (attr : ℕ) :
    MappedAt mem (buf + attr) ↔ MappedAt (fun a ↦ mem (buf + a)) attr := Iff.rfl

theorem addressAt_add (attr : ℕ) :
    addressAt mem (buf + attr) = addressAt (fun a ↦ mem (buf + a)) attr := rfl

theorem nextAttr_add (attr : ℕ) :
    nextAttr mem (buf + attr) = buf + nextAttr (fun a ↦ mem (buf + a)) attr := by
  rw [nextAttr, nextAttr, alenAt_add, Nat.add_assoc]

private theorem run_scan_add (stop : ℤ) (attr : ℕ) (out : MappedOut) :
    run mem (scanAttributes (buf + attr) (stop - attr) out)
      = run (fun a ↦ mem (buf + a)) (scanAttributes attr (stop - attr) out) := by
  induction attr using scan_induction (fun a ↦ mem (buf + a)) stop with
  | done attr hstop => rw [run_scan_stop hstop, run_scan_stop hstop]
  | step attr hremain ih =>
    by_cases hmapped : MappedAt (fun a ↦ mem (buf + a)) attr
    · rw [run_scan_mapped hremain hmapped,
        run_scan_mapped hremain ((mappedAt_add_iff mem buf attr).mpr hmapped), addressAt_add]
    · have hnext : stop - attr - skipLength (alenAt (fun a ↦ mem (buf + a)) attr)
          = stop - nextAttr (fun a ↦ mem (buf + a)) attr := by rw [nextAttr]; omega
      rw [run_scan_skip hremain hmapped,
        run_scan_skip hremain (mt (mappedAt_add_iff mem buf attr).mp hmapped), nextAttr_add,
        alenAt_add, hnext, ih]

theorem run_parse_add (len : ℤ) (out : MappedOut) :
    run mem (parseXorMappedAddress buf len out)
      = run (fun a ↦ mem (buf + a)) (parseXorMappedAddress 0 len out) := by
  rw [parseXorMappedAddress, parseXorMappedAddress]
  split_ifs with hshort
  · rfl
  · exact run_scan_add mem buf len 20 out

end Shift

/-! ## Messages and datagrams -/

/-- What the parser makes of the received part of a datagram by itself. -/
def decode (d : Datagram) (out : MappedOut) : ℤ × MappedOut :=
  run (buffered d) (parseXorMappedAddress 0 (msgLen d) out)

/-- No announced address is cut off at the end of what is received of the datagram. -/
def ReceivedWhole (d : Datagram) : Prop := NoTruncatedAddress (buffered d) 0 (msgLen d)

/-- Every attribute that the scan arrives at lies inside the datagram. -/
def AttributesInside (d : Datagram) : Prop :=
  ∀ p : ℕ, Scanned (overlay 0 d fun _ ↦ 0) d.length 20 p → p + 4 ≤ d.length →
    p + 4 + (alenAt (overlay 0 d fun _ ↦ 0) p).toNat ≤ d.length

theorem AttributesInside.receivedWhole {d : Datagram} (h : AttributesInside d)
    (hfits : d.length ≤ bufSize) : ReceivedWhole d := by
  have hall : received d = d := List.take_of_length_le hfits
  intro p hscanned hheader hannounce
  rw [buffered, msgLen, hall] at *
  have hinside := h p (by simpa using hscanned) (by omega)
  have height : 8 ≤ (alenAt (overlay 0 d fun _ ↦ 0) p).toNat :=
    UInt16.le_iff_toNat_le.mp hannounce.2
  exact ⟨by omega, fun _ ↦ by omega⟩

private theorem scanned_inside {mem : ℕ → UInt8} (attrs : List Attribute) {attr p : ℕ}
    (h : Holds mem attr (attrs.flatMap Attribute.encode))
    (hscanned : Scanned mem (attr + (attrs.flatMap Attribute.encode).length : ℕ) attr p)
    (hp : p + 4 ≤ attr + (attrs.flatMap Attribute.encode).length) :
    p + 4 + (alenAt mem p).toNat ≤ attr + (attrs.flatMap Attribute.encode).length := by
  induction attrs generalizing attr with
  | nil =>
    have hle := hscanned.le
    rw [List.flatMap_nil, List.length_nil] at hp
    omega
  | cons a attrs ih =>
    rw [List.flatMap_cons, holds_append_iff] at h
    rw [List.flatMap_cons, List.length_append, ← Nat.add_assoc] at hscanned hp ⊢
    cases hscanned with
    | refl =>
      rw [alenAt_of_holds h.1, a.toNat_alen, a.length_encode]
      omega
    | skip _ _ hnext =>
      rw [nextAttr, alenAt_of_holds h.1, skipLength_alen] at hnext
      exact ih h.2 hnext hp

theorem attributesInside_datagram (header : Vector UInt8 20) (attrs : List Attribute) :
    AttributesInside (datagram header attrs) := by
  intro p hscanned hp
  have hholds := (holds_append_iff.mp (holds_overlay 0 (datagram header attrs) fun _ ↦ 0)).2
  rw [Vector.length_toList, Nat.zero_add] at hholds
  rw [length_datagram] at hscanned hp ⊢
  exact scanned_inside attrs hholds hscanned hp

namespace Delivery

variable {v : Delivery} {d : Datagram}

theorem IsOf.agreeOn (h : v.IsOf d) :
    AgreeOn 0 (msgLen d) (buffered d) fun a ↦ v.bufs (v.buf + a) := by
  intro a _ ha
  have hlt : a < (received d).length := by rw [msgLen] at ha; omega
  have hbuffered := holds_overlay 0 (received d) (fun _ ↦ 0) a hlt
  rw [Nat.zero_add] at hbuffered
  change v.bufs (v.buf + a) = buffered d a
  rw [h.2 a hlt, buffered, hbuffered]

/-- **A message that is whole is parsed as its datagram is**, wherever it is and whatever is around
it. -/
theorem IsOf.parse (h : v.IsOf d) (hwhole : ReceivedWhole d) (out : MappedOut) :
    v.parse out = decode d out := by
  rw [Delivery.parse, h.1, run_parse_add]
  exact hwhole.readsInside.determinedByDatagram out _ h.agreeOn

theorem stunPktLen_le_msgLen_iff (d : Datagram) :
    stunPktLen ≤ msgLen d ↔ stunPktLen ≤ d.length := by
  rw [msgLen, length_received, stunPktLen, bufSize]
  omega

theorem IsOf.bears_iff (h : v.IsOf d) (transactionId : Vector UInt8 12) :
    stunPktLen ≤ v.len ∧ v.Carries transactionId ↔ Bears d transactionId := by
  rw [Bears, h.1, stunPktLen_le_msgLen_iff]
  refine and_congr_right fun hlen ↦ ?_
  have hreceived : 20 ≤ (received d).length := (stunPktLen_le_msgLen_iff d).mpr hlen
  have hbytes : bytesAt v.bufs (v.buf + 8) 12 = (d.drop 8).take 12 := by
    refine List.ext_getElem ?_ fun i hi _ ↦ ?_
    · rw [stunPktLen] at hlen
      simp [bytesAt]
      omega
    · have hi' : i < 12 := by simpa [bytesAt] using hi
      have := h.2 (8 + i) (by omega)
      simp [bytesAt, Nat.add_assoc, this, received]
  rw [Carries, hbytes]

end Delivery

/-! ## One entry -/

variable {n : ℕ}

/-- The targets are waiting, and no two of them have the same transaction id. -/
structure DistinctWaiting (targets : List (Fin n)) (stunList : StunList n) : Prop where
  waiting : ∀ k ∈ targets, (stunList k).rttMs = -1
  distinct : (targets.map fun k ↦ (stunList k).transactionId).Nodup

/-- What a message does to an entry of a target, looked at by itself. -/
def StunCtx.receive (ctx : StunCtx) (v : Delivery) : StunCtx :=
  if stunPktLen ≤ v.len ∧ ctx.rttMs = -1 ∧ v.Carries ctx.transactionId then
    ctx.replied (Timespec.elapsedMs v.now ctx.sendTime) (v.parse ctx.mapped).2
  else ctx

theorem StunCtx.answered_replied (ctx : StunCtx) {ms : ℤ} (hms : 0 ≤ ms) (out : MappedOut) :
    (ctx.replied ms out).Answered := by
  intro hsentinel
  change ms = -1 at hsentinel
  omega

theorem StunCtx.receive_of_answered {ctx : StunCtx} (h : ctx.Answered) (v : Delivery) :
    ctx.receive v = ctx := if_neg fun hv ↦ h hv.2.1

theorem foldl_receive_of_answered {ctx : StunCtx} (h : ctx.Answered) (vs : List Delivery) :
    vs.foldl StunCtx.receive ctx = ctx :=
  foldl_invariant (· = ctx) rfl fun ctx' v _ hctx ↦ by
    rw [hctx, StunCtx.receive_of_answered h]

theorem matchTarget_eq_some_iff {targets : List (Fin n)} {stunList : StunList n} {v : Delivery}
    {k : Fin n} (hdistinct : (targets.map fun k ↦ (stunList k).transactionId).Nodup)
    (hk : k ∈ targets) :
    matchTarget stunList v targets = some k ↔
      (stunList k).rttMs = -1 ∧ v.Carries (stunList k).transactionId := by
  constructor
  · intro h
    exact (matchTarget_some h).2
  · intro h
    cases hmatch : matchTarget stunList v targets with
    | none =>
      rw [matchTarget, List.find?_eq_none] at hmatch
      exact absurd (by simpa using h) (hmatch k hk)
    | some j =>
      obtain ⟨hj, -, hcarries⟩ := matchTarget_some hmatch
      have htid : (stunList j).transactionId = (stunList k).transactionId :=
        Vector.toList_inj.mp (hcarries.symm.trans h.2)
      rw [List.inj_on_of_nodup_map hdistinct hj hk htid]

theorem receiveMessage_eq_receive {targets : List (Fin n)} {stunList : StunList n} {k : Fin n}
    (hdistinct : (targets.map fun k ↦ (stunList k).transactionId).Nodup) (hk : k ∈ targets)
    (v : Delivery) : receiveMessage targets stunList v k = (stunList k).receive v := by
  rw [receiveMessage_apply, StunCtx.receive]
  simp only [matchTarget_eq_some_iff hdistinct hk]

/-- **A burst, entry by entry.** -/
theorem foldl_receiveMessage_apply {targets : List (Fin n)} {stunList : StunList n} {k : Fin n}
    (hdistinct : (targets.map fun k ↦ (stunList k).transactionId).Nodup) (hk : k ∈ targets)
    (vs : List Delivery) :
    vs.foldl (receiveMessage targets) stunList k = vs.foldl StunCtx.receive (stunList k) := by
  induction vs generalizing stunList with
  | nil => rfl
  | cons v vs ih =>
    have htids : (fun j ↦ (receiveMessage targets stunList v j).transactionId)
        = fun j ↦ (stunList j).transactionId :=
      funext fun j ↦ (receiveMessage_frame targets stunList v j).1
    rw [List.foldl_cons, List.foldl_cons, ih (by rw [htids]; exact hdistinct),
      receiveMessage_eq_receive hdistinct hk]

theorem foldl_receive_cases {ctx : StunCtx} {vs : List Delivery} (hwaiting : ctx.rttMs = -1)
    (hclock : ∀ v ∈ vs, ctx.sendTime ≤ v.now) :
    ((∀ v ∈ vs, ¬(stunPktLen ≤ v.len ∧ v.Carries ctx.transactionId)) ∧
        vs.foldl StunCtx.receive ctx = ctx) ∨
      ∃ v ∈ vs, (stunPktLen ≤ v.len ∧ v.Carries ctx.transactionId) ∧ ∃ ms, 0 ≤ ms ∧
        vs.foldl StunCtx.receive ctx = ctx.replied ms (v.parse ctx.mapped).2 := by
  induction vs with
  | nil => exact Or.inl ⟨fun v hv ↦ absurd hv List.not_mem_nil, rfl⟩
  | cons v vs ih =>
    rw [List.foldl_cons]
    by_cases hv : stunPktLen ≤ v.len ∧ v.Carries ctx.transactionId
    · have hms := Timespec.elapsedMs_nonneg (hclock v List.mem_cons_self)
      refine Or.inr ⟨v, List.mem_cons_self, hv, _, hms, ?_⟩
      rw [StunCtx.receive, if_pos ⟨hv.1, hwaiting, hv.2⟩]
      -- from here on the entry counts as answered
      exact foldl_receive_of_answered (ctx.answered_replied hms _) vs
    · rw [StunCtx.receive, if_neg fun h ↦ hv ⟨h.1, h.2.2⟩]
      rcases ih fun w hw ↦ hclock w (List.mem_cons_of_mem v hw) with ⟨hnone, heq⟩ | ⟨w, hw, hrest⟩
      · refine Or.inl ⟨fun w hw ↦ ?_, heq⟩
        rcases List.mem_cons.mp hw with rfl | hw
        · exact hv
        · exact hnone w hw
      · exact Or.inr ⟨w, List.mem_cons_of_mem v hw, hrest⟩

/-! ## The law -/

def BurstInput.readings (input : BurstInput n) : List Timespec :=
  input.start :: (takenWakeups input.start input.wakeups).flatMap fun w ↦ [w.now, w.cur]

/-- A complete burst, after the requests were sent, in which exactly these datagrams arrive before
the deadline, in some order and in some batches. -/
structure Receives (targets : List (Fin n)) (stunList : StunList n) (ds : List Datagram)
    (input : BurstInput n) : Prop where
  arrived : input.delivered.Perm ds
  finished : ∃ w ∈ input.wakeups, timeLimitMs ≤ Timespec.elapsedMs w.cur input.start
  clock : input.readings.Pairwise (· ≤ ·)
  requested : ∀ k ∈ targets, (stunList k).sendTime ≤ input.start

/-- An entry is as it was and no datagram bears its id, or it is a target and has been answered by
the datagram that does: round-trip time and public address are stored, and nothing else changes. -/
def AnsweredBy (targets : List (Fin n)) (ds : List Datagram) (k : Fin n) (before after : StunCtx) :
    Prop :=
  (after = before ∧ (k ∈ targets → ∀ d ∈ ds, ¬Bears d before.transactionId)) ∨
    k ∈ targets ∧ ∃ d ∈ ds, Bears d before.transactionId ∧ ∃ ms, 0 ≤ ms ∧
      after = before.replied ms (decode d before.mapped).2

/-- The datagrams that arrive decide what a burst does. -/
structure ArrivalLaw (targets : List (Fin n)) (stunList : StunList n) (ds : List Datagram) :
    Prop where
  /-- Two bursts answer the same servers, with the same addresses. -/
  order : ∀ input₁ input₂, Receives targets stunList ds input₁ →
    Receives targets stunList ds input₂ → ∀ k,
      ((burstReceive targets input₁ stunList k).Answered ↔
        (burstReceive targets input₂ stunList k).Answered) ∧
      (burstReceive targets input₁ stunList k).mapped
        = (burstReceive targets input₂ stunList k).mapped
  /-- A server is answered by the datagram with its id, or left alone. -/
  source : ∀ input, Receives targets stunList ds input → ∀ k,
    AnsweredBy targets ds k (stunList k) (burstReceive targets input stunList k)
  /-- A message changes one server at most. -/
  single : ∀ input, Receives targets stunList ds input →
    ∀ x ∈ visits (receiveMessage targets) stunList input.deliveries, ∀ j k,
      receiveMessage targets x.1 x.2 j ≠ x.1 j → receiveMessage targets x.1 x.2 k ≠ x.1 k → j = k

/-- Every datagram that bears the id of a target is received whole. -/
def RepliesWhole (targets : List (Fin n)) (stunList : StunList n) (ds : List Datagram) : Prop :=
  ∀ d ∈ ds, (∃ k ∈ targets, Bears d (stunList k).transactionId) → ReceivedWhole d

/-- At most one datagram bears the id of each target. -/
def RepliesUnique (targets : List (Fin n)) (stunList : StunList n) (ds : List Datagram) : Prop :=
  ∀ k ∈ targets, ds.countP (fun d ↦ decide (Bears d (stunList k).transactionId)) ≤ 1

section

variable {targets : List (Fin n)} {stunList : StunList n} {ds : List Datagram}
  {input : BurstInput n}

/-! ## Whole replies are enough -/

theorem RepliesUnique.eq (h : RepliesUnique targets stunList ds) {k : Fin n} (hk : k ∈ targets)
    {d d' : Datagram} (hd : d ∈ ds) (hd' : d' ∈ ds) (hbears : Bears d (stunList k).transactionId)
    (hbears' : Bears d' (stunList k).transactionId) : d = d' := by
  have hcount := h k hk
  rw [List.countP_eq_length_filter] at hcount
  have hmem : ∀ e ∈ ds, Bears e (stunList k).transactionId →
      e ∈ ds.filter fun d ↦ decide (Bears d (stunList k).transactionId) := fun e he hb ↦
    List.mem_filter.mpr ⟨he, decide_eq_true hb⟩
  obtain ⟨i, hi, rfl⟩ := List.mem_iff_getElem.mp (hmem d hd hbears)
  obtain ⟨j, hj, rfl⟩ := List.mem_iff_getElem.mp (hmem d' hd' hbears')
  congr 1
  omega

theorem receiveMessage_single (targets : List (Fin n)) (stunList : StunList n) (v : Delivery)
    {j k : Fin n} (hj : receiveMessage targets stunList v j ≠ stunList j)
    (hk : receiveMessage targets stunList v k ≠ stunList k) : j = k := by
  rw [receiveMessage_apply] at hj hk
  split_ifs at hj hk with hj' hk'
  · exact Option.some_injective _ (hj'.2.symm.trans hk'.2)
  · exact absurd rfl hk
  · exact absurd rfl hj
  · exact absurd rfl hj

theorem Receives.sendTime_le (h : Receives targets stunList ds input) {k : Fin n}
    (hk : k ∈ targets) : ∀ v ∈ input.deliveries, (stunList k).sendTime ≤ v.now := by
  intro v hv
  obtain ⟨w, hw, hnow, -⟩ := exists_of_mem_batchDeliveries hv
  have hstart : input.start ≤ w.now := (List.pairwise_cons.mp h.clock).1 _
    (List.mem_flatMap.mpr ⟨w, hw, List.mem_cons_self⟩)
  rw [hnow]
  exact le_trans (h.requested k hk) hstart

theorem Receives.exists_datagram (h : Receives targets stunList ds input) {v : Delivery}
    (hv : v ∈ input.deliveries) : ∃ d ∈ ds, v.IsOf d := by
  obtain ⟨w, hw, -, d, hd, hof⟩ := exists_of_mem_batchDeliveries hv
  exact ⟨d, h.arrived.subset (List.mem_flatMap.mpr ⟨w, hw, hd⟩), hof⟩

theorem Receives.exists_delivery (h : Receives targets stunList ds input) {d : Datagram}
    (hd : d ∈ ds) : ∃ v ∈ input.deliveries, v.IsOf d := by
  have hall := forall₂_deliveries (takenWakeups input.start input.wakeups) input.stale
  obtain ⟨hlength, hget⟩ := List.forall₂_iff_get.mp hall
  obtain ⟨⟨i, hi⟩, rfl⟩ := List.mem_iff_get.mp (h.arrived.symm.subset hd)
  exact ⟨_, List.get_mem _ ⟨i, hlength ▸ hi⟩, hget i _ hi⟩

/-- **What a burst does to an entry.** -/
theorem Receives.answeredBy (h : Receives targets stunList ds input)
    (hwaiting : DistinctWaiting targets stunList) (hwhole : RepliesWhole targets stunList ds)
    (k : Fin n) : AnsweredBy targets ds k (stunList k) (burstReceive targets input stunList k) := by
  by_cases hk : k ∈ targets
  · rw [burstReceive_eq_foldl, foldl_receiveMessage_apply hwaiting.distinct hk]
    rcases foldl_receive_cases (hwaiting.waiting k hk) (h.sendTime_le hk) with
      ⟨hnone, heq⟩ | ⟨v, hv, haccepts, ms, hms, heq⟩
    · refine Or.inl ⟨heq, fun _ d hd hbears ↦ ?_⟩
      obtain ⟨v, hv, hof⟩ := h.exists_delivery hd
      exact hnone v hv ((hof.bears_iff _).mpr hbears)
    · obtain ⟨d, hd, hof⟩ := h.exists_datagram hv
      have hbears := (hof.bears_iff _).mp haccepts
      refine Or.inr ⟨hk, d, hd, hbears, ms, hms, ?_⟩
      rw [heq, hof.parse (hwhole d hd ⟨k, hk, hbears⟩)]
  · exact Or.inl ⟨burstReceive_of_not input (Or.inl hk), fun hmem ↦ absurd hmem hk⟩

theorem arrivalLaw_of_repliesWhole (hwaiting : DistinctWaiting targets stunList)
    (hunique : RepliesUnique targets stunList ds) (hwhole : RepliesWhole targets stunList ds) :
    ArrivalLaw targets stunList ds where
  order input₁ input₂ h₁ h₂ k := by
    rcases h₁.answeredBy hwaiting hwhole k with ⟨heq₁, hno₁⟩ | ⟨hk, d₁, hd₁, hb₁, ms₁, hms₁, heq₁⟩
      <;> rcases h₂.answeredBy hwaiting hwhole k with
        ⟨heq₂, hno₂⟩ | ⟨hk', d₂, hd₂, hb₂, ms₂, hms₂, heq₂⟩
    · rw [heq₁, heq₂]
      exact ⟨Iff.rfl, rfl⟩
    · exact absurd hb₂ (hno₁ hk' d₂ hd₂)
    · exact absurd hb₁ (hno₂ hk d₁ hd₁)
    · rw [heq₁, heq₂, hunique.eq hk hd₁ hd₂ hb₁ hb₂]
      exact ⟨⟨fun _ ↦ StunCtx.answered_replied _ hms₂ _,
        fun _ ↦ StunCtx.answered_replied _ hms₁ _⟩, rfl⟩
  source _ h k := h.answeredBy hwaiting hwhole k
  single _ _ x _ _ _ hj hk := receiveMessage_single targets x.1 x.2 hj hk

end

/-! ## A reply that is not whole

The datagram that is cut off can arrive first, alone in its batch. What the parser reads behind it
is then what an earlier use of the stack left in the buffers, and two such pasts give two addresses.
-/

def Timespec.second (sec : ℤ) : Timespec := .reading sec 0

@[simp] theorem Timespec.nanos_second (sec : ℤ) : (second sec).nanos = sec * 1000000000 := by
  rw [nanos, second, reading_tvSec, reading_tvNsec, Fin.val_zero, Int.natCast_zero, Int.add_zero]

def single (t : Timespec) (d : Datagram) : Wakeup where
  msgs := [d]
  now := t
  cur := t
  length_le := by simp [batchSize]

/-- A burst in which the datagrams arrive one by one, on buffers with this content. -/
def oneByOne (stunList : StunList n) (ds : List Datagram) (sec : ℤ) (stale : ℕ → UInt8) :
    BurstInput n where
  transactionIds k := (stunList k).transactionId
  sendTimes k := (stunList k).sendTime
  start := .second sec
  wakeups := ds.map (single (.second sec))
    ++ [.idle (.second sec) (.second (sec + 1))]
  stale := stale

section

variable {targets : List (Fin n)} {stunList : StunList n} {ds : List Datagram} {sec : ℤ}
  {stale : ℕ → UInt8}

theorem takenWakeups_oneByOne (ds : List Datagram) (sec : ℤ) :
    takenWakeups (.second sec) (oneByOne stunList ds sec stale).wakeups
      = (oneByOne stunList ds sec stale).wakeups := by
  change takenWakeups (.second sec) (ds.map _ ++ _) = ds.map _ ++ _
  induction ds with
  | nil => simp [takenWakeups]
  | cons d ds ih =>
    have hnow : ¬Timespec.elapsedMs (single (.second sec) d).cur (.second sec) ≥ timeLimitMs := by
      simp [single, Timespec.elapsedMs, timeLimitMs]
    rw [List.map_cons, List.cons_append, takenWakeups, if_neg hnow, ih]

theorem receives_oneByOne (hsec : ∀ k ∈ targets, (stunList k).sendTime.tvSec < sec) :
    Receives targets stunList ds (oneByOne stunList ds sec stale) where
  arrived := by
    have hmsgs : (ds.map (single (.second sec))).flatMap Wakeup.msgs = ds := by
      rw [List.flatMap_map]
      exact List.flatMap_singleton' ds
    change ((takenWakeups (.second sec) _).flatMap Wakeup.msgs).Perm ds
    rw [takenWakeups_oneByOne, oneByOne, List.flatMap_append, hmsgs]
    simp
  finished := by
    refine ⟨_, List.mem_append_right _ List.mem_cons_self, ?_⟩
    simp [oneByOne, Timespec.second, Timespec.elapsedMs, timeLimitMs]
  clock := by
    -- every reading but the last is that of the start
    have hreadings : (oneByOne stunList ds sec stale).readings
        = (.second sec :: (ds.flatMap fun _ ↦ [.second sec, .second sec]) ++ [.second sec])
          ++ [.second (sec + 1)] := by
      change _ :: (takenWakeups (.second sec) _).flatMap _ = _
      rw [takenWakeups_oneByOne]
      simp [oneByOne, List.flatMap_map, single]
    have hstart : ∀ t ∈ Timespec.second sec :: (ds.flatMap fun _ ↦ [.second sec, .second sec])
        ++ [.second sec], t = .second sec := by
      simp only [List.cons_append, List.mem_cons, List.mem_append, List.mem_flatMap,
        List.not_mem_nil, or_false, or_self]
      rintro t (h | ⟨-, -, h⟩ | h)
      · exact h
      · exact h
      · exact h
    rw [hreadings, List.pairwise_append]
    refine ⟨List.pairwise_of_forall_mem_list fun s hs t ht ↦ ?_, List.pairwise_singleton .., ?_⟩
    · rw [hstart s hs, hstart t ht]
    · intro s hs t ht
      rw [hstart s hs, List.mem_singleton.mp ht, Timespec.le_iff, Timespec.nanos_second,
        Timespec.nanos_second]
      omega
  requested := by
    intro k hk
    have hlt := hsec k hk
    have hnsec := (stunList k).sendTime.nsec_lt
    change (stunList k).sendTime.nanos ≤ (Timespec.second sec).nanos
    rw [Timespec.nanos_second, Timespec.nanos]
    omega

theorem recvmmsg_singleton {mem : ℕ → UInt8} {d : Datagram} (h : Holds mem 0 (received d)) :
    recvmmsg [d] mem = mem := by
  funext a
  rw [recvmmsg]
  rcases Nat.lt_or_ge a bufSize with hlt | hge
  · rw [Nat.div_eq_of_lt hlt, Nat.mod_eq_of_lt hlt]
    change (received d).getD a (mem a) = mem a
    rcases Nat.lt_or_ge a (received d).length with hin | hout
    · rw [List.getD_eq_getElem _ _ hin, ← h a hin, Nat.zero_add]
    · exact List.getD_eq_default _ _ hout
  · have hslot : 1 ≤ a / bufSize := (Nat.one_le_div_iff (by decide)).mpr hge
    rw [List.getElem?_eq_none hslot]

theorem mapped_oneByOne (hwaiting : DistinctWaiting targets stunList) {k : Fin n}
    (hk : k ∈ targets) (hsec : ∀ k ∈ targets, (stunList k).sendTime.tvSec < sec) {d : Datagram}
    (hbears : Bears d (stunList k).transactionId) (h : Holds stale 0 (received d)) :
    (burstReceive targets (oneByOne stunList (d :: ds) sec stale) stunList k).mapped
      = (run stale (parseXorMappedAddress 0 (msgLen d) (stunList k).mapped)).2 := by
  let v : Delivery := ⟨stale, 0, msgLen d, .second sec⟩
  have hfirst : ∃ vs, (oneByOne stunList (d :: ds) sec stale).deliveries = v :: vs := by
    change ∃ vs, batchDeliveries (takenWakeups (.second sec) _) stale = v :: vs
    rw [takenWakeups_oneByOne]
    refine ⟨batchDeliveries (oneByOne stunList ds sec stale).wakeups (recvmmsg [d] stale), ?_⟩
    change (single (.second sec) d).deliveries stale ++ _ = _
    rw [Wakeup.deliveries, single, recvmmsg_singleton h]
    rfl
  obtain ⟨vs, hvs⟩ := hfirst
  have haccepts := (Delivery.IsOf.bears_iff (v := v) (d := d) ⟨rfl, h⟩ _).mpr hbears
  have hreceives : Receives targets stunList (d :: ds) (oneByOne stunList (d :: ds) sec stale) :=
    receives_oneByOne hsec
  have hclock : (stunList k).sendTime ≤ v.now :=
    hreceives.sendTime_le hk v (hvs ▸ List.mem_cons_self)
  rw [burstReceive_eq_foldl, foldl_receiveMessage_apply hwaiting.distinct hk, hvs, List.foldl_cons,
    StunCtx.receive, if_pos ⟨haccepts.1, hwaiting.waiting k hk, haccepts.2⟩,
    foldl_receive_of_answered (StunCtx.answered_replied _ (Timespec.elapsedMs_nonneg hclock) _)]
  rfl

theorem Holds.of_agreeOn {mem : ℕ → UInt8} {d : Datagram}
    (h : AgreeOn 0 (msgLen d) (buffered d) mem) : Holds mem 0 (received d) := by
  intro i hi
  have hin : ((0 + i : ℕ) : ℤ) < (0 : ℕ) + msgLen d := by rw [msgLen]; omega
  rw [h (0 + i) (Nat.zero_le _) hin, buffered, holds_overlay 0 (received d) _ i hi]

/-- **The law fails as soon as one reply is not whole.** -/
theorem repliesWhole_of_arrivalLaw (hwaiting : DistinctWaiting targets stunList)
    (h : ArrivalLaw targets stunList ds) : RepliesWhole targets stunList ds := by
  rintro d hd ⟨k, hk, hbears⟩
  by_contra hcut
  obtain ⟨mem₁, mem₂, hagree₁, hagree₂, hne⟩ := exists_divergence hcut
  obtain ⟨M, hM⟩ := Finset.exists_le (Finset.univ.image fun k ↦ (stunList k).sendTime.tvSec)
  have hsec : ∀ j ∈ targets, (stunList j).sendTime.tvSec < M + 1 := fun j _ ↦
    Int.lt_add_one_of_le (hM _ (Finset.mem_image_of_mem _ (Finset.mem_univ j)))
  -- both bursts take `d` first, with two different pasts behind it
  have hfirst : (d :: ds.erase d).Perm ds := (List.perm_cons_erase hd).symm
  have hreceives : ∀ stale, Receives targets stunList ds
      (oneByOne stunList (d :: ds.erase d) (M + 1) stale) := fun stale ↦
    { receives_oneByOne hsec with arrived := (receives_oneByOne hsec).arrived.trans hfirst }
  have hsame := (h.order _ _ (hreceives mem₁) (hreceives mem₂) k).2
  rw [mapped_oneByOne hwaiting hk hsec hbears (.of_agreeOn hagree₁),
    mapped_oneByOne hwaiting hk hsec hbears (.of_agreeOn hagree₂)] at hsame
  exact hne _ (congrArg MappedOut.outIp hsame)

end

/-- **When arrival order and batching do not matter.** The law holds exactly if every datagram that
bears the id of a target is received whole, and so in particular for datagrams that have their
attributes inside and fit into a buffer. -/
theorem arrivalLaw_iff (targets : List (Fin n)) (stunList : StunList n) (ds : List Datagram)
    (hwaiting : DistinctWaiting targets stunList) (hunique : RepliesUnique targets stunList ds) :
    (ArrivalLaw targets stunList ds ↔ RepliesWhole targets stunList ds) ∧
      ((∀ d ∈ ds, AttributesInside d ∧ d.length ≤ bufSize) → ArrivalLaw targets stunList ds) := by
  refine ⟨⟨repliesWhole_of_arrivalLaw hwaiting, arrivalLaw_of_repliesWhole hwaiting hunique⟩,
    fun hfit ↦ arrivalLaw_of_repliesWhole hwaiting hunique ?_⟩
  intro d hd _
  exact (hfit d hd).1.receivedWhole (hfit d hd).2

/-! ## Two replies to one server -/

/-- A server that waits for a reply with transaction id 1, .., 12. -/
def waitingServer : StunList 1 := fun _ ↦
  { host := "stun.example", ipStr := "192.0.2.1", port := 3478, addr := ⟨3478, 0⟩
    transactionId := #v[1, 2, 3, 4, 5, 6, 7, 8, 9, 10, 11, 12]
    sendTime := .second 10, rttMs := -1, publicIp := "", publicPort := 0 }

/-- A datagram of 20 bytes with another transaction id. -/
def strayIndication : Datagram :=
  datagram #v[0x01, 0x11, 0x00, 0x00, 0x21, 0x12, 0xA4, 0x42, 9, 9, 9, 9, 9, 9, 9, 9, 9, 9, 9, 9] []

/-- A reply of 32 bytes, with the address 198.51.100.7:4660. -/
def shortReply : Datagram :=
  datagram #v[0x01, 0x01, 0x00, 0x0C, 0x21, 0x12, 0xA4, 0x42, 1, 2, 3, 4, 5, 6, 7, 8, 9, 10, 11, 12]
    [{ type := 0x0020, value := Attribute.xorMappedValue 0 #v[198, 51, 100, 7] 4660 []
       padding := []
       length_lt := by decide, length_padding := by decide }]

private theorem distinctWaiting_waitingServer : DistinctWaiting [0] waitingServer :=
  ⟨by decide, by decide⟩

/-- For a reply that fits into a buffer the law holds. -/
theorem arrivalLaw_shortReply : ArrivalLaw [0] waitingServer [shortReply, strayIndication] := by
  refine (arrivalLaw_iff [0] waitingServer _ distinctWaiting_waitingServer ?_).2 fun d hd ↦ ?_
  · unfold RepliesUnique
    decide +kernel
  · rcases List.mem_pair.mp hd with rfl | rfl
    · exact ⟨attributesInside_datagram _ _, by decide⟩
    · exact ⟨attributesInside_datagram _ _, by decide⟩

/-- A reply of 516 bytes to the same request: a long SOFTWARE attribute, then the address. Its
last four bytes, the IPv4 address, do not fit into the buffer. -/
def longReply : Datagram :=
  datagram #v[0x01, 0x01, 0x01, 0xF0, 0x21, 0x12, 0xA4, 0x42, 1, 2, 3, 4, 5, 6, 7, 8, 9, 10, 11, 12]
    [{ type := 0x8022, value := List.replicate 480 0x20, padding := []
       length_lt := by decide +kernel, length_padding := by decide +kernel },
     { type := 0x0020, value := Attribute.xorMappedValue 0 #v[198, 51, 100, 7] 4660 []
       padding := []
       length_lt := by decide, length_padding := by decide }]

/-- Both datagrams after 5 ms, in batches as given; the loop then runs to its deadline. -/
def batched (batches : List Wakeup) : BurstInput 1 where
  transactionIds := fun k ↦ (waitingServer k).transactionId
  sendTimes := fun _ ↦ .second 10
  start := .second 10
  wakeups := batches ++ [.idle (.second 11) (.second 11)]
  stale := fun _ ↦ 0

/-- The reply and the other datagram in one batch. -/
def together : BurstInput 1 :=
  batched [{ msgs := [longReply, strayIndication], now := .reading 10 5000000
             cur := .reading 10 5000000 }]

/-- The same in two batches. -/
def apart : BurstInput 1 :=
  batched [{ msgs := [longReply], now := .reading 10 5000000
             cur := .reading 10 5000000 },
           { msgs := [strayIndication], now := .reading 10 5000000
             cur := .reading 10 5000000 }]

/-- The batching decides which address the server ends with. -/
theorem longReply_depends_on_batching :
    DistinctWaiting [0] waitingServer ∧
      RepliesUnique [0] waitingServer [longReply, strayIndication] ∧
      (∀ d ∈ [longReply, strayIndication], AttributesInside d) ∧
      Receives [0] waitingServer [longReply, strayIndication] together ∧
      Receives [0] waitingServer [longReply, strayIndication] apart ∧
      (burstReceive [0] together waitingServer 0).publicIp = "32.3.164.66" ∧
      (burstReceive [0] apart waitingServer 0).publicIp = "33.18.164.66" ∧
      ¬ArrivalLaw [0] waitingServer [longReply, strayIndication] := by
  have htogether : Receives [0] waitingServer [longReply, strayIndication] together := by
    refine ⟨by decide +kernel, ⟨_, List.mem_append_right _ List.mem_cons_self, by decide⟩,
      by decide +kernel, by decide +kernel⟩
  have hapart : Receives [0] waitingServer [longReply, strayIndication] apart := by
    refine ⟨by decide +kernel, ⟨_, List.mem_append_right _ List.mem_cons_self, by decide⟩,
      by decide +kernel, by decide +kernel⟩
  have hip₁ : (burstReceive [0] together waitingServer 0).publicIp = "32.3.164.66" := by
    decide +kernel
  have hip₂ : (burstReceive [0] apart waitingServer 0).publicIp = "33.18.164.66" := by
    decide +kernel
  refine ⟨distinctWaiting_waitingServer, by unfold RepliesUnique; decide +kernel, ?_,
    htogether, hapart, hip₁, hip₂, fun hlaw ↦ ?_⟩
  · intro d hd
    rcases List.mem_pair.mp hd with rfl | rfl
    · exact attributesInside_datagram _ _
    · exact attributesInside_datagram _ _
  · have hsame := congrArg MappedOut.outIp (hlaw.order _ _ htogether hapart 0).2
    simp only [StunCtx.mapped, hip₁, hip₂] at hsame
    exact absurd hsame (by decide)

end NatGhost
