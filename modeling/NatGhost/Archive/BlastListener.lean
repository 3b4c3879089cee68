import Mathlib.Algebra.Order.Ring.Rat
import NatGhost.Foundation.ExchangeSort
import NatGhost.Foundation.TopEntries
import NatGhost.Stun.BurstReceive

/-!
# The listener of `blast_controller`

The controller records transaction id and time of every request in a table of at most 1024 entries.
`listen_for_stun_responses` then polls a socket for three seconds, looks up the id of every Binding
Response in that table, and stores the time since the request; `main` ranks what is stored. Nothing
marks an id as answered, so a reply that arrives twice is stored twice.

A `double` is a rational number here, and `fl` rounds the exact result of an operation to a
`double`. Nothing is assumed about `fl`.

A poll is one turn of the loop, with its two clock readings and what `recvfrom` returns. The loop
fills an array up to a size, and so does `record_send`: both keep a front part of what comes
(`foldl_appendUpTo`). The ids of the entries are those of the first responses in the window whose id
is recorded (`map_transId_listenLoop`).
-/

namespace NatGhost

/-! ## Arrays that are filled up to a size -/

section

variable {α : Type*} {m : ℕ}

/-- `if (count < m) a[count++] = x;` -/
def appendUpTo (m : ℕ) (xs : List α) (x : α) : List α := if xs.length < m then xs ++ [x] else xs

theorem length_appendUpTo_le {xs : List α} (h : xs.length ≤ m) (x : α) :
    (appendUpTo m xs x).length ≤ m := by
  rw [appendUpTo]
  split_ifs with hlt
  · rw [List.length_append]
    exact hlt
  · exact h

theorem foldl_appendUpTo {xs : List α} (h : xs.length ≤ m) (ys : List α) :
    ys.foldl (appendUpTo m) xs = (xs ++ ys).take m := by
  induction ys generalizing xs with
  | nil => rw [List.foldl_nil, List.append_nil, List.take_of_length_le h]
  | cons y ys ih =>
    rw [List.foldl_cons, ih (length_appendUpTo_le h y), appendUpTo]
    split_ifs with hlt
    · rw [List.append_assoc, List.singleton_append]
    · have hfull : xs.length = m := Nat.le_antisymm h (Nat.not_lt.mp hlt)
      rw [← hfull, List.take_left, List.take_left]

end

namespace BlastController

/-! ## The table of requests -/

/-- `MAX_TARGETS`. -/
def maxTargets : ℕ := 1024

/-- `SendEntry`. -/
structure SendEntry where
  transId : Vector UInt8 12
  sendTime : ℚ

/-- `send_table[0 .. send_table_size)`. -/
structure SendTable where
  entries : List SendEntry
  size_le : entries.length ≤ maxTargets

def SendTable.empty : SendTable := ⟨[], Nat.zero_le _⟩

/-- `record_send`. -/
def recordSend (table : SendTable) (transId : Vector UInt8 12) (timeMs : ℚ) : SendTable where
  entries := appendUpTo maxTargets table.entries ⟨transId, timeMs⟩
  size_le := length_appendUpTo_le table.size_le _

/-- `get_send_time`. -/
def getSendTime (table : SendTable) (transId : Vector UInt8 12) : ℚ :=
  match table.entries.find? fun e ↦ decide (e.transId = transId) with
  | some e => e.sendTime
  | none => -1

/-- A sequence of calls of `record_send`. -/
def recordAll (calls : List SendEntry) : SendTable :=
  calls.foldl (fun table c ↦ recordSend table c.transId c.sendTime) .empty

/-! ## The listener -/

/-- `StunReply`. -/
structure StunReply where
  ip : String
  rttMs : ℚ

/-- An entry of `results`, with the transaction id it was stored for, which the program does not
keep. -/
structure Result where
  transId : Vector UInt8 12
  reply : StunReply

/-- One turn of the loop: the clock reading of its condition, the datagram with the address of its
sender if there is one, and the clock reading `now`. -/
structure Poll where
  tested : Timespec
  recv : Option (Datagram × UInt32)
  now : Timespec

/-- `msg_type`. -/
def msgType (buffer : List UInt8) : UInt16 := be16 (buffer.getD 0 0) (buffer.getD 1 0)

/-- `trans_id`, the twelve bytes at `buffer + 8`. -/
def transIdOf (buffer : List UInt8) : Vector UInt8 12 := Vector.ofFn fun i ↦ buffer.getD (8 + i) 0

section

variable (fl : ℚ → ℚ)

/-- `get_timestamp_ms`. -/
def getTimestampMs (ts : Timespec) : ℚ :=
  fl (fl (fl ts.tvSec * 1000) + fl (fl ts.tvNsec / 1000000))

/-- The body of the loop up to the test of `count`: what is to be stored, if anything. -/
def Poll.result (getSendTime : Vector UInt8 12 → ℚ) (p : Poll) : Option Result :=
  match p.recv with
  | none => none
  | some (d, sinAddr) =>
    let buffer := received d
    if buffer.length ≥ stunPktLen then
      if msgType buffer = 0x0101 then
        let transId := transIdOf buffer
        let sentTime := getSendTime transId
        let now := getTimestampMs fl p.now
        if sentTime > 0 then some ⟨transId, inetNtop sinAddr, fl (now - sentTime)⟩ else none
      else none
    else none

/-- The condition of the loop: less than `RESPONSE_TIMEOUT_SEC * 1000.0` since `start`. -/
def inWindow (start : Timespec) (p : Poll) : Bool :=
  decide (fl (getTimestampMs fl p.tested - getTimestampMs fl start) < 3000)

/-- The loop. A list of polls that ends within the window is a run still in progress. -/
def listenLoop (getSendTime : Vector UInt8 12 → ℚ) (maxResults : ℕ) (start : Timespec) :
    List Poll → List Result → List Result
  | [], results => results
  | p :: polls, results =>
    if inWindow fl start p then
      match p.result fl getSendTime with
      | none => listenLoop getSendTime maxResults start polls results
      | some r => listenLoop getSendTime maxResults start polls (appendUpTo maxResults results r)
    else results

/-- What the environment supplies to a call. -/
structure Listening where
  /-- `socket` and `bind` succeed. -/
  bound : Bool
  start : Timespec
  polls : List Poll

/-- `listen_for_stun_responses`; `none` stands for -1. -/
def listenForStunResponses (maxResults : ℕ) (getSendTime : Vector UInt8 12 → ℚ)
    (input : Listening) : Option (List Result) :=
  if input.bound = true then
    some (listenLoop fl getSendTime maxResults input.start input.polls [])
  else none

end

/-- The comparison of the sort in `main`. -/
def isFaster (later earlier : Result) : Bool := decide (later.reply.rttMs < earlier.reply.rttMs)

/-- `results` after the sort. -/
def sortResults (results : List Result) : Fin results.length → Result :=
  exchangeSort isFaster results.get

/-- The entries `main` prints. -/
def printedResults (results : List Result) : List Result :=
  ((List.finRange results.length).take 5).map (sortResults results)

/-! ## What is received -/

def Poll.responseId (p : Poll) : Option (Vector UInt8 12) :=
  match p.recv with
  | none => none
  | some (d, _) =>
    if (received d).length ≥ stunPktLen ∧ msgType (received d) = 0x0101 then
      some (transIdOf (received d))
    else none

def recordedIds (calls : List SendEntry) : List (Vector UInt8 12) :=
  (calls.take maxTargets).map SendEntry.transId

section

variable (fl : ℚ → ℚ)

def Listening.window (input : Listening) : List Poll :=
  input.polls.takeWhile (inWindow fl input.start)

/-- The ids of the Binding Responses received in the window that are recorded, in order, with
repetitions. -/
def answeredIds (calls : List SendEntry) (input : Listening) : List (Vector UInt8 12) :=
  ((input.window fl).filterMap Poll.responseId).filter fun transId ↦
    decide (transId ∈ recordedIds calls)

/-- **The purpose of the listener**: at most `maxResults` entries and one for an id, each measured
by a Binding Response from the time recorded for its id. -/
structure ListensOnce (calls : List SendEntry) (maxResults : ℕ) (input : Listening)
    (results : List Result) : Prop where
  length_le : results.length ≤ maxResults
  once : (results.map Result.transId).Nodup
  measured : ∀ r ∈ results, ∃ c ∈ calls.take maxTargets, c.transId = r.transId ∧
    ∃ p ∈ input.window fl, p.responseId = some r.transId ∧
      r.reply.rttMs = fl (getTimestampMs fl p.now - c.sendTime)

end

/-! ## Looking up -/

section

variable {calls : List SendEntry} {transId : Vector UInt8 12}

theorem entries_recordAll (calls : List SendEntry) :
    (recordAll calls).entries = calls.take maxTargets := by
  have hfold (table : SendTable) (calls : List SendEntry) :
      (calls.foldl (fun table c ↦ recordSend table c.transId c.sendTime) table).entries
        = calls.foldl (appendUpTo maxTargets) table.entries := by
    induction calls generalizing table with
    | nil => rfl
    | cons c calls ih => exact ih _
  rw [recordAll, hfold, foldl_appendUpTo (SendTable.size_le _)]
  exact congrArg (List.take maxTargets) (List.nil_append calls)

theorem getSendTime_of_not_mem (h : transId ∉ recordedIds calls) :
    getSendTime (recordAll calls) transId = -1 := by
  have hnone : (recordAll calls).entries.find? (fun e ↦ decide (e.transId = transId)) = none := by
    rw [entries_recordAll, List.find?_eq_none]
    intro e he heq
    exact h (List.mem_map.mpr ⟨e, he, of_decide_eq_true heq⟩)
  rw [getSendTime, hnone]

theorem getSendTime_of_mem (hdistinct : (calls.map SendEntry.transId).Nodup) {c : SendEntry}
    (hc : c ∈ calls.take maxTargets) : getSendTime (recordAll calls) c.transId = c.sendTime := by
  have hmem : c ∈ (recordAll calls).entries := entries_recordAll calls ▸ hc
  rw [getSendTime]
  cases hfind : (recordAll calls).entries.find? fun e ↦ decide (e.transId = c.transId) with
  | none =>
    rw [List.find?_eq_none] at hfind
    exact absurd (decide_eq_true rfl) (hfind c hmem)
  | some e =>
    have he : e ∈ calls := by
      have hentry := List.mem_of_find?_eq_some hfind
      rw [entries_recordAll] at hentry
      exact List.mem_of_mem_take hentry
    have hsame : e.transId = c.transId := by simpa using List.find?_some hfind
    rw [List.inj_on_of_nodup_map hdistinct he (List.mem_of_mem_take hc) hsame]

theorem getSendTime_pos_iff (hdistinct : (calls.map SendEntry.transId).Nodup)
    (hpos : ∀ c ∈ calls, 0 < c.sendTime) :
    getSendTime (recordAll calls) transId > 0 ↔ transId ∈ recordedIds calls := by
  constructor
  · intro hlookup
    by_contra hnot
    rw [getSendTime_of_not_mem hnot] at hlookup
    exact absurd hlookup (by decide)
  · intro hmem
    obtain ⟨c, hc, rfl⟩ := List.mem_map.mp hmem
    rw [getSendTime_of_mem hdistinct hc]
    exact hpos c (List.mem_of_mem_take hc)

end

/-! ## Listening -/

section

variable {fl : ℚ → ℚ} {calls : List SendEntry} {maxResults : ℕ}

theorem listenLoop_eq (getSendTime : Vector UInt8 12 → ℚ) (start : Timespec) (polls : List Poll)
    {results : List Result} (h : results.length ≤ maxResults) :
    listenLoop fl getSendTime maxResults start polls results
      = (results ++ (polls.takeWhile (inWindow fl start)).filterMap
          (Poll.result fl getSendTime)).take maxResults := by
  induction polls generalizing results with
  | nil =>
    rw [listenLoop, List.takeWhile_nil, List.filterMap_nil, List.append_nil,
      List.take_of_length_le h]
  | cons p polls ih =>
    rw [listenLoop, List.takeWhile_cons]
    split_ifs with hwindow
    · -- the array is filled by this result, if there is one, and the later ones
      cases hresult : p.result fl getSendTime with
      | none => rw [List.filterMap_cons_none hresult, ← ih h]
      | some r =>
        rw [List.filterMap_cons_some hresult]
        have hnext := ih (length_appendUpTo_le h r)
        refine hnext.trans ?_
        rw [← foldl_appendUpTo (length_appendUpTo_le h r), ← foldl_appendUpTo h,
          List.foldl_cons]
    · rw [List.filterMap_nil, List.append_nil, List.take_of_length_le h]

/-- What is stored is for a Binding Response, with the time since its request. -/
theorem Poll.of_result {p : Poll} {getSendTime : Vector UInt8 12 → ℚ} {r : Result}
    (h : p.result fl getSendTime = some r) : p.responseId = some r.transId ∧
      r.reply.rttMs = fl (getTimestampMs fl p.now - getSendTime r.transId) := by
  rw [result] at h
  cases hrecv : p.recv with
  | none =>
    rw [hrecv] at h
    cases h
  | some recv =>
    rw [hrecv] at h
    simp only at h
    split_ifs at h with hlength htype hpos
    obtain rfl := Option.some.inj h
    refine ⟨?_, rfl⟩
    rw [responseId, hrecv]
    exact if_pos ⟨hlength, htype⟩

theorem Poll.map_transId_result (p : Poll) (getSendTime : Vector UInt8 12 → ℚ) :
    (p.result fl getSendTime).map Result.transId
      = p.responseId.filter fun transId ↦ decide (getSendTime transId > 0) := by
  rw [result, responseId]
  cases p.recv with
  | none => rfl
  | some recv =>
    by_cases hlength : (received recv.1).length ≥ stunPktLen
    · by_cases htype : msgType (received recv.1) = 0x0101
      · by_cases hpos : getSendTime (transIdOf (received recv.1)) > 0
        · simp [hlength, htype, hpos, Option.filter]
        · simp [hlength, htype, hpos, Option.filter]
      · simp [htype]
    · simp [hlength]

variable (fl) in
/-- **The entries are for the first recorded responses.** -/
theorem map_transId_listenLoop (hdistinct : (calls.map SendEntry.transId).Nodup)
    (hpos : ∀ c ∈ calls, 0 < c.sendTime) (maxResults : ℕ) (input : Listening) :
    (listenLoop fl (getSendTime (recordAll calls)) maxResults input.start input.polls []).map
      Result.transId = (answeredIds fl calls input).take maxResults := by
  have hpoll (p : Poll) : (p.result fl (getSendTime (recordAll calls))).map Result.transId
      = p.responseId.filter fun transId ↦ decide (transId ∈ recordedIds calls) := by
    rw [Poll.map_transId_result]
    simp only [getSendTime_pos_iff hdistinct hpos]
  rw [listenLoop_eq _ _ _ (Nat.zero_le _), List.nil_append, List.map_take, List.map_filterMap,
    answeredIds, List.filter_filterMap, Listening.window]
  simp only [hpoll]

/-- **When one entry is stored for an id.** Exactly if no id occurs twice among the first responses
that are stored, that is among the first `maxResults` Binding Responses in the window whose id is
recorded. -/
theorem listensOnce_iff (fl : ℚ → ℚ) (calls : List SendEntry)
    (hdistinct : (calls.map SendEntry.transId).Nodup) (hpos : ∀ c ∈ calls, 0 < c.sendTime)
    (maxResults : ℕ) (input : Listening) (results : List Result)
    (h : listenForStunResponses fl maxResults (getSendTime (recordAll calls)) input
      = some results) :
    ListensOnce fl calls maxResults input results
      ↔ ((answeredIds fl calls input).take maxResults).Nodup := by
  rw [listenForStunResponses] at h
  split_ifs at h with hbound
  obtain rfl := Option.some.inj h
  have hids := map_transId_listenLoop fl hdistinct hpos maxResults input
  refine ⟨fun honce ↦ hids ▸ honce.once, fun hnodup ↦ ⟨?_, hids ▸ hnodup, fun r hr ↦ ?_⟩⟩
  · rw [listenLoop_eq _ _ _ (Nat.zero_le _)]
    exact List.length_take_le _ _
  · -- the id is recorded, and the lookup finds its call
    have hid : r.transId ∈ (answeredIds fl calls input).take maxResults :=
      hids ▸ List.mem_map_of_mem hr
    have hrecorded := (List.mem_filter.mp (List.mem_of_mem_take hid)).2
    obtain ⟨c, hc, hsame⟩ := List.mem_map.mp (of_decide_eq_true hrecorded)
    rw [listenLoop_eq _ _ _ (Nat.zero_le _), List.nil_append] at hr
    obtain ⟨p, hp, hresult⟩ := List.mem_filterMap.mp (List.mem_of_mem_take hr)
    obtain ⟨hresponse, hrtt⟩ := Poll.of_result hresult
    refine ⟨c, hc, hsame, p, hp, hresponse, ?_⟩
    rw [hrtt, ← hsame, getSendTime_of_mem hdistinct hc]

end

/-! ## Ranking -/

/-- **What `main` prints** are the least of the entries stored, at most five and least first. -/
theorem printedResults_isTop (results : List Result) :
    ∃ listed, printedResults results = listed.map results.get ∧
      IsTop (fun i ↦ (results.get i).reply.rttMs) 5 (List.finRange results.length) listed := by
  have hkey : ComparesKeys (fun r : Result ↦ r.reply.rttMs) isFaster results.get :=
    fun _ _ ↦ decide_eq_true_iff
  obtain ⟨σ, hσ, hle⟩ := exchangeSort_sorts isFaster hkey
  have hsorted : sortResults results = results.get ∘ σ := hσ
  refine ⟨((List.finRange results.length).take 5).map σ, ?_, ?_⟩
  · rw [printedResults, hsorted, List.map_map]
  · have htop : IsTop ((fun i ↦ (results.get i).reply.rttMs) ∘ σ) 5
        (List.finRange results.length) ((List.finRange results.length).take 5) :=
      (isTop_take_iff (List.pairwise_lt_finRange _)).mpr fun i _ j _ hlt ↦ hle i j hlt.le
    refine htop.map σ.injective ?_
    rw [List.perm_ext_iff_of_nodup ((List.nodup_finRange _).map σ.injective)
      (List.nodup_finRange _)]
    exact fun i ↦ iff_of_true (List.mem_map.mpr ⟨σ.symm i, List.mem_finRange _,
      σ.apply_symm_apply i⟩) (List.mem_finRange i)

/-! ## A reply that arrives twice -/

/-- One request, recorded at 1 ms. -/
def oneRequest : List SendEntry := [⟨Vector.replicate 12 7, 1⟩]

/-- A Binding Response to it, received so many nanoseconds after the start. -/
def replyAt (tvNsec : Fin 1000000000) : Poll where
  tested := .reading 0 tvNsec
  recv := some ([0x01, 0x01, 0x00, 0x00, 0x21, 0x12, 0xA4, 0x42] ++ List.replicate 12 7, 0x0100007F)
  now := .reading 0 tvNsec

/-- The response arrives after 10 ms, and once more after 20 ms. -/
def duplicateReply : Listening := ⟨true, .reading 0 0, [replyAt 10000000, replyAt 20000000]⟩

/-- **One request, two entries.** -/
theorem duplicateReply_listed_twice : ¬∀ (fl : ℚ → ℚ) (calls : List SendEntry),
    (calls.map SendEntry.transId).Nodup → (∀ c ∈ calls, 0 < c.sendTime) →
      ∀ (maxResults : ℕ) (input : Listening) (results : List Result),
        listenForStunResponses fl maxResults (getSendTime (recordAll calls)) input = some results →
          ListensOnce fl calls maxResults input results := by
  intro h
  have honce := (h id oneRequest (by decide) (by decide) maxTargets duplicateReply _ rfl).once
  rw [map_transId_listenLoop id (by decide) (by decide)] at honce
  revert honce
  decide +kernel

def singleReply : Listening := ⟨true, .reading 0 0, [replyAt 10000000]⟩

/-- **One reply, one entry.** -/
theorem listensOnce_iff_singleReply : ∃ results,
    listenForStunResponses id maxTargets (getSendTime (recordAll oneRequest)) singleReply
      = some results ∧ results.length = 1 ∧
        ListensOnce id oneRequest maxTargets singleReply results := by
  refine ⟨_, rfl, by decide +kernel, ?_⟩
  exact (listensOnce_iff id oneRequest (by decide) (by decide) maxTargets singleReply _ rfl).mpr
    (by decide +kernel)

end BlastController

end NatGhost
