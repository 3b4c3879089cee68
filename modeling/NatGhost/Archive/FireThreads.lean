import NatGhost.Archive.BlastListener
import NatGhost.Foundation.TaskPool

/-!
# The threads of `blast_controller`

`fire_stun_to_all` starts a thread for each port of each address, 1024 at most, and joins them all.
Before it starts a thread it draws a transaction id for it and records the id with the time. The
thread builds the request, reads the clock again and sends. When all are joined, `main` listens, and
measures each reply from the recorded time.

The threads share the socket and nothing else, so they are tasks of a `TaskSystem`, whose log is
what happens in the program: every request that is sent was recorded before, by a reading of the
clock that is not later than the one of its thread. With the listener behind it, every result the
program prints belongs to a request that was sent.

`construct_stun_binding_request`, `generate_transaction_id` and `inet_pton` are not part of the
repository: the first and the last are parameters, and any ids may be drawn. `socket`, `setsockopt`
and `bind` are taken to succeed, without which nothing is sent, and so is each `pthread_create`,
whose result the program does not look at. That the clock is monotonic is a hypothesis.
-/

namespace NatGhost.BlastController

/-! ## The code -/

/-- `MAX_THREADS`. -/
def maxThreads : ℕ := 1024

/-- `stun_ports`. -/
def stunPorts : List UInt16 := [3478, 19302, 19305, 3479, 5349, 443]

/-- The constant part of a `ThreadArgs`. -/
structure Target where
  ip : String
  port : UInt16
  deriving DecidableEq

/-- The inner loop of `fire_stun_to_all`: `args` so far, and what comes to it for one address. -/
def portLoop (ip : String) : List UInt16 → List Target → List Target
  | [], args => args
  | port :: ports, args =>
    if args.length ≥ maxThreads then args else portLoop ip ports (args ++ [⟨ip, port⟩])

/-- The nested loops: `args[0 .. thread_index)`. -/
def threadArgs (ipList : List String) : List Target :=
  ipList.foldl (fun args ip ↦ portLoop ip stunPorts args) []

/-- `load_static_ips`. -/
def staticIps : List String :=
  ["74.125.140.127", "62.146.106.170", "212.227.15.195", "212.227.124.134", "178.237.36.52",
    "195.185.214.194"]

inductive FireEvent where
  /-- `record_send(args[thread_index].trans_id, get_timestamp_ms())`. -/
  | recorded (entry : SendEntry)
  /-- `double send_time = get_timestamp_ms();` -/
  | timed (sendTime : ℚ)
  /-- `sendto` and its result. -/
  | sent (packet : List UInt8) (sinAddr : UInt32) (sinPort : UInt16) (result : ℤ)
  /-- `"[•] Sent to %s:%d at %.2f ms\n"`. -/
  | printed (target : Target) (sendTime : ℚ)

/-- A thread in `fire_thread`. -/
inductive FireThread where
  | created (transId : Vector UInt8 12)
  | timed (transId : Vector UInt8 12) (sendTime : ℚ)
  | exited

def FireThread.hasExited : FireThread → Bool
  | .exited => true
  | _ => false

section

variable (construct : Vector UInt8 12 → List UInt8) (inetPton : String → UInt32)

/-- What `sendto` and the line behind it add. -/
def fireOutput (target : Target) (transId : Vector UInt8 12) (sendTime : ℚ) (result : ℤ) :
    List FireEvent :=
  .sent (construct transId) (inetPton target.ip) target.port result ::
    if result = 20 then [.printed target sendTime] else []

/-- A step of `fire_thread`. -/
inductive FireStep (target : Target) : FireThread → List FireEvent → FireThread → Prop
  | readClock (transId : Vector UInt8 12) (sendTime : ℚ) :
      FireStep target (.created transId) [.timed sendTime] (.timed transId sendTime)
  | send (transId : Vector UInt8 12) (sendTime : ℚ) (result : ℤ) :
      FireStep target (.timed transId sendTime)
        (fireOutput construct inetPton target transId sendTime result) .exited

/-- The threads of `fire_stun_to_all`. -/
def fireTasks (ipList : List String) :
    TaskSystem (Fin (threadArgs ipList).length) FireThread FireEvent where
  start _ out a := ∃ entry : SendEntry, out = [.recorded entry] ∧ a = .created entry.transId
  step i := FireStep construct inetPton ((threadArgs ipList).get i)
  isDone := FireThread.hasExited
  not_done hstep := by cases hstep <;> rfl

/-- `fire_stun_to_all` behind `bind`: the threads are started, then joined. -/
def fireProgram (ipList : List String) : List (ForkStmt (Fin (threadArgs ipList).length) Empty) :=
  forkBatch (List.finRange (threadArgs ipList).length)

end

/-- The call of `record_send` in an event. -/
def FireEvent.call? : FireEvent → Option SendEntry
  | .recorded entry => some entry
  | _ => none

def FireEvent.time? : FireEvent → Option ℚ
  | .recorded entry => some entry.sendTime
  | .timed sendTime => some sendTime
  | _ => none

/-- The calls of `record_send`, in order. -/
def recordCalls {ι : Type} (log : List (ι × FireEvent)) : List SendEntry :=
  log.filterMap fun e ↦ e.2.call?

/-- `CLOCK_MONOTONIC`: later readings are not smaller. -/
def ClockIsMonotonic {ι : Type} (log : List (ι × FireEvent)) : Prop :=
  (log.filterMap fun e ↦ e.2.time?).Pairwise (· ≤ ·)

/-! ## The arguments of the threads -/

theorem portLoop_eq (ip : String) (ports : List UInt16) {args : List Target}
    (h : args.length ≤ maxThreads) :
    portLoop ip ports args = (args ++ ports.map (Target.mk ip)).take maxThreads := by
  induction ports generalizing args with
  | nil => rw [portLoop, List.map_nil, List.append_nil, List.take_of_length_le h]
  | cons port ports ih =>
    rw [portLoop]
    split_ifs with hfull
    · have hlength : args.length = maxThreads := Nat.le_antisymm h hfull
      rw [← hlength, List.take_left]
    · have hroom : (args ++ [Target.mk ip port]).length ≤ maxThreads := by
        rw [List.length_append, List.length_singleton]
        omega
      rw [ih hroom, List.append_assoc]
      rfl

/-- **The threads** are for the first 1024 pairs of an address and a port. -/
theorem threadArgs_eq (ipList : List String) : threadArgs ipList
    = (ipList.flatMap fun ip ↦ stunPorts.map (Target.mk ip)).take maxThreads := by
  induction ipList using List.reverseRecOn with
  | nil => rfl
  | append_singleton ipList ip ih =>
    have hlast : threadArgs (ipList ++ [ip]) = portLoop ip stunPorts (threadArgs ipList) := by
      rw [threadArgs, List.foldl_append]
      rfl
    have hlength : (threadArgs ipList).length ≤ maxThreads := by
      rw [ih]
      exact List.length_take_le _ _
    rw [hlast, portLoop_eq ip stunPorts hlength, ih, List.flatMap_append, List.flatMap_singleton]
    set all := ipList.flatMap fun ip ↦ stunPorts.map (Target.mk ip)
    rcases Nat.lt_or_ge all.length maxThreads with hlt | hge
    · rw [List.take_of_length_le hlt.le]
    · have hfull : (all.take maxThreads).length = maxThreads := by
        rw [List.length_take, min_eq_left hge]
      rw [List.take_append_of_le_length hfull.ge, List.take_take, Nat.min_self,
        List.take_append_of_le_length hge]

theorem length_threadArgs (ipList : List String) :
    (threadArgs ipList).length = min maxThreads (6 * ipList.length) := by
  have hsum : (ipList.map fun ip ↦ (stunPorts.map (Target.mk ip)).length).sum
      = 6 * ipList.length := by
    have hconst : (fun ip ↦ (stunPorts.map (Target.mk ip)).length) = fun _ : String ↦ 6 := rfl
    rw [hconst, List.map_const', List.sum_replicate_nat, Nat.mul_comm]
  rw [threadArgs_eq, List.length_take, List.length_flatMap, hsum]

example : (threadArgs staticIps).length = 36 := length_threadArgs staticIps

/-! ## The threads -/

section

variable {construct : Vector UInt8 12 → List UInt8} {inetPton : String → UInt32}
  {ipList : List String}

theorem alone_fireTasks {i : Fin (threadArgs ipList).length} {log : List FireEvent} {a : FireThread}
    (h : (fireTasks construct inetPton ipList).Alone i log a) :
    ∃ entry : SendEntry, (a = .created entry.transId ∧ log = [.recorded entry]) ∨
      (∃ sendTime, a = .timed entry.transId sendTime ∧ log = [.recorded entry, .timed sendTime]) ∨
      ∃ sendTime result, a = .exited ∧ log = .recorded entry :: .timed sendTime ::
        fireOutput construct inetPton ((threadArgs ipList).get i) entry.transId sendTime
          result := by
  induction h with
  | start hstart =>
    obtain ⟨entry, rfl, rfl⟩ := hstart
    exact ⟨entry, Or.inl ⟨rfl, rfl⟩⟩
  | step _ hstep ih =>
    obtain ⟨entry, ⟨rfl, rfl⟩ | ⟨sendTime, rfl, rfl⟩ | ⟨sendTime, result, rfl, rfl⟩⟩ := ih
    · cases hstep with
      | readClock _ sendTime => exact ⟨entry, Or.inr (Or.inl ⟨sendTime, rfl, rfl⟩)⟩
    · cases hstep with
      | send _ _ result => exact ⟨entry, Or.inr (Or.inr ⟨sendTime, result, rfl, rfl⟩)⟩
    · cases hstep

theorem lively_fireTasks : (fireTasks construct inetPton ipList).Lively where
  starts _ := ⟨_, _, ⟨Vector.replicate 12 0, 0⟩, rfl, rfl⟩
  moves i _ a _ hdone := by
    cases a with
    | created transId => exact ⟨_, _, FireStep.readClock transId 0⟩
    | timed transId sendTime => exact ⟨_, _, FireStep.send transId sendTime 0⟩
    | exited => exact absurd hdone nofun

def FireThread.stepsLeft : FireThread → ℕ
  | .created _ => 2
  | .timed _ _ => 1
  | .exited => 0

theorem measured_fireTasks : (fireTasks construct inetPton ipList).Measured FireThread.stepsLeft 2
    where
  start_le _ _ _ hstart := by
    obtain ⟨entry, -, rfl⟩ := hstart
    exact Nat.le_refl 2
  step_lt _ _ _ _ hstep := by
    cases hstep with
    | readClock => exact Nat.lt_succ_self 1
    | send => exact Nat.one_pos

variable {s : TaskState (Fin (threadArgs ipList).length) FireThread FireEvent}

theorem proj_of_returned
    (h : (fireTasks construct inetPton ipList).Reaches (fireProgram ipList) s)
    (htodo : s.todo = []) (i : Fin (threadArgs ipList).length) :
    ∃ entry sendTime result, proj i s.log = .recorded entry :: .timed sendTime ::
      fireOutput construct inetPton ((threadArgs ipList).get i) entry.transId sendTime result := by
  obtain ⟨a, -, hdone, halone⟩ :=
    (TaskSystem.Good.of_reaches (TaskSystem.isProgram_finRange _) h).returned htodo i
  obtain ⟨entry, ⟨rfl, -⟩ | ⟨_, rfl, -⟩ | ⟨sendTime, result, -, hlog⟩⟩ := alone_fireTasks halone
  · exact absurd hdone nofun
  · exact absurd hdone nofun
  · exact ⟨entry, sendTime, result, hlog⟩

theorem entry_of_mem {target : Target} {entry entry' : SendEntry} {sendTime : ℚ} {result : ℤ}
    (h : .recorded entry' ∈ FireEvent.recorded entry :: .timed sendTime ::
      fireOutput construct inetPton target entry.transId sendTime result) : entry' = entry := by
  rw [fireOutput] at h
  simp only [List.mem_cons, FireEvent.recorded.injEq, reduceCtorEq, false_or] at h
  rcases h with heq | hmem
  · exact heq
  · split_ifs at hmem
    · exact absurd (List.mem_singleton.mp hmem) nofun
    · exact absurd hmem List.not_mem_nil

theorem recordCalls_of_returned
    (h : (fireTasks construct inetPton ipList).Reaches (fireProgram ipList) s)
    (htodo : s.todo = []) {entries : Fin (threadArgs ipList).length → SendEntry}
    (hentries : ∀ i, ∃ sendTime result, proj i s.log = .recorded (entries i) :: .timed sendTime ::
      fireOutput construct inetPton ((threadArgs ipList).get i) (entries i).transId sendTime
        result) :
    recordCalls s.log = (List.finRange _).map entries := by
  have hmarked := TaskSystem.map_marked FireEvent.call? (fun i out a hstart ↦ by
    obtain ⟨entry, rfl, -⟩ := hstart
    rfl) (fun i a out b hstep ↦ by
    cases hstep with
    | readClock => rfl
    | send _ _ result =>
      rw [fireOutput]
      split_ifs <;> rfl) h
  rw [htodo, List.filterMap_nil, List.append_nil, fireProgram, filterMap_forkBatch] at hmarked
  rw [recordCalls, ← hmarked]
  refine TaskSystem.filterMap_eq_map_marked fun e he entry hentry ↦ ?_
  obtain ⟨i, event⟩ := e
  obtain rfl : event = .recorded entry := by
    cases event with
    | recorded entry' => exact congrArg FireEvent.recorded (Option.some.inj hentry)
    | timed => exact absurd hentry nofun
    | sent => exact absurd hentry nofun
    | printed => exact absurd hentry nofun
  obtain ⟨sendTime, result, hproj⟩ := hentries i
  exact entry_of_mem (hproj ▸ mem_proj.mpr he)

end

/-! ## What has happened when all are joined -/

/-- What thread `i` has done: its request was recorded as entry `i`, and it was sent later. -/
structure WasFired (construct : Vector UInt8 12 → List UInt8) (inetPton : String → UInt32)
    (ipList : List String) (log : List (Fin (threadArgs ipList).length × FireEvent))
    (i : Fin (threadArgs ipList).length) (entry : SendEntry) : Prop where
  recorded : (recordCalls log)[i.val]? = some entry
  sent : ∃ sendTime result, entry.sendTime ≤ sendTime ∧
    proj i log = .recorded entry :: .timed sendTime ::
      fireOutput construct inetPton ((threadArgs ipList).get i) entry.transId sendTime result

section

variable {construct : Vector UInt8 12 → List UInt8} {inetPton : String → UInt32}
  {ipList : List String} {s : TaskState (Fin (threadArgs ipList).length) FireThread FireEvent}

theorem wasFired_of_returned
    (h : (fireTasks construct inetPton ipList).Reaches (fireProgram ipList) s)
    (htodo : s.todo = []) (hclock : ClockIsMonotonic s.log) :
    (recordCalls s.log).length = min maxThreads (6 * ipList.length) ∧
      (∀ entry ∈ recordCalls s.log, ∃ i, WasFired construct inetPton ipList s.log i entry) ∧
      ∀ i, ∃ entry, WasFired construct inetPton ipList s.log i entry := by
  choose entries hentries using proj_of_returned h htodo
  have hcalls := recordCalls_of_returned h htodo hentries
  have hfired (i : Fin (threadArgs ipList).length) :
      WasFired construct inetPton ipList s.log i (entries i) := by
    refine ⟨?_, ?_⟩
    · rw [hcalls, List.getElem?_map, List.getElem?_eq_getElem (by
        rw [List.length_finRange]
        exact i.isLt), List.getElem_finRange]
      rfl
    · obtain ⟨sendTime, result, hproj⟩ := hentries i
      refine ⟨sendTime, result, ?_, hproj⟩
      -- the two readings stand in this order in the log
      have hsub : ([(entries i).sendTime, sendTime] : List ℚ).Sublist
          (s.log.filterMap fun e ↦ e.2.time?) := by
        have htimes := (proj_sublist i s.log).filterMap FireEvent.time?
        rw [hproj, List.filterMap_map] at htimes
        refine List.Sublist.trans ?_ htimes
        exact ((List.nil_sublist _).cons_cons _).cons_cons _
      exact List.pairwise_pair.mp (hclock.sublist hsub)
  refine ⟨?_, fun entry hentry ↦ ?_, fun i ↦ ⟨entries i, hfired i⟩⟩
  · rw [hcalls, List.length_map, List.length_finRange, length_threadArgs]
  · rw [hcalls] at hentry
    obtain ⟨i, -, rfl⟩ := List.mem_map.mp hentry
    exact ⟨i, hfired i⟩

theorem mem_of_getSendTime_pos {calls : List SendEntry} {transId : Vector UInt8 12}
    (h : getSendTime (recordAll calls) transId > 0) :
    ∃ entry ∈ calls, entry.transId = transId ∧
      entry.sendTime = getSendTime (recordAll calls) transId := by
  rw [getSendTime] at h ⊢
  cases hfind : (recordAll calls).entries.find? fun e ↦ decide (e.transId = transId) with
  | none =>
    rw [hfind] at h
    exact absurd h (by decide)
  | some entry =>
    have htest := List.find?_some hfind
    have hmem := List.mem_of_find?_eq_some hfind
    rw [entries_recordAll] at hmem
    exact ⟨entry, List.mem_of_mem_take hmem, of_decide_eq_true htest, rfl⟩

theorem Poll.getSendTime_pos_of_result {fl : ℚ → ℚ} {p : Poll} {lookup : Vector UInt8 12 → ℚ}
    {r : Result} (h : p.result fl lookup = some r) : lookup r.transId > 0 := by
  rw [result] at h
  cases hrecv : p.recv with
  | none =>
    rw [hrecv] at h
    cases h
  | some recv =>
    rw [hrecv] at h
    simp only at h
    split_ifs at h with _ _ hpos
    obtain rfl := Option.some.inj h
    exact hpos

end

/-- **Every reply that is listed belongs to a request that was sent.** `socket`, `setsockopt`,
`bind` and every `pthread_create` succeed. Whatever the schedule and whatever `sendto` returns,
`fire_stun_to_all` comes to its end. Then, if the clock has not gone back, each of the first 1024
pairs of an address and a port has been sent one request, by its thread, with the id recorded for
it; the records are in the order of the pairs, all are in the table, and none is later than the
clock reading its thread takes before it sends. Whatever arrives afterwards, each of the results,
and so each line that is printed, is for a Binding Response with the id of such a request, and its
time counts from that record. -/
theorem fire_and_listen (fl : ℚ → ℚ) (construct : Vector UInt8 12 → List UInt8)
    (inetPton : String → UInt32) (ipList : List String) :
    (∀ s, (fireTasks construct inetPton ipList).Reaches (fireProgram ipList) s →
        ∃ t, Relation.ReflTransGen (fireTasks construct inetPton ipList).Step s t ∧ t.todo = []) ∧
      (¬∃ run : ℕ → TaskState _ _ _, run 0 = TaskSystem.initial (fireProgram ipList) ∧
        ∀ k, (fireTasks construct inetPton ipList).Step (run k) (run (k + 1))) ∧
      ∀ s, (fireTasks construct inetPton ipList).Reaches (fireProgram ipList) s → s.todo = [] →
        ClockIsMonotonic s.log →
        (recordAll (recordCalls s.log)).entries = recordCalls s.log ∧
          (recordCalls s.log).length = min maxThreads (6 * ipList.length) ∧
          (∀ i, ∃ entry, WasFired construct inetPton ipList s.log i entry) ∧
          ∀ input results, listenForStunResponses fl maxTargets
              (getSendTime (recordAll (recordCalls s.log))) input = some results →
            (∀ r ∈ printedResults results, r ∈ results) ∧
              ∀ r ∈ results, ∃ i entry, WasFired construct inetPton ipList s.log i entry ∧
                entry.transId = r.transId ∧ ∃ p ∈ input.window fl,
                  p.responseId = some r.transId ∧
                    r.reply.rttMs = fl (getTimestampMs fl p.now - entry.sendTime) := by
  have hprogram : TaskSystem.IsProgram (fireProgram ipList) := TaskSystem.isProgram_finRange _
  refine ⟨fun s h ↦ TaskSystem.exists_returned hprogram lively_fireTasks measured_fireTasks h,
    TaskSystem.not_endless hprogram measured_fireTasks, fun s h htodo hclock ↦ ?_⟩
  obtain ⟨hlength, hrecorded, hall⟩ := wasFired_of_returned h htodo hclock
  refine ⟨?_, hlength, hall, fun input results hresults ↦ ⟨fun r hr ↦ ?_, fun r hr ↦ ?_⟩⟩
  · rw [entries_recordAll, List.take_of_length_le]
    exact hlength.trans_le (Nat.min_le_left _ _)
  · obtain ⟨listed, hlisted, -⟩ := printedResults_isTop results
    rw [hlisted] at hr
    obtain ⟨i, -, rfl⟩ := List.mem_map.mp hr
    exact List.get_mem results i
  · rw [listenForStunResponses] at hresults
    split_ifs at hresults
    obtain rfl := Option.some.inj hresults
    rw [listenLoop_eq _ _ _ (Nat.zero_le _), List.nil_append] at hr
    obtain ⟨p, hp, hresult⟩ := List.mem_filterMap.mp (List.mem_of_mem_take hr)
    obtain ⟨hresponse, hrtt⟩ := Poll.of_result hresult
    obtain ⟨entry, hentry, hid, htime⟩ :=
      mem_of_getSendTime_pos (Poll.getSendTime_pos_of_result hresult)
    obtain ⟨i, hfired⟩ := hrecorded entry hentry
    exact ⟨i, entry, hfired, hid, p, hp, hresponse, by rw [hrtt, htime]⟩

theorem exists_returned_still (construct : Vector UInt8 12 → List UInt8)
    (inetPton : String → UInt32) (ipList : List String) (now : ℚ) :
    ∃ s, (fireTasks construct inetPton ipList).Reaches (fireProgram ipList) s ∧ s.todo = [] ∧
      ClockIsMonotonic s.log := by
  set S := (fireTasks construct inetPton ipList).restrict fun _ e ↦ ∀ t ∈ e.time?, t = now with hS
  have hlively : S.Lively := by
    refine ⟨fun i ↦ ⟨_, _, ⟨⟨Vector.replicate 12 0, now⟩, rfl, rfl⟩, fun e he ↦ ?_⟩,
      fun i log a _ hdone ↦ ?_⟩
    · obtain rfl := List.mem_singleton.mp he
      exact fun t ht ↦ (Option.some.inj ht).symm
    · cases a with
      | created transId =>
        refine ⟨_, _, FireStep.readClock transId now, fun e he ↦ ?_⟩
        obtain rfl := List.mem_singleton.mp he
        exact fun t ht ↦ (Option.some.inj ht).symm
      | timed transId sendTime =>
        refine ⟨_, _, FireStep.send transId sendTime 0, fun e he ↦ ?_⟩
        obtain rfl := List.mem_singleton.mp he
        exact nofun
      | exited => exact absurd hdone nofun
  obtain ⟨s, hreach, htodo⟩ := TaskSystem.exists_returned (TaskSystem.isProgram_finRange _) hlively
    (measured_fireTasks.restrict _)
    (Relation.ReflTransGen.refl : S.Reaches (fireProgram ipList) (TaskSystem.initial _))
  obtain ⟨hreach, hlog⟩ := TaskSystem.reaches_of_restrict hreach
  refine ⟨s, hreach, htodo, List.pairwise_of_forall_mem_list fun t ht u hu ↦ ?_⟩
  obtain ⟨e, he, ht⟩ := List.mem_filterMap.mp ht
  obtain ⟨f, hf, hu⟩ := List.mem_filterMap.mp hu
  exact ((hlog e he t ht).trans (hlog f hf u hu).symm).le

def bindingRequest (transId : Vector UInt8 12) : List UInt8 :=
  [0x00, 0x01, 0x00, 0x00, 0x21, 0x12, 0xA4, 0x42] ++ transId.toList

/-- One address: six requests are recorded and sent. -/
theorem fire_and_listen_oneAddress :
    ∃ s, (fireTasks bindingRequest (fun _ ↦ 0x7F8C7D4A) ["74.125.140.127"]).Reaches
        (fireProgram ["74.125.140.127"]) s ∧ s.todo = [] ∧ (recordCalls s.log).length = 6 ∧
      ∀ i, ∃ entry,
        WasFired bindingRequest (fun _ ↦ 0x7F8C7D4A) ["74.125.140.127"] s.log i entry := by
  obtain ⟨s, hreach, htodo, hclock⟩ :=
    exists_returned_still bindingRequest (fun _ ↦ 0x7F8C7D4A) ["74.125.140.127"] 5
  obtain ⟨-, hlength, hfired, -⟩ :=
    (fire_and_listen id bindingRequest _ ["74.125.140.127"]).2.2 s hreach htodo hclock
  exact ⟨s, hreach, htodo, hlength, hfired⟩

end NatGhost.BlastController
