import NatGhost.Archive.BurstBlaster
import NatGhost.Foundation.ForkJoin
import NatGhost.Foundation.Interleaving
import NatGhost.Stun.Timing

/-!
# The threads of `burst_blaster`

`main` starts a thread `stun_ping` for each server, joins them all and then ranks the servers. A
thread sends a request, waits up to 200 ms for a datagram, and stores the milliseconds between two
clock readings in the table, under a lock. It does not look at what `recvfrom` returns. So a server
that did not answer gets the length of the timeout as its round-trip time, and a server that
answered within a millisecond gets 0, the value that stands for no answer.

## Time

`recvfrom` is called after the first reading and returns before the second one: as soon as there is
a datagram, or, if none has come, when the timeout is over. It is over 200 ms after the call, or
somewhat later as the kernel rounds it. All times are on the clock that the thread reads.

## Steps

A thread goes from `pinging` to `measured` without touching anything shared, takes the lock, stores
and releases the lock; threads whose server has no address, or that get no socket, exit at once.
What the calls return is input, one `Ping` for each thread. Each entry of the table is written by
one thread only, so the order of the threads does not matter (`Good.rtt`), and every run can be
brought to its end (`exists_joined`).
-/

namespace NatGhost.Blaster

/-! ## The code -/

/-- When `recvfrom` returns: with the datagram, if it gets to the socket in time, and else when it
gives up. -/
def returnTime (called deadline : ℤ) : Option ℤ → ℤ
  | some arrival => if arrival < deadline then max called arrival else deadline
  | none => deadline

/-- What happens between the two clock readings of a thread; times are in nanoseconds. -/
structure Exchange where
  start : Timespec
  /-- When `recvfrom` is called. -/
  called : ℤ
  start_le : start.nanos ≤ called
  /-- When the first datagram gets to the socket, if one ever does. -/
  arrival : Option ℤ
  /-- When `recvfrom` gives up. -/
  deadline : ℤ
  timeout : called + 200000000 ≤ deadline
  stop : Timespec
  returned : returnTime called deadline arrival ≤ stop.nanos

/-- A datagram is received before the timeout. -/
def Exchange.received (e : Exchange) : Bool := e.arrival.any fun t ↦ decide (t < e.deadline)

/-- What the calls of a thread lead to. -/
inductive Ping where
  /-- `getaddrinfo` fails. -/
  | unresolved
  /-- `socket` fails. -/
  | noSocket
  | exchange (e : Exchange)

def Ping.received : Ping → Bool
  | .exchange e => e.received
  | _ => false

/-- `rtt`, if the thread gets there. -/
def Ping.rtt : Ping → Option ℤ
  | .exchange e => some (Timespec.elapsedMs e.stop e.start)
  | _ => none

inductive PingThread where
  | pinging
  | measured (rtt : ℤ)
  | locked (rtt : ℤ)
  | stored
  | exited
  deriving DecidableEq

/-- The statements of `main` up to the ranking. -/
abbrev Stmt (n : ℕ) := ForkStmt (Fin n) Empty

/-- The program: what `main` has still to do, the threads it has started, the holder of the lock,
and the table. -/
structure System (n : ℕ) where
  todo : List (Stmt n)
  threads : Fin n → Option PingThread
  lock : Option (Fin n)
  servers : Fin n → StunServer

variable {n : ℕ}

/-- Thread `i` goes on to `t`. -/
def System.move (s : System n) (i : Fin n) (t : PingThread) : System n :=
  { s with threads := Function.update s.threads i (some t) }

/-- The program at its start: static storage is zero, and so are all round-trip times. -/
def System.initial (hosts : Fin n → String × UInt16) : System n where
  todo := (List.finRange n).map .start ++ (List.finRange n).map .join
  threads := fun _ ↦ none
  lock := none
  servers := fun i ↦ ⟨(hosts i).1, (hosts i).2, 0⟩

variable (pings : Fin n → Ping)

/-- A step of `main` or of a thread. -/
inductive Step : System n → System n → Prop
  | create {s : System n} {i : Fin n} {todo : List (Stmt n)} (htodo : s.todo = .start i :: todo) :
      Step s { s.move i .pinging with todo }
  | join {s : System n} {i : Fin n} {todo : List (Stmt n)} (htodo : s.todo = .join i :: todo)
      (hexited : s.threads i = some .exited) : Step s { s with todo }
  | fail {s : System n} {i : Fin n} (hi : s.threads i = some .pinging)
      (hping : (pings i).rtt = none) : Step s (s.move i .exited)
  | measure {s : System n} {i : Fin n} {rtt : ℤ} (hi : s.threads i = some .pinging)
      (hping : (pings i).rtt = some rtt) : Step s (s.move i (.measured rtt))
  | lock {s : System n} {i : Fin n} {rtt : ℤ} (hi : s.threads i = some (.measured rtt))
      (hfree : s.lock = none) : Step s { s.move i (.locked rtt) with lock := some i }
  | store {s : System n} {i : Fin n} {rtt : ℤ} (hi : s.threads i = some (.locked rtt)) :
      Step s { s.move i .stored with
        servers := Function.update s.servers i { s.servers i with rttMs := rtt } }
  | unlock {s : System n} {i : Fin n} (hi : s.threads i = some .stored) :
      Step s { s.move i .exited with lock := none }

/-! ## What every step preserves -/

/-- The round-trip time in the table, by where the thread is. -/
def tableRtt (ping : Ping) : Option PingThread → ℤ
  | some .stored | some .exited => ping.rtt.getD 0
  | _ => 0

def PingThread.carried : PingThread → Option ℤ
  | .measured rtt | .locked rtt => some rtt
  | _ => none

def PingThread.holdsLock : PingThread → Bool
  | .locked _ | .stored => true
  | _ => false

def System.started (s : System n) (i : Fin n) : Bool := (s.threads i).isSome

def System.exited (s : System n) (i : Fin n) : Bool := decide (s.threads i = some .exited)

/-- **The invariant.** -/
structure Good (s : System n) : Prop where
  course : OnCourse s.started s.exited s.todo
  rtt : ∀ i, (s.servers i).rttMs = tableRtt (pings i) (s.threads i)
  carried : ∀ i t rtt, s.threads i = some t → t.carried = some rtt → (pings i).rtt = some rtt
  lock : ∀ i, s.lock = some i ↔ ∃ t, s.threads i = some t ∧ t.holdsLock = true

section

variable {pings} {s s' : System n} {i j : Fin n} {t t' : PingThread}

theorem System.threads_move_self (s : System n) (i : Fin n) (t : PingThread) :
    (s.move i t).threads i = some t := Function.update_self ..

theorem System.threads_move_of_ne (s : System n) (t : PingThread) (h : j ≠ i) :
    (s.move i t).threads j = s.threads j := Function.update_of_ne h ..

theorem System.started_move (t' : PingThread) (hi : s.threads i = some t) :
    (s.move i t').started = s.started := by
  funext j
  rw [started, started]
  rcases eq_or_ne j i with rfl | hne
  · rw [threads_move_self, hi]
    rfl
  · rw [threads_move_of_ne s t' hne]

theorem System.exited_move (t' : PingThread) (hi : s.threads i ≠ some .exited) (j : Fin n)
    (hj : s.exited j = true) : (s.move i t').exited j = true := by
  rw [exited, decide_eq_true_iff] at *
  have hne : j ≠ i := by
    rintro rfl
    exact hi hj
  rw [threads_move_of_ne s t' hne, hj]

theorem Good.set (h : Good pings s) (hi : s.threads i ≠ some .exited) {todo : List (Stmt n)}
    {lock : Option (Fin n)} {servers : Fin n → StunServer}
    (hcourse : OnCourse (s.move i t').started s.exited todo)
    (hothers : ∀ j, j ≠ i → servers j = s.servers j)
    (hrtt : (servers i).rttMs = tableRtt (pings i) (some t'))
    (hcarried : ∀ rtt, t'.carried = some rtt → (pings i).rtt = some rtt)
    (hlock : ∀ j, j ≠ i → (lock = some j ↔ s.lock = some j))
    (hlock' : lock = some i ↔ t'.holdsLock = true) :
    Good pings { s.move i t' with todo, lock, servers } where
  course := hcourse.mono (System.exited_move t' hi)
  rtt j := by
    rcases eq_or_ne j i with rfl | hne
    · change (servers j).rttMs = tableRtt (pings j) ((s.move j t').threads j)
      rw [hrtt, System.threads_move_self]
    · change (servers j).rttMs = tableRtt (pings j) ((s.move i t').threads j)
      rw [hothers j hne, h.rtt j, System.threads_move_of_ne s t' hne]
  carried j t'' rtt hj := by
    change (s.move i t').threads j = some t'' at hj
    rcases eq_or_ne j i with rfl | hne
    · rw [System.threads_move_self] at hj
      obtain rfl := Option.some.inj hj
      exact hcarried rtt
    · rw [System.threads_move_of_ne s t' hne] at hj
      exact h.carried j t'' rtt hj
  lock j := by
    change lock = some j ↔ ∃ t, (s.move i t').threads j = some t ∧ _
    rcases eq_or_ne j i with rfl | hne
    · rw [hlock', System.threads_move_self]
      exact ⟨fun hholds ↦ ⟨t', rfl, hholds⟩, fun ⟨t, heq, hholds⟩ ↦ Option.some.inj heq ▸ hholds⟩
    · rw [hlock j hne, System.threads_move_of_ne s t' hne, h.lock j]

theorem Good.move (h : Good pings s) (hi : s.threads i = some t) (ht : t ≠ .exited)
    {lock : Option (Fin n)} {servers : Fin n → StunServer}
    (hothers : ∀ j, j ≠ i → servers j = s.servers j)
    (hrtt : (servers i).rttMs = tableRtt (pings i) (some t'))
    (hcarried : ∀ rtt, t'.carried = some rtt → (pings i).rtt = some rtt)
    (hlock : ∀ j, j ≠ i → (lock = some j ↔ s.lock = some j))
    (hlock' : lock = some i ↔ t'.holdsLock = true) :
    Good pings { s.move i t' with lock, servers } := by
  have hexited : s.threads i ≠ some .exited := fun heq ↦ ht (Option.some.inj (hi.symm.trans heq))
  have hcourse := h.course
  rw [← System.started_move t' hi] at hcourse
  exact h.set hexited hcourse hothers hrtt hcarried hlock hlock'

theorem Good.move_outside (h : Good pings s) (hi : s.threads i = some t) (ht : t ≠ .exited)
    (hrtt : tableRtt (pings i) (some t) = tableRtt (pings i) (some t'))
    (hcarried : ∀ rtt, t'.carried = some rtt → (pings i).rtt = some rtt)
    (hout : t.holdsLock = false) (hout' : t'.holdsLock = false) : Good pings (s.move i t') := by
  refine h.move hi ht (fun _ _ ↦ rfl) ?_ hcarried (fun _ _ ↦ Iff.rfl) ?_
  · rw [h.rtt i, hi, hrtt]
  · rw [h.lock i, hout']
    refine iff_of_false (fun ⟨t'', heq, hholds⟩ ↦ ?_) Bool.false_ne_true
    obtain rfl := Option.some.inj (hi.symm.trans heq)
    exact absurd hholds (by rw [hout]; exact Bool.false_ne_true)

theorem Good.initial (pings : Fin n → Ping) (hosts : Fin n → String × UInt16) :
    Good pings (System.initial hosts) where
  course := by
    refine ⟨?_, fun i ↦ Or.inl ?_⟩
    · refine wellForked_starts (List.nodup_finRange n) (fun _ _ ↦ rfl) ?_
      have hjoins : wellForked (fun i ↦ false || decide (i ∈ List.finRange n))
          ((List.finRange n).map ForkStmt.join ++ ([] : List (Stmt n))) = true :=
        wellForked_joins (fun i hi ↦ decide_eq_true hi) rfl
      rwa [List.append_nil] at hjoins
    · exact List.mem_append_right _ (List.mem_map_of_mem (List.mem_finRange i))
  rtt i := rfl
  carried i t rtt hi := absurd hi.symm (Option.some_ne_none t)
  lock i := iff_of_false (Option.some_ne_none i).symm fun ⟨t, heq, _⟩ ↦
    Option.some_ne_none t heq.symm

theorem Good.eq_none (h : Good pings s) {todo : List (Stmt n)}
    (htodo : s.todo = .start i :: todo) : s.threads i = none := by
  have hcourse := h.course
  rw [htodo] at hcourse
  exact Option.isNone_iff_eq_none.mp (Option.isSome_eq_false_iff.mp hcourse.started_eq_false)

theorem Good.create (h : Good pings s) {todo : List (Stmt n)}
    (htodo : s.todo = .start i :: todo) : Good pings { s.move i .pinging with todo } := by
  have hnone := h.eq_none htodo
  have hcourse := h.course
  rw [htodo] at hcourse
  have hstarted : (s.move i .pinging).started = Function.update s.started i true := by
    funext j
    rw [System.started]
    rcases eq_or_ne j i with rfl | hne
    · rw [System.threads_move_self, Function.update_self]
      rfl
    · rw [System.threads_move_of_ne s _ hne, Function.update_of_ne hne, System.started]
  have hstart := hcourse.start
  rw [← hstarted] at hstart
  -- a thread that has just been created has no lock, and no time in the table
  refine h.set (by rw [hnone]; exact (Option.some_ne_none _).symm) hstart (fun _ _ ↦ rfl) ?_ nofun
    (fun _ _ ↦ Iff.rfl) (iff_of_false (fun hheld ↦ ?_) Bool.false_ne_true)
  · have hrtt := h.rtt i
    rwa [hnone] at hrtt
  · obtain ⟨t, ht, -⟩ := (h.lock i).mp hheld
    exact Option.some_ne_none t (ht.symm.trans hnone)

/-- **What every step preserves.** -/
theorem Good.step (h : Good pings s) (hstep : Step pings s s') : Good pings s' := by
  cases hstep with
  | @create i todo htodo => exact h.create htodo
  | @join i todo htodo hexited =>
    have hcourse := h.course
    rw [htodo] at hcourse
    exact ⟨hcourse.join (decide_eq_true hexited), h.rtt, h.carried, h.lock⟩
  | @fail i hi hping =>
    refine h.move_outside hi (fun heq ↦ nomatch heq) ?_ nofun rfl rfl
    change 0 = (pings i).rtt.getD 0
    rw [hping]
    rfl
  | @measure i rtt hi hping =>
    refine h.move_outside hi (fun heq ↦ nomatch heq) rfl (fun rtt' heq ↦ ?_) rfl rfl
    obtain rfl := Option.some.inj heq
    exact hping
  | @lock i rtt hi hfree =>
    refine h.move hi (fun heq ↦ nomatch heq) (fun _ _ ↦ rfl) ?_ (fun rtt' heq ↦ ?_)
      (fun j hne ↦ ?_) ?_
    · have hrtt := h.rtt i
      rwa [hi] at hrtt
    · exact h.carried i _ rtt' hi heq
    · rw [hfree]
      exact iff_of_false (fun heq ↦ hne (Option.some.inj heq).symm) (Option.some_ne_none j).symm
    · exact iff_of_true rfl rfl
  | @store i rtt hi =>
    refine h.move hi (fun heq ↦ nomatch heq) (fun j hne ↦ Function.update_of_ne hne ..) ?_ nofun
      (fun _ _ ↦ Iff.rfl) ?_
    · rw [Function.update_self, tableRtt, h.carried i _ rtt hi rfl]
      rfl
    · exact iff_of_true ((h.lock i).mpr ⟨_, hi, rfl⟩) rfl
  | @unlock i hi =>
    have hheld := (h.lock i).mpr ⟨_, hi, rfl⟩
    refine h.move hi (fun heq ↦ nomatch heq) (fun _ _ ↦ rfl) ?_ nofun (fun j hne ↦ ?_) ?_
    · have hrtt := h.rtt i
      rwa [hi] at hrtt
    · rw [hheld]
      exact iff_of_false (Option.some_ne_none j).symm fun heq ↦ hne (Option.some.inj heq).symm
    · exact iff_of_false (Option.some_ne_none i).symm Bool.false_ne_true

end

/-! ## Runs -/

def Reaches (pings : Fin n → Ping) (hosts : Fin n → String × UInt16) (s : System n) : Prop :=
  Relation.ReflTransGen (Step pings) (System.initial hosts) s

def threadStepsLeft : Option PingThread → ℕ
  | none | some .pinging => 4
  | some (.measured _) => 3
  | some (.locked _) => 2
  | some .stored => 1
  | some .exited => 0

def stepsLeft (s : System n) : ℕ := s.todo.length + ∑ i, threadStepsLeft (s.threads i)

section

variable {pings} {hosts : Fin n → String × UInt16} {s s' : System n} {i : Fin n} {t : PingThread}

theorem Good.of_reaches (h : Reaches pings hosts s) : Good pings s := by
  induction h with
  | refl => exact Good.initial pings hosts
  | tail _ hstep ih => exact ih.step hstep

theorem sum_move (s : System n) (i : Fin n) (t : PingThread) :
    ∑ j, threadStepsLeft ((s.move i t).threads j) + threadStepsLeft (s.threads i)
      = ∑ j, threadStepsLeft (s.threads j) + threadStepsLeft (some t) :=
  sum_update_add (fun _ ↦ threadStepsLeft) s.threads i (some t)

theorem Good.stepsLeft_lt (h : Good pings s) (hstep : Step pings s s') :
    stepsLeft s' < stepsLeft s := by
  have hmove (i : Fin n) (t : PingThread)
      (hless : threadStepsLeft (some t) < threadStepsLeft (s.threads i)) :
      s.todo.length + ∑ j, threadStepsLeft ((s.move i t).threads j) < stepsLeft s := by
    have hsum := sum_move s i t
    rw [stepsLeft]
    omega
  cases hstep with
  | @create i todo htodo =>
    have hsum := sum_move s i .pinging
    rw [h.eq_none htodo] at hsum
    change todo.length + ∑ j, threadStepsLeft ((s.move i .pinging).threads j) < stepsLeft s
    rw [stepsLeft, htodo, List.length_cons]
    change _ + 4 = _ + 4 at hsum
    omega
  | @join i todo htodo hexited =>
    change todo.length + _ < stepsLeft s
    rw [stepsLeft, htodo, List.length_cons]
    exact Nat.add_lt_add_right (Nat.lt_succ_self _) _
  | @fail i hi hping => exact hmove i .exited (by rw [hi]; decide)
  | @measure i rtt hi hping => exact hmove i (.measured rtt) (by rw [hi]; exact Nat.lt_succ_self 3)
  | @lock i rtt hi hfree => exact hmove i (.locked rtt) (by rw [hi]; exact Nat.lt_succ_self 2)
  | @store i rtt hi => exact hmove i .stored (by rw [hi]; exact Nat.lt_succ_self 1)
  | @unlock i hi => exact hmove i .exited (by rw [hi]; exact Nat.lt_succ_self 0)

theorem exists_step_of_holdsLock (hi : s.threads i = some t) (ht : t.holdsLock = true) :
    ∃ s', Step pings s s' := by
  cases t with
  | locked rtt => exact ⟨_, Step.store hi⟩
  | stored => exact ⟨_, Step.unlock hi⟩
  | pinging => cases ht
  | measured rtt => cases ht
  | exited => cases ht

theorem Good.exists_threadStep (h : Good pings s) (hi : s.threads i = some t) (ht : t ≠ .exited) :
    ∃ s', Step pings s s' := by
  cases t with
  | pinging =>
    cases hping : (pings i).rtt with
    | none => exact ⟨_, Step.fail hi hping⟩
    | some rtt => exact ⟨_, Step.measure hi hping⟩
  | measured rtt =>
    cases hlock : s.lock with
    | none => exact ⟨_, Step.lock hi hlock⟩
    | some j =>
      obtain ⟨t, hj, hholds⟩ := (h.lock j).mp hlock
      exact exists_step_of_holdsLock hj hholds
  | locked rtt => exact exists_step_of_holdsLock hi rfl
  | stored => exact exists_step_of_holdsLock hi rfl
  | exited => exact absurd rfl ht

/-- **No deadlock**: until all threads are joined, something can happen. -/
theorem Good.exists_step (h : Good pings s) (hunfinished : s.todo ≠ []) :
    ∃ s', Step pings s s' := by
  have hcourse := h.course
  obtain ⟨stmt, todo, htodo⟩ := List.exists_cons_of_ne_nil hunfinished
  rw [htodo] at hcourse
  cases stmt with
  | start i => exact ⟨_, Step.create htodo⟩
  | join i =>
    obtain ⟨t, hi⟩ := Option.isSome_iff_exists.mp hcourse.started_eq_true
    by_cases ht : t = .exited
    · exact ⟨_, Step.join htodo (ht ▸ hi)⟩
    · exact h.exists_threadStep hi ht
  | call c => exact c.elim

variable (pings hosts) in
/-- **Every run can be brought to its end.** -/
theorem exists_joined : ∃ s, Reaches pings hosts s ∧ s.todo = [] :=
  exists_reaches_final stepsLeft (fun _ _ hstep hs ↦ hs.step hstep)
    (fun _ _ hstep hs ↦ hs.stepsLeft_lt hstep) (fun _ hs hunfinished ↦ hs.exists_step hunfinished)
    (Good.initial pings hosts)

theorem rttMs_of_joined (h : Reaches pings hosts s) (hjoined : s.todo = []) (i : Fin n) :
    (s.servers i).rttMs = (pings i).rtt.getD 0 := by
  have hgood := Good.of_reaches h
  have hcourse := hgood.course
  rw [hjoined] at hcourse
  have hexited := of_decide_eq_true (hcourse.done_eq_true i)
  rw [hgood.rtt i, hexited, tableRtt]

end

/-! ## Who has answered -/

theorem elapsedMs_pos_iff {later earlier : Timespec} (h : earlier ≤ later) :
    0 < Timespec.elapsedMs later earlier
      ↔ later.Borrows earlier ∨ 1000000 ≤ later.nanosSince earlier := by
  have hnonneg : 0 ≤ later.nanosSince earlier := Int.sub_nonneg_of_le h
  by_cases hborrows : later.Borrows earlier
  · have hne : later.nanosSince earlier ≠ 0 := by
      intro hzero
      rw [Timespec.nanosSince_eq] at hzero
      rw [Timespec.Borrows] at hborrows
      have h₁ := later.nsec_nonneg
      have h₂ := earlier.nsec_lt
      omega
    rw [Timespec.elapsedMs_of_borrows hborrows]
    refine iff_of_true ?_ (Or.inl hborrows)
    omega
  · rw [Timespec.elapsedMs_of_not_borrows hborrows, or_iff_right hborrows]
    omega

theorem Exchange.received_iff (e : Exchange) :
    e.received = true ↔ ∃ t, e.arrival = some t ∧ t < e.deadline := by
  rw [received]
  cases e.arrival with
  | none => exact iff_of_false Bool.false_ne_true fun ⟨_, h, _⟩ ↦ nomatch h
  | some t =>
    rw [Option.any_some, decide_eq_true_iff]
    exact ⟨fun h ↦ ⟨t, rfl, h⟩, fun ⟨_, h, hlt⟩ ↦ Option.some.inj h ▸ hlt⟩

/-- `recvfrom` takes as long as the timeout if nothing comes. -/
theorem Exchange.timeout_le (e : Exchange) (h : e.received = false) :
    200000000 ≤ e.stop.nanosSince e.start := by
  have hdeadline : returnTime e.called e.deadline e.arrival = e.deadline := by
    rw [received] at h
    cases harrival : e.arrival with
    | none => rfl
    | some t =>
      rw [harrival, Option.any_some, decide_eq_false_iff_not] at h
      exact if_neg h
  have hreturned := e.returned
  have hstart := e.start_le
  have htimeout := e.timeout
  rw [hdeadline] at hreturned
  rw [Timespec.nanosSince]
  omega

theorem Exchange.start_le_stop (e : Exchange) : e.start ≤ e.stop := by
  have hcalled : e.called ≤ returnTime e.called e.deadline e.arrival := by
    have htimeout := e.timeout
    cases e.arrival with
    | none => exact show e.called ≤ e.deadline by omega
    | some t =>
      rw [returnTime]
      split_ifs
      · exact le_max_left _ _
      · omega
  exact (e.start_le.trans hcalled).trans e.returned

/-- A thread that gets to `recvfrom` receives a datagram before its timeout, and the clock readings
are a millisecond apart or differ in their seconds with the second one lower in nanoseconds. -/
def Ping.Clear : Ping → Prop
  | .exchange e => (∃ t, e.arrival = some t ∧ t < e.deadline) ∧
      (1000000 ≤ e.stop.nanosSince e.start ∨ e.stop.Borrows e.start)
  | _ => True

theorem Ping.rtt_pos_iff (ping : Ping) :
    (0 < ping.rtt.getD 0 ↔ ping.received = true) ↔ ping.Clear := by
  cases ping with
  | unresolved => exact iff_of_true (iff_of_false (lt_irrefl 0) Bool.false_ne_true) trivial
  | noSocket => exact iff_of_true (iff_of_false (lt_irrefl 0) Bool.false_ne_true) trivial
  | exchange e =>
    change (0 < Timespec.elapsedMs e.stop e.start ↔ e.received = true) ↔ _ ∧ _
    rw [elapsedMs_pos_iff e.start_le_stop, or_comm, ← e.received_iff]
    cases h : e.received with
    | true => simp only [true_and, iff_true]
    | false =>
      have htimeout := e.timeout_le h
      refine iff_of_false (fun hiff ↦ Bool.false_ne_true (hiff.mp (.inl (by omega)))) ?_
      exact fun hand ↦ Bool.false_ne_true hand.1

/-- **Who counts as answered.** When the threads are joined, the servers with a round-trip time are
those from which a datagram was received before the timeout exactly if every thread that has got as
far as `recvfrom` has received one, and none so soon that the readings around it are less than a
millisecond apart without a second beginning between them. -/
theorem answered_iff (hosts : Fin n → String × UInt16) (s : System n)
    (h : Reaches pings hosts s) (hjoined : s.todo = []) :
    (∀ i, 0 < (s.servers i).rttMs ↔ (pings i).received = true) ↔ ∀ i, (pings i).Clear := by
  refine forall_congr' fun i ↦ ?_
  rw [rttMs_of_joined h hjoined i]
  exact (pings i).rtt_pos_iff

/-! ## One server -/

/-- A thread that waits 200 ms in vain. -/
def silentServer : Ping := .exchange
  { start := .reading 0 0
    called := 0
    start_le := by decide
    arrival := none
    deadline := 200000000
    timeout := by decide
    stop := .reading 0 200000000
    returned := by decide }

/-- **A server that does not answer has a round-trip time.** -/
theorem silentServer_answers : ¬∀ (n : ℕ) (pings : Fin n → Ping) (hosts : Fin n → String × UInt16)
    (s : System n), Reaches pings hosts s → s.todo = [] →
      ∀ i, 0 < (s.servers i).rttMs ↔ (pings i).received = true := by
  intro h
  obtain ⟨s, hreaches, hjoined⟩ :=
    exists_joined (n := 1) (fun _ ↦ silentServer) fun _ ↦ ("stun.1und1.de", 3478)
  have hiff := h 1 _ _ s hreaches hjoined 0
  rw [rttMs_of_joined hreaches hjoined 0] at hiff
  exact absurd (hiff.mp (by decide)) Bool.false_ne_true

/-- A thread that receives a datagram after 20 ms. -/
def promptServer : Ping := .exchange
  { start := .reading 0 0
    called := 0
    start_le := by decide
    arrival := some 20000000
    deadline := 200000000
    timeout := by decide
    stop := .reading 0 20000000
    returned := by decide }

/-- A server that answers, and counts as one that has. -/
theorem answered_iff_promptServer : ∃ s : System 1,
    Reaches (fun _ ↦ promptServer) (fun _ ↦ ("stun.1und1.de", 3478)) s ∧ s.todo = [] ∧
      ∀ i, 0 < (s.servers i).rttMs ↔ promptServer.received = true := by
  obtain ⟨s, hreaches, hjoined⟩ :=
    exists_joined (n := 1) (fun _ ↦ promptServer) fun _ ↦ ("stun.1und1.de", 3478)
  refine ⟨s, hreaches, hjoined, ?_⟩
  exact (answered_iff (fun _ ↦ promptServer) _ s hreaches hjoined).mpr fun _ ↦
    ⟨⟨20000000, rfl, by decide⟩, .inl (by decide)⟩

end NatGhost.Blaster
