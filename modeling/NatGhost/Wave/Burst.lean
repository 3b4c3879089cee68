import NatGhost.Foundation.CText
import NatGhost.Foundation.Interleaving
import NatGhost.Foundation.Words

/-!
# The burst wave

`burst_wawe` starts 128 threads. Each prepares 512 messages, one for each port of its share, and
hands them to the kernel in a single `sendmmsg`, whose result it prints. The kernel sends the
messages in order, stops at the first one it refuses and returns how many it has sent, or -1 if that
is none. Nobody looks at that number: the messages behind a refused one are never sent.

A scheduler may switch between the threads after each message. Which ports the kernel refuses is a
parameter; Linux refuses port 0. Every thread is taken to be created and to get its socket; a thread
without one would send nothing.
-/

namespace NatGhost

/-! ## The messages -/

/-- `THREAD_COUNT`. -/
def threadCount : ℕ := 128

/-- `PORTS_PER_THREAD`. -/
def portsPerThread : ℕ := 512

/-- `PAYLOAD_SIZE`. -/
def payloadSize : ℕ := 20

/-- `"PORT%05d"`. -/
def payloadText (port : ℕ) : List Char := "PORT".toList ++ printPadded 5 port

/-- The payload for a port: the text and its NUL over whatever the array held. -/
def burstPayload (stale : Vector UInt8 20) (port : ℕ) : List UInt8 :=
  snprintf payloadSize (utf8Bytes (payloadText port)) stale.toList

/-- One entry of `msgs`: the port of its address, in network order, and what `iov_base` points
to. -/
structure BurstMessage where
  sinPort : UInt16
  payload : List UInt8

def BurstMessage.port (m : BurstMessage) : UInt16 := ntohs m.sinPort

section

variable (stale : ℕ → Vector UInt8 20)

def burstMessage (port : ℕ) : BurstMessage where
  sinPort := htons (UInt16.ofNat port)
  payload := burstPayload (stale port) port

/-- `msgs` of `burst_worker`. -/
def burstMessages (basePort : ℕ) : List BurstMessage :=
  (List.range portsPerThread).map fun i ↦ burstMessage stale (basePort + i)

end

/-! ## The threads -/

/-- A thread in `sendmmsg`, with the messages left and the number sent, or behind it with the
result. -/
inductive BurstThread where
  | sending (queue : List BurstMessage) (sent : ℕ)
  | returned (sent : ℤ)

section

variable (refused : UInt16 → Bool)

/-- One step of the kernel for a thread. -/
def BurstThread.next : BurstThread → Option (List BurstMessage × BurstThread)
  | .sending [] sent => some ([], .returned sent)
  | .sending (m :: queue) sent =>
    if refused m.port then some ([], .returned (if sent = 0 then -1 else sent))
    else some ([m], .sending queue (sent + 1))
  | .returned _ => none

/-- What a thread will still send: the messages in front of the first refused one. -/
def BurstThread.future : BurstThread → List BurstMessage
  | .sending queue _ => queue.takeWhile fun m ↦ !refused m.port
  | .returned _ => []

/-- The threads when `main` has created them. -/
def burstThreads (stale : ℕ → Vector UInt8 20) (i : Fin threadCount) : BurstThread :=
  .sending (burstMessages stale (i * portsPerThread)) 0

end

section

variable {refused : UInt16 → Bool} {a t : BurstThread} {out : List BurstMessage} {m : BurstMessage}
  {queue : List BurstMessage} {sent : ℕ}

theorem BurstThread.next_of_refused (h : refused m.port = true) :
    BurstThread.next refused (.sending (m :: queue) sent)
      = some ([], .returned (if sent = 0 then -1 else sent)) := if_pos h

theorem BurstThread.next_of_accepted (h : refused m.port = false) :
    BurstThread.next refused (.sending (m :: queue) sent) = some ([m], .sending queue (sent + 1)) :=
  if_neg (by rw [h]; exact Bool.false_ne_true)

/-- **What a step of a thread can be**: the end of the queue, a refused message, or a message that
is sent. -/
theorem BurstThread.next_cases (h : a.next refused = some (out, t)) :
    (∃ sent, a = .sending [] sent ∧ out = [] ∧ t = .returned sent) ∨
      (∃ m queue sent, a = .sending (m :: queue) sent ∧ refused m.port = true ∧ out = [] ∧
        t = .returned (if sent = 0 then -1 else sent)) ∨
      ∃ m queue sent, a = .sending (m :: queue) sent ∧ refused m.port = false ∧ out = [m] ∧
        t = .sending queue (sent + 1) := by
  cases a with
  | returned sent => exact absurd h nofun
  | sending queue sent =>
    cases queue with
    | nil =>
      obtain ⟨rfl, rfl⟩ := Prod.mk.inj (Option.some.inj h)
      exact Or.inl ⟨sent, rfl, rfl, rfl⟩
    | cons m queue =>
      cases hm : refused m.port with
      | true =>
        rw [next_of_refused hm] at h
        obtain ⟨rfl, rfl⟩ := Prod.mk.inj (Option.some.inj h)
        exact Or.inr (Or.inl ⟨m, queue, sent, rfl, hm, rfl, rfl⟩)
      | false =>
        rw [next_of_accepted hm] at h
        obtain ⟨rfl, rfl⟩ := Prod.mk.inj (Option.some.inj h)
        exact Or.inr (Or.inr ⟨m, queue, sent, rfl, hm, rfl, rfl⟩)

theorem BurstThread.future_eq (h : a.next refused = some (out, t)) :
    a.future refused = out ++ t.future refused := by
  obtain ⟨sent, rfl, rfl, rfl⟩ | ⟨m, queue, sent, rfl, hm, rfl, rfl⟩ |
    ⟨m, queue, sent, rfl, hm, rfl, rfl⟩ := next_cases h
  · rfl
  · rw [future, List.takeWhile_cons, hm]
    rfl
  · rw [future, List.takeWhile_cons, hm]
    rfl

theorem BurstThread.future_of_done (h : a.next refused = none) : a.future refused = [] := by
  cases a with
  | returned sent => rfl
  | sending queue sent =>
    cases queue with
    | nil => exact absurd h nofun
    | cons m queue =>
      cases hm : refused m.port with
      | true => exact absurd ((next_of_refused hm).symm.trans h) nofun
      | false => exact absurd ((next_of_accepted hm).symm.trans h) nofun

def BurstThread.stepsLeft : BurstThread → ℕ
  | .sending queue _ => queue.length + 1
  | .returned _ => 0

theorem BurstThread.stepsLeft_lt (h : a.next refused = some (out, t)) :
    t.stepsLeft < a.stepsLeft := by
  obtain ⟨sent, rfl, rfl, rfl⟩ | ⟨m, queue, sent, rfl, _, rfl, rfl⟩ |
    ⟨m, queue, sent, rfl, _, rfl, rfl⟩ := next_cases h
  · exact Nat.one_pos
  · exact Nat.succ_pos _
  · exact Nat.lt_succ_self _

end

/-! ## What a batch sends -/

theorem mem_takeWhile_range {test : ℕ → Bool} {n j : ℕ} :
    j ∈ (List.range n).takeWhile test ↔ j < n ∧ ∀ k ≤ j, test k = true := by
  rw [List.takeWhile_eq_take_findIdx_not, List.take_range, List.mem_range, lt_min_iff,
    List.lt_findIdx_iff]
  simp only [List.length_range, List.getElem_range, Bool.not_eq_eq_eq_not, Bool.not_false]
  constructor
  · rintro ⟨⟨_, htest⟩, hj⟩
    exact ⟨hj, htest⟩
  · rintro ⟨hj, htest⟩
    exact ⟨⟨hj, htest⟩, hj⟩

theorem port_burstMessage (stale : ℕ → Vector UInt8 20) (port : ℕ) :
    (burstMessage stale port).port = UInt16.ofNat port := ntohs_htons _

section

variable (stale : ℕ → Vector UInt8 20) (refused : UInt16 → Bool)

theorem map_port_future (i : Fin threadCount) :
    ((burstThreads stale i).future refused).map BurstMessage.port
      = ((List.range portsPerThread).takeWhile
          fun j ↦ !refused (UInt16.ofNat (i * portsPerThread + j))).map
          fun j ↦ UInt16.ofNat (i * portsPerThread + j) := by
  rw [burstThreads, BurstThread.future, burstMessages, List.takeWhile_map, List.map_map]
  simp only [Function.comp_def, port_burstMessage]

theorem toNat_batchPort (i : Fin threadCount) {j : ℕ} (hj : j < portsPerThread) :
    (UInt16.ofNat (i * portsPerThread + j)).toNat = i * portsPerThread + j := by
  have hi : (i : ℕ) < 128 := i.isLt
  simp only [portsPerThread] at hj ⊢
  exact UInt16.toNat_ofNat_of_lt' (show i * 512 + j < 65536 by omega)

end

/-- No port of the same batch up to this one is refused. -/
def Unobstructed (refused : UInt16 → Bool) (p : UInt16) : Prop :=
  ∀ q, q.toNat / portsPerThread = p.toNat / portsPerThread → q ≤ p → refused q = false

def threadOf (p : UInt16) : Fin threadCount :=
  ⟨p.toNat / portsPerThread, Nat.div_lt_of_lt_mul p.toNat_lt⟩

section

variable {stale : ℕ → Vector UInt8 20} {refused : UInt16 → Bool}

theorem nodup_map_port_future (i : Fin threadCount) :
    (((burstThreads stale i).future refused).map BurstMessage.port).Nodup := by
  rw [map_port_future]
  refine List.Nodup.map_on (fun j hj k hk heq ↦ ?_)
    (List.nodup_range.sublist (List.takeWhile_sublist _))
  have hnat := congrArg UInt16.toNat heq
  rw [toNat_batchPort i (mem_takeWhile_range.mp hj).1,
      toNat_batchPort i (mem_takeWhile_range.mp hk).1]
    at hnat
  exact Nat.add_left_cancel hnat

theorem div_portsPerThread {i : Fin threadCount} {j : ℕ} (hj : j < portsPerThread) :
    (UInt16.ofNat (i * portsPerThread + j)).toNat / portsPerThread = i := by
  rw [toNat_batchPort i hj, Nat.mul_comm, Nat.mul_add_div (by decide), Nat.div_eq_of_lt hj,
    Nat.add_zero]

theorem eq_batchPort (p : UInt16) :
    p = UInt16.ofNat (threadOf p * portsPerThread + p.toNat % portsPerThread) := by
  apply UInt16.toNat_inj.mp
  rw [toNat_batchPort _ (Nat.mod_lt _ (by decide))]
  exact (Nat.div_add_mod' p.toNat portsPerThread).symm

theorem mem_map_port_future {i : Fin threadCount} {p : UInt16} :
    p ∈ ((burstThreads stale i).future refused).map BurstMessage.port ↔
      i = threadOf p ∧ Unobstructed refused p := by
  rw [map_port_future, List.mem_map]
  constructor
  · rintro ⟨j, hj, rfl⟩
    obtain ⟨hlt, hclear⟩ := mem_takeWhile_range.mp hj
    have hbatch := div_portsPerThread (i := i) hlt
    refine ⟨Fin.ext hbatch.symm, fun q hq hle ↦ ?_⟩
    have hthread : threadOf q = i := Fin.ext (hq.trans hbatch)
    have hplace : q.toNat % portsPerThread ≤ j := by
      have hle' := UInt16.le_iff_toNat_le.mp hle
      rw [eq_batchPort q, hthread, toNat_batchPort i hlt,
        toNat_batchPort i (Nat.mod_lt _ (by decide))] at hle'
      exact Nat.le_of_add_le_add_left hle'
    have htest := hclear _ hplace
    rwa [← hthread, ← eq_batchPort, Bool.not_eq_eq_eq_not, Bool.not_true] at htest
  · rintro ⟨rfl, hclear⟩
    have hlt : p.toNat % portsPerThread < portsPerThread := Nat.mod_lt _ (by decide)
    refine ⟨_, mem_takeWhile_range.mpr ⟨hlt, fun k hk ↦ ?_⟩, (eq_batchPort p).symm⟩
    have hk' := hk.trans_lt hlt
    rw [Bool.not_eq_eq_eq_not, Bool.not_true]
    refine hclear _ (div_portsPerThread hk') (UInt16.le_iff_toNat_le.mpr ?_)
    rw [toNat_batchPort _ hk']
    exact (Nat.add_le_add_left hk _).trans (Nat.div_add_mod' p.toNat portsPerThread).le

/-- **What a joined wave has sent.** Whatever the scheduling, each port has got one datagram, or
none if a port in front of it in its batch, or the port itself, is refused. -/
theorem count_port_of_joined {log : List (Fin threadCount × BurstMessage)}
    {s' : Fin threadCount → BurstThread}
    (h : Interleaved (BurstThread.next refused) (burstThreads stale) log s')
    (hjoined : Joined (BurstThread.next refused) s') (p : UInt16) :
    ((log.map fun e ↦ e.2.port).count p = 1 ∧ Unobstructed refused p) ∨
      ((log.map fun e ↦ e.2.port).count p = 0 ∧ ¬Unobstructed refused p) := by
  have hproj := fun i ↦ h.proj_eq_future (BurstThread.future refused)
    (fun _ _ _ hnext ↦ BurstThread.future_eq hnext) (fun _ hdone ↦ BurstThread.future_of_done hdone)
    hjoined i
  have howner : ∀ e ∈ log, e.2.port = p → e.1 = threadOf p := by
    rintro ⟨i, m⟩ hmem hport
    have hfuture : m ∈ (burstThreads stale i).future refused := hproj i ▸ mem_proj.mpr hmem
    exact (mem_map_port_future.mp (List.mem_map.mpr ⟨m, hfuture, hport⟩)).1
  rw [count_map_snd howner, hproj]
  by_cases hclear : Unobstructed refused p
  · exact Or.inl ⟨List.count_eq_one_of_mem (nodup_map_port_future _)
      (mem_map_port_future.mpr ⟨rfl, hclear⟩), hclear⟩
  · exact Or.inr ⟨List.count_eq_zero.mpr fun hmem ↦ hclear (mem_map_port_future.mp hmem).2, hclear⟩

end

/-! ## The wave -/

/-- Exactly one datagram has been sent to the port. -/
def SentOnce (log : List (Fin threadCount × BurstMessage)) (p : UInt16) : Prop :=
  (log.map fun e ↦ e.2.port).count p = 1

/-- Every port that is not refused has been sent one datagram when all threads have been joined,
whatever the scheduling. -/
def WaveCovers (stale : ℕ → Vector UInt8 20) (refused : UInt16 → Bool) : Prop :=
  ∀ log s', Interleaved (BurstThread.next refused) (burstThreads stale) log s' →
    Joined (BurstThread.next refused) s' → ∀ p, refused p = false → SentOnce log p

theorem waveCovers_iff_unobstructed (stale : ℕ → Vector UInt8 20) (refused : UInt16 → Bool) :
    WaveCovers stale refused ↔ ∀ p, refused p = false → Unobstructed refused p := by
  constructor
  · intro h p hp
    obtain ⟨log, s', hrun, hjoined⟩ := exists_joined (BurstThread.next refused)
      BurstThread.stepsLeft (fun _ _ _ hnext ↦ BurstThread.stepsLeft_lt hnext) (burstThreads stale)
    have honce := h log s' hrun hjoined p hp
    rcases count_port_of_joined hrun hjoined p with ⟨-, hclear⟩ | ⟨hzero, -⟩
    · exact hclear
    · exact absurd (hzero.symm.trans honce) (by decide)
  · intro h log s' hrun hjoined p hp
    rcases count_port_of_joined hrun hjoined p with ⟨hone, -⟩ | ⟨-, hclear⟩
    · exact hone
    · exact absurd (h p hp) hclear

/-- **When the wave fills the port space.** If every thread is created and gets its socket, every
port outside the refused ones gets exactly one datagram under every scheduling if and only if, in
each batch of 512 ports, everything behind a refused port is refused too. -/
theorem waveCovers_iff (stale : ℕ → Vector UInt8 20) (refused : UInt16 → Bool) :
    WaveCovers stale refused ↔
      ∀ q p : UInt16, q.toNat / portsPerThread = p.toNat / portsPerThread → q ≤ p →
        refused q = true → refused p = true := by
  rw [waveCovers_iff_unobstructed]
  constructor
  · intro h q p hbatch hle hq
    by_contra hp
    rw [h p (Bool.eq_false_iff.mpr hp) q hbatch hle] at hq
    exact absurd hq (by decide)
  · intro h p hp q hbatch hle
    refine Bool.eq_false_iff.mpr fun hq ↦ ?_
    rw [h q p hbatch hle hq] at hp
    exact absurd hp (by decide)

/-- **Port 0 takes its batch along.** With port 0 refused, as Linux does, the wave does not cover
port 1. -/
theorem refusedZero_loses_batch :
    ¬WaveCovers (fun _ ↦ Vector.replicate 20 0) fun p ↦ decide (p = 0) := by
  rw [waveCovers_iff_unobstructed]
  intro h
  exact absurd (h 1 (by decide) 0 (by decide) (by decide)) (by decide)

end NatGhost
