import NatGhost.Scan.MasterWait

/-!
# The scan as a whole

One run of `natghost_forge` is a master process and the workers it has created, each in the port
loop of `run_worker`. Here they run side by side: a step is the next statement of the master, or
one round of the loop of one worker, in any order. A worker terminates only when its own code does.

The system of `MasterWait`, in which a created worker may terminate at any time, is what is left
when the loops are forgotten (`Reaches.master`), so everything proved there holds here.

## The workers

The numbers a worker runs with go the whole way: computed by the master, printed into the command
line, split into arguments by the process that is started, and read back (`Env.call_eq`). Worker `i`
begins behind its predecessors and sends to the ports in increasing order, and behind 65535 it goes
on with 1 (`Cycles`). Only the last worker gets that far.

The number of processes is a parameter of the model; the main results are about the sixteen of the
source.
-/

namespace NatGhost.Sweep

/-! ## The code -/

/-- What the program does not decide: where it is installed, which processes can be created, in
which of them `WSAStartup`, `socket` and `setsockopt` succeed, and what the library returns. -/
structure Env (n : ℕ) where
  selfPath : List Char
  created : Fin n → Bool
  opened : Fin n → Bool
  libc : Fin n → ℕ → Libc

variable {n : ℕ}

/-- The call of `run_worker` in the process of worker `i`. -/
def Env.call (env : Env n) (i : Fin n) : Option WorkerCall :=
  (commandLine env.selfPath masterSourceIp masterDestIp (masterRange n i)).bind fun text ↦
    runWorkerFromArgs (argvOf text)

/-- The master and the workers that have entered their loop. -/
structure System (n : ℕ) where
  master : Master.System n
  loops : Fin n → Option Worker

def System.initial (n : ℕ) : System n where
  master := Master.System.initial n
  loops := fun _ ↦ none

/-- The process of worker `i` is over. -/
def System.exit (s : System n) (i : Fin n) : System n :=
  { s with master :=
      { s.master with workers := Function.update s.master.workers i (some .terminated) } }

variable (env : Env n)

inductive Step : System n → System n → Prop
  /-- The master executes its next statement. -/
  | statement {s : System n} {m : Master.System n} {stmt : Master.Stmt n}
      (htodo : s.master.todo = stmt :: m.todo) (hstep : Master.Step env.created s.master m) :
      Step s { s with master := m }
  /-- A worker has its socket and comes to the loop. -/
  | enter {s : System n} {i : Fin n} {call : WorkerCall} (hi : s.master.workers i = some .running)
      (hloop : s.loops i = none) (hcall : env.call i = some call)
      (hopened : env.opened i = true) :
      Step s { s with loops := Function.update s.loops i (some ⟨call.range.startPort, 0, []⟩) }
  /-- A worker has no arguments or no socket. -/
  | giveUp {s : System n} {i : Fin n} (hi : s.master.workers i = some .running)
      (hloop : s.loops i = none) (hfailed : env.call i = none ∨ env.opened i = false) :
      Step s (s.exit i)
  /-- A round of the loop. -/
  | round {s : System n} {i : Fin n} {call : WorkerCall} {w : Worker}
      (hi : s.master.workers i = some .running) (hloop : s.loops i = some w)
      (hcall : env.call i = some call) (hport : w.port ≤ call.range.endPort) :
      Step s { s with loops := Function.update s.loops i (some (Worker.body (env.libc i)
        (String.ofList call.sourceIp) (String.ofList call.destIp) w)) }
  /-- The condition of the loop is false. -/
  | leave {s : System n} {i : Fin n} {call : WorkerCall} {w : Worker}
      (hi : s.master.workers i = some .running) (hloop : s.loops i = some w)
      (hcall : env.call i = some call) (hport : ¬w.port ≤ call.range.endPort) : Step s (s.exit i)

def Reaches (s : System n) : Prop := Relation.ReflTransGen (Step env) (System.initial n) s

/-- A program path that needs no quotes inside and leaves room for the rest of the command line. -/
structure Env.Plain : Prop where
  no_quote : '"' ∉ env.selfPath
  length_le : env.selfPath.length ≤ 214

/-! ## The master -/

section

variable {env} {s : System n}

theorem Step.master {s' : System n} (hstep : Step env s s') :
    Relation.ReflTransGen (Master.Step env.created) s.master s'.master := by
  cases hstep with
  | statement htodo hstep => exact Relation.ReflTransGen.single hstep
  | enter => exact Relation.ReflTransGen.refl
  | giveUp hi => exact Relation.ReflTransGen.single (Master.Step.terminate hi)
  | round => exact Relation.ReflTransGen.refl
  | leave hi => exact Relation.ReflTransGen.single (Master.Step.terminate hi)

/-- **The loops forgotten**, a run is one of the master and workers that terminate at any time. -/
theorem Reaches.master (h : Reaches env s) : Master.Reaches env.created s.master := by
  induction h with
  | refl => exact Relation.ReflTransGen.refl
  | tail _ hstep ih => exact ih.trans hstep.master

end

theorem workers_of_statement {created : Fin n → Bool} {s m : Master.System n}
    {stmt : Master.Stmt n} (htodo : s.todo = stmt :: m.todo) (hstep : Master.Step created s m)
    (i : Fin n) : m.workers i = s.workers i ∨
      stmt = .create i ∧ created i = true ∧ m.workers i = some .running := by
  cases hstep with
  | @create j todo hcreate =>
    obtain ⟨rfl, -⟩ := List.cons.inj (htodo.symm.trans hcreate)
    change (s.create j (created j)).workers i = _ ∨
      _ ∧ _ ∧ (s.create j (created j)).workers i = _
    rw [Master.System.create]
    split_ifs with hcreated
    · change Function.update s.workers j (some .running) i = _ ∨
        _ ∧ _ ∧ Function.update s.workers j (some .running) i = _
      rcases eq_or_ne i j with rfl | hne
      · exact Or.inr ⟨rfl, hcreated, Function.update_self ..⟩
      · exact Or.inl (Function.update_of_ne hne ..)
    · exact Or.inl rfl
  | wait | stopClock | printCompleted | printDuration => exact Or.inl rfl
  | printRate =>
    refine Or.inl ?_
    change s.printRate.workers i = _
    rw [Master.System.printRate]
    split_ifs <;> rfl
  | @close j =>
    refine Or.inl ?_
    change (s.close j).workers i = _
    rw [Master.System.close]
    cases s.processHandles j <;> rfl
  | terminate => exact absurd (congrArg List.length htodo) (Nat.succ_ne_self _).symm

/-! ## The loop of one worker -/

/-- The port of packet number `k` if `skipped` ports come before the range: behind 65535 comes 1. -/
def cyclePort (skipped k : ℕ) : ℕ := (skipped + k) % 65535 + 1

theorem cyclePort_of_lt {skipped k : ℕ} (h : skipped + k < 65535) :
    cyclePort skipped k = skipped + 1 + k := by
  rw [cyclePort, Nat.mod_eq_of_lt h]
  omega

/-- **What the loop keeps**: everything so far has gone to the ports in cyclic order, and the
counter is at the next one, or at 0 before port 1. -/
structure Cycles (skipped : ℕ) (w : Worker) : Prop where
  ports : w.sends.map (fun send ↦ send.destPort.toNat)
    = (List.range w.sends.length).map (cyclePort skipped)
  next : w.port.toNat = cyclePort skipped w.sends.length ∨
    w.port.toNat = 0 ∧ cyclePort skipped w.sends.length = 1

section

variable {skipped : ℕ} {w : Worker} (libc : ℕ → Libc) (sourceIp destIp : String)

theorem Cycles.initial {port : UInt16} (hport : port.toNat = skipped + 1)
    (hskipped : skipped < 65535) : Cycles skipped ⟨port, 0, []⟩ where
  ports := rfl
  next := Or.inl (by rw [hport]; exact (cyclePort_of_lt (k := 0) hskipped).symm)

theorem Cycles.body (h : Cycles skipped w) :
    Cycles skipped (Worker.body libc sourceIp destIp w) := by
  rcases eq_or_ne w.port 0 with hzero | hne
  · -- nothing is sent for port 0, and port 1 is the next one
    rw [Worker.body_of_eq_zero libc sourceIp destIp hzero]
    have hnext := h.next
    rw [hzero] at hnext
    refine ⟨h.ports, Or.inl ?_⟩
    change (w.port + 1).toNat = cyclePort skipped w.sends.length
    rw [hzero, (hnext.resolve_left (Nat.succ_ne_zero _).symm).2]
    rfl
  · obtain ⟨send, hsend, hbody⟩ := Worker.body_of_ne_zero libc sourceIp destIp hne
    have hport : w.port.toNat = cyclePort skipped w.sends.length :=
      h.next.resolve_right fun hboth ↦ hne (UInt16.toNat_inj.mp hboth.1)
    have hsucc : (w.port + 1).toNat = (w.port.toNat + 1) % 65536 := UInt16.toNat_add ..
    rw [hbody]
    refine ⟨?_, ?_⟩
    · change (w.sends ++ [send]).map _ = _
      rw [List.length_append, List.length_singleton, List.range_succ, List.map_append,
        List.map_append, h.ports, List.map_singleton, List.map_singleton, hsend, hport]
    · change (w.port + 1).toNat = cyclePort skipped (w.sends ++ [send]).length ∨
        (w.port + 1).toNat = 0 ∧ cyclePort skipped (w.sends ++ [send]).length = 1
      rw [List.length_append, List.length_singleton, hsucc, hport]
      simp only [cyclePort]
      omega

end

theorem le_count_cyclePort (skipped : ℕ) {port : ℕ} (hport : 1 ≤ port ∧ port ≤ 65535) (N : ℕ) :
    N ≤ ((List.range (65535 * N)).map (cyclePort skipped)).count port := by
  induction N with
  | zero => exact Nat.zero_le _
  | succ N ih =>
    have hperiodic : cyclePort skipped ∘ (65535 * N + ·) = cyclePort skipped := by
      funext k
      simp only [Function.comp, cyclePort]
      omega
    have hmem : port ∈ (List.range 65535).map (cyclePort skipped) := by
      refine List.mem_map.mpr ⟨(port - 1 + (65535 - skipped % 65535)) % 65535, ?_, ?_⟩
      · exact List.mem_range.mpr (Nat.mod_lt _ (by decide))
      · rw [cyclePort]
        omega
    rw [Nat.mul_succ, List.range_add, List.map_append, List.count_append, List.map_map, hperiodic]
    exact Nat.add_le_add ih (List.one_le_count_iff.mpr hmem)

/-! ## The system -/

variable {env} {s s' : System n} {i : Fin n}

theorem Env.call_eq (hpath : env.Plain) (i : Fin n) :
    env.call i = some ⟨masterSourceIp, masterDestIp, masterRange n i⟩ := by
  rw [Env.call, commandLine_eq hpath.length_le, Option.bind_some,
    runWorkerFromArgs_argvOf hpath.no_quote]

theorem portsPerProcess_mul_lt (hn : n ≤ 65535) (i : Fin n) :
    i * portsPerProcess n < 65535 := by
  have hpos := portsPerProcess_pos (Nat.one_le_of_lt i.isLt) hn
  calc i * portsPerProcess n < n * portsPerProcess n := Nat.mul_lt_mul_of_pos_right i.isLt hpos
    _ ≤ 65535 := portsPerProcess_mul_le n

variable (env) in
/-- **The invariant.** A loop belongs to a process that was created and got its socket, its sends
are in cyclic order, and inside the range unless it is the last one's; a process that is over had no
socket or left its loop. -/
structure Kept (s : System n) : Prop where
  absent : ∀ i, s.master.workers i = none → s.loops i = none
  opened : ∀ i w, s.loops i = some w → env.opened i = true
  cycles : ∀ i w, s.loops i = some w → Cycles (i * portsPerProcess n) w
  inside : ∀ i w, s.loops i = some w → i.val + 1 < n →
    w.Sent (masterRange n i).startPort (masterRange n i).endPort
  finished : ∀ i, s.master.workers i = some .terminated →
    (s.loops i = none ∧ env.opened i = false) ∨
      ∃ w, s.loops i = some w ∧ ¬w.port ≤ (masterRange n i).endPort

theorem Kept.initial (env : Env n) : Kept env (System.initial n) where
  absent _ _ := rfl
  opened _ _ h := nomatch h
  cycles _ _ h := nomatch h
  inside _ _ h := nomatch h
  finished _ h := nomatch h

theorem Kept.setLoop (h : Kept env s) {w : Worker} (hi : s.master.workers i = some .running)
    (hopened : env.opened i = true) (hcycles : Cycles (i * portsPerProcess n) w)
    (hinside : i.val + 1 < n → w.Sent (masterRange n i).startPort (masterRange n i).endPort) :
    Kept env { s with loops := Function.update s.loops i (some w) } := by
  have hloop (j : Fin n) (v : Worker) (hv : Function.update s.loops i (some w) j = some v) :
      j = i ∧ v = w ∨ s.loops j = some v := by
    rcases eq_or_ne j i with rfl | hne
    · rw [Function.update_self] at hv
      exact Or.inl ⟨rfl, (Option.some.inj hv).symm⟩
    · rw [Function.update_of_ne hne] at hv
      exact Or.inr hv
  have hother (j : Fin n) (hj : s.master.workers j ≠ some .running) :
      Function.update s.loops i (some w) j = s.loops j :=
    Function.update_of_ne (fun heq ↦ hj (by rw [heq]; exact hi)) ..
  refine ⟨fun j hj ↦ ?_, fun j v hv ↦ ?_, fun j v hv ↦ ?_, fun j v hv hlt ↦ ?_, fun j hj ↦ ?_⟩
  · change Function.update s.loops i (some w) j = none
    rw [hother j (by rw [hj]; exact nofun)]
    exact h.absent j hj
  · rcases hloop j v hv with ⟨rfl, rfl⟩ | hold
    exacts [hopened, h.opened j v hold]
  · rcases hloop j v hv with ⟨rfl, rfl⟩ | hold
    exacts [hcycles, h.cycles j v hold]
  · rcases hloop j v hv with ⟨rfl, rfl⟩ | hold
    exacts [hinside hlt, h.inside j v hold hlt]
  · change (Function.update s.loops i (some w) j = none ∧ _) ∨
      ∃ v, Function.update s.loops i (some w) j = some v ∧ _
    rw [hother j (by rw [hj]; exact nofun)]
    exact h.finished j hj

theorem Kept.exit (h : Kept env s) (hover : (s.loops i = none ∧ env.opened i = false) ∨
    ∃ w, s.loops i = some w ∧ ¬w.port ≤ (masterRange n i).endPort) : Kept env (s.exit i) := by
  refine ⟨fun j hj ↦ ?_, h.opened, h.cycles, h.inside, fun j hj ↦ ?_⟩
  · change Function.update s.master.workers i (some .terminated) j = none at hj
    rcases eq_or_ne j i with rfl | hne
    · rw [Function.update_self] at hj
      exact absurd hj nofun
    · rw [Function.update_of_ne hne] at hj
      exact h.absent j hj
  · change Function.update s.master.workers i (some .terminated) j = _ at hj
    rcases eq_or_ne j i with rfl | hne
    · exact hover
    · rw [Function.update_of_ne hne] at hj
      exact h.finished j hj

/-- **What every step preserves.** -/
theorem Kept.step (h : Kept env s) (hpath : env.Plain) (hn : n ≤ 65535) (hstep : Step env s s') :
    Kept env s' := by
  have hrange {i : Fin n} {call : WorkerCall} (hcall : env.call i = some call) :
      call.range = masterRange n i := by
    rw [Env.call_eq hpath i] at hcall
    exact congrArg WorkerCall.range (Option.some.inj hcall).symm
  cases hstep with
  | @statement m stmt htodo hstep =>
    have hworker (i : Fin n) (hi : m.workers i ≠ some .running) :
        m.workers i = s.master.workers i :=
      (workers_of_statement htodo hstep i).resolve_right fun hboth ↦ hi hboth.2.2
    refine ⟨fun i hi ↦ h.absent i ?_, h.opened, h.cycles, h.inside, fun i hi ↦ h.finished i ?_⟩
    · rw [← hworker i (by rw [hi]; exact nofun), hi]
    · rw [← hworker i (by rw [hi]; exact nofun), hi]
  | @enter i call hi hloop hcall hopened =>
    have hstart := toNat_startPort (Nat.one_le_of_lt i.isLt) hn i.isLt
    rw [hrange hcall]
    refine h.setLoop hi hopened (Cycles.initial hstart (portsPerProcess_mul_lt hn i)) fun _ ↦ ?_
    refine ⟨?_, Nat.le_refl _, Nat.le_max_left _ _⟩
    rw [Nat.sub_eq_zero_of_le (Nat.le_max_right _ _)]
    rfl
  | giveUp hi hloop hfailed =>
    refine h.exit (Or.inl ⟨hloop, hfailed.resolve_left ?_⟩)
    rw [Env.call_eq hpath]
    exact nofun
  | @round i call w hi hloop hcall hport =>
    refine h.setLoop hi (h.opened i w hloop) ((h.cycles i w hloop).body _ _ _) fun hlt ↦ ?_
    -- the range of a worker but the last ends below 65535
    have hend : (masterRange n i).endPort ≠ 65535 := by
      intro heq
      have htoNat := toNat_endPort i.isLt
      have hpos := portsPerProcess_pos (Nat.one_le_of_lt i.isLt) hn
      have hle : (i.val + 1 + 1) * portsPerProcess n ≤ n * portsPerProcess n :=
        Nat.mul_le_mul_right _ hlt
      have hmul := portsPerProcess_mul_le n
      rw [heq, if_neg (by omega)] at htoNat
      rw [Nat.succ_mul] at hle
      change 65535 = _ at htoNat
      omega
    exact ((h.inside i w hloop hlt).step _ _ _ hend (hrange hcall ▸ hport)).1
  | @leave i call w hi hloop hcall hport =>
    exact h.exit (Or.inr ⟨w, hloop, hrange hcall ▸ hport⟩)

theorem Kept.of_reaches (hpath : env.Plain) (hn : n ≤ 65535) (h : Reaches env s) : Kept env s := by
  induction h with
  | refl => exact Kept.initial env
  | tail _ hstep ih => exact ih.step hpath hn hstep

/-! ## What has been sent -/

/-- The ports worker `i` has sent a packet to, in order. -/
def System.portsSent (s : System n) (i : Fin n) : List ℕ :=
  (s.loops i).elim [] fun w ↦ w.sends.map fun send ↦ send.destPort.toNat

theorem portsSent_of_loop {w : Worker} (hw : s.loops i = some w) :
    s.portsSent i = w.sends.map fun send ↦ send.destPort.toNat := by
  rw [System.portsSent, hw, Option.elim_some]

theorem portsSent_of_none (hnone : s.loops i = none) : s.portsSent i = [] := by
  rw [System.portsSent, hnone, Option.elim_none]

theorem Kept.portsSent (h : Kept env s) (i : Fin n) : s.portsSent i
    = (List.range (s.portsSent i).length).map (cyclePort (i * portsPerProcess n)) := by
  cases hloop : s.loops i with
  | none => rw [portsSent_of_none hloop, List.length_nil, List.range_zero, List.map_nil]
  | some w => rw [portsSent_of_loop hloop, List.length_map, (h.cycles i w hloop).ports]

theorem Kept.portsSent_of_not_opened (h : Kept env s) (hclosed : env.opened i = false) :
    s.portsSent i = [] := by
  cases hloop : s.loops i with
  | none => exact portsSent_of_none hloop
  | some w => exact absurd ((h.opened i w hloop).symm.trans hclosed) nofun

theorem Kept.length_inside (h : Kept env s) (hn : n ≤ 65535) (hi : i.val + 1 < n) {w : Worker}
    (hw : s.loops i = some w) : (s.portsSent i).length = w.port.toNat - (i * portsPerProcess n + 1)
      ∧ w.port.toNat ≤ (i + 1) * portsPerProcess n + 1 := by
  have hinside := h.inside i w hw hi
  have hstart := toNat_startPort (Nat.one_le_of_lt i.isLt) hn i.isLt
  have hend := toNat_endPort i.isLt
  have hports := congrArg List.length hinside.ports
  have hle := hinside.le_end
  rw [if_neg (by omega)] at hend
  rw [List.length_map, List.length_range', hstart, Nat.max_eq_right (Nat.le_add_left _ _)] at hports
  rw [hstart, hend, max_eq_right (by rw [Nat.succ_mul]; omega)] at hle
  rw [portsSent_of_loop hw, List.length_map]
  exact ⟨hports, hle⟩

theorem Kept.length_le (h : Kept env s) (hn : n ≤ 65535) (hi : i.val + 1 < n) :
    (s.portsSent i).length ≤ portsPerProcess n := by
  cases hloop : s.loops i with
  | none => rw [portsSent_of_none hloop]; exact Nat.zero_le _
  | some w =>
    obtain ⟨hlength, hle⟩ := h.length_inside hn hi hloop
    rw [Nat.succ_mul] at hle
    omega

theorem Kept.length_of_over (h : Kept env s) (hn : n ≤ 65535)
    (hover : s.master.workers i = some .terminated) (hopened : env.opened i = true) :
    i.val + 1 < n ∧ (s.portsSent i).length = portsPerProcess n := by
  rcases h.finished i hover with ⟨-, hclosed⟩ | ⟨w, hw, hport⟩
  · exact absurd (hopened.symm.trans hclosed) nofun
  · have hend := toNat_endPort i.isLt
    have hgt : (masterRange n i).endPort.toNat < w.port.toNat :=
      Nat.lt_of_not_le fun hle ↦ hport (UInt16.le_iff_toNat_le.mpr hle)
    have hlt := w.port.toNat_lt
    by_cases hi : i.val + 1 < n
    · obtain ⟨hlength, hle⟩ := h.length_inside hn hi hw
      rw [if_neg (by omega)] at hend
      rw [Nat.succ_mul] at hle hend
      exact ⟨hi, by omega⟩
    · -- no counter is behind 65535
      rw [if_pos (by omega)] at hend
      omega

/-- As long as the last worker has not met port 65535 either, every worker is in its own range. -/
theorem Kept.contains (h : Kept env s) (hn : n ≤ 65535)
    (hlast : ∀ i : Fin n, i.val + 1 = n →
      (s.portsSent i).length ≤ 65535 - i * portsPerProcess n) {port : ℕ}
    (hport : port ∈ s.portsSent i) : (masterRange n i).Contains port := by
  have hmul := portsPerProcess_mul_lt hn i
  have hbound : (s.portsSent i).length + i * portsPerProcess n
      ≤ if i.val = n - 1 then 65535 else (i + 1) * portsPerProcess n := by
    rcases Nat.lt_or_ge (i.val + 1) n with hi | hi
    · have hle := h.length_le hn hi
      rw [if_neg (by omega), Nat.succ_mul]
      omega
    · have hle := hlast i (Nat.le_antisymm i.isLt hi)
      rw [if_pos (by omega)]
      omega
  rw [contains_masterRange_iff (Nat.one_le_of_lt i.isLt) hn i.isLt]
  rw [h.portsSent i] at hport
  obtain ⟨k, hk, rfl⟩ := List.mem_map.mp hport
  have hk := List.mem_range.mp hk
  have hend : (if i.val = n - 1 then 65535 else (i + 1) * portsPerProcess n) ≤ 65535 := by
    have hend := toNat_endPort i.isLt
    have hlt := (masterRange n i).endPort.toNat_lt
    omega
  rw [cyclePort_of_lt (by omega)]
  omega

theorem Kept.nodup (h : Kept env s) (hn : n ≤ 65535)
    (hlast : ∀ i : Fin n, i.val + 1 = n →
      (s.portsSent i).length ≤ 65535 - i * portsPerProcess n) :
    ((List.finRange n).flatMap s.portsSent).Nodup := by
  rw [List.nodup_flatMap]
  constructor
  · intro i _
    have hmul := portsPerProcess_mul_lt hn i
    have hle : (s.portsSent i).length ≤ 65535 := by
      rcases Nat.lt_or_ge (i.val + 1) n with hi | hi
      · have hle := h.length_le hn hi
        exact hle.trans (Nat.div_le_self 65535 n)
      · exact (hlast i (Nat.le_antisymm i.isLt hi)).trans (Nat.sub_le _ _)
    rw [h.portsSent i]
    refine List.nodup_range.map_on fun a ha b hb heq ↦ ?_
    rw [List.mem_range] at ha hb
    simp only [cyclePort] at heq
    omega
  · refine (List.nodup_finRange n).imp fun {i j} hne port hi hj ↦ ?_
    have hdisjoint := (isPartition_masterRange (Nat.one_le_of_lt i.isLt) hn).disjoint i i.isLt j
      j.isLt (fun heq ↦ hne (Fin.ext heq)) port
    exact hdisjoint (h.contains hn hlast hi) (h.contains hn hlast hj)

/-- **What the workers send.** In every state of every run, worker `i` of the sixteen has sent to
the ports behind `4095 * i` in increasing order, with 1 behind 65535, and to none if it has no raw
socket. A worker but the last has stayed inside its 4095 ports, and if it has its socket it is over
only when it has sent to all of them; the last one is then never over. As long as it has not passed
its own 4110 ports, no port has been sent to twice by any of them. -/
theorem sweep_sends (env : Env processCount) (hpath : env.Plain) {s : System processCount}
    (h : Reaches env s) :
    (∀ i, s.portsSent i
      = (List.range (s.portsSent i).length).map fun k ↦ (i.val * 4095 + k) % 65535 + 1) ∧
      (∀ i : Fin processCount, i.val < 15 → (s.portsSent i).length ≤ 4095) ∧
      (∀ i, env.opened i = false → s.portsSent i = []) ∧
      (∀ i, s.master.workers i = some .terminated → env.opened i = true →
        i.val < 15 ∧ (s.portsSent i).length = 4095) ∧
      ((∀ i : Fin processCount, i.val = 15 → (s.portsSent i).length ≤ 4110) →
        ((List.finRange processCount).flatMap s.portsSent).Nodup) := by
  have hn : processCount ≤ 65535 := by decide
  have hkept := Kept.of_reaches hpath hn h
  refine ⟨hkept.portsSent, fun i hi ↦ ?_, fun i hclosed ↦ hkept.portsSent_of_not_opened hclosed,
    fun i hover hopened ↦ ?_, fun hlast ↦ ?_⟩
  · exact hkept.length_le hn (Nat.succ_lt_succ hi)
  · obtain ⟨hi, hlength⟩ := hkept.length_of_over hn hover hopened
    exact ⟨Nat.lt_of_succ_lt_succ hi, hlength⟩
  · refine hkept.nodup hn fun i hi ↦ ?_
    have hi := Nat.succ.inj hi
    rw [hi]
    exact hlast i hi

/-! ### A run in which packets have been sent -/

theorem exists_entered (hpath : env.Plain) (hcreated : env.created i = true)
    (hopened : env.opened i = true) {todo : List (Master.Stmt n)}
    (htodo : s.master.todo = .create i :: todo) (hloop : s.loops i = none) :
    ∃ t, Relation.ReflTransGen (Step env) s t ∧ t.master.todo = todo ∧
      t.master.workers = Function.update s.master.workers i (some .running) ∧
      t.loops = Function.update s.loops i (some ⟨(masterRange n i).startPort, 0, []⟩) := by
  have hcreate : Step env s { s with master := { s.master.create i (env.created i) with todo } } :=
    Step.statement htodo (Master.Step.create htodo)
  have hworkers : (s.master.create i (env.created i)).workers
      = Function.update s.master.workers i (some .running) := by
    rw [Master.System.create, if_pos hcreated]
  have hrunning : (s.master.create i (env.created i)).workers i = some .running := by
    rw [hworkers, Function.update_self]
  have henter := Step.enter (s := { s with master := { s.master.create i (env.created i) with
    todo } }) hrunning hloop (Env.call_eq hpath i) hopened
  exact ⟨_, (Relation.ReflTransGen.single hcreate).tail henter, rfl, hworkers, rfl⟩

theorem exists_round (hpath : env.Plain) (hrunning : s.master.workers i = some .running)
    {port : UInt16} {forged : ℕ} {sends : List Send} (hw : s.loops i = some ⟨port, forged, sends⟩)
    (hport : port ≤ (masterRange n i).endPort) (hne : port ≠ 0) :
    ∃ t send, Step env s t ∧ send.destPort = port ∧ t.master = s.master ∧
      t.loops = Function.update s.loops i (some ⟨port + 1, forged + 1, sends ++ [send]⟩) := by
  obtain ⟨send, hsend, hbody⟩ := Worker.body_of_ne_zero (env.libc i) (String.ofList masterSourceIp)
    (String.ofList masterDestIp) (w := ⟨port, forged, sends⟩) hne
  have hstep := Step.round hrunning hw (Env.call_eq hpath i) hport
  rw [hbody] at hstep
  exact ⟨_, send, hstep, hsend, rfl, rfl⟩

/-- The program is `forge.exe`, every process can be created and every socket opened. -/
def Env.forge : Env processCount :=
  ⟨"forge.exe".toList, fun _ ↦ true, fun _ ↦ true, fun _ _ ↦ smallLibc⟩

theorem Env.plain_forge : Env.forge.Plain := ⟨by decide, by decide⟩

theorem exists_threePackets : ∃ s, Reaches Env.forge s ∧ ∀ i, s.portsSent i
    = if i.val = 0 then [1, 2] else if i.val = 1 then [4096] else [] := by
  have hpath := Env.plain_forge
  let a : Fin processCount := ⟨0, by decide⟩
  let b : Fin processCount := ⟨1, by decide⟩
  have hne : b ≠ a := by decide
  obtain ⟨s₁, h₁, htodo, hworkers₁, hloops₁⟩ := exists_entered hpath (i := a)
    (s := System.initial processCount) rfl rfl rfl rfl
  obtain ⟨s₂, h₂, -, hworkers₂, hloops₂⟩ := exists_entered hpath (i := b) (s := s₁) rfl rfl htodo
    (by rw [hloops₁, Function.update_of_ne hne]; rfl)
  have ha : s₂.master.workers a = some .running := by
    rw [hworkers₂, Function.update_of_ne hne.symm, hworkers₁, Function.update_self]
  have hb : s₂.master.workers b = some .running := by rw [hworkers₂, Function.update_self]
  have hloop : s₂.loops a = some ⟨1, 0, []⟩ := by
    rw [hloops₂, Function.update_of_ne hne.symm, hloops₁, Function.update_self,
      show (masterRange processCount a).startPort = 1 by decide]
  obtain ⟨s₃, x, h₃, hx, hmaster₃, hloops₃⟩ := exists_round hpath ha hloop (by decide) (by decide)
  obtain ⟨s₄, y, h₄, hy, hmaster₄, hloops₄⟩ := exists_round hpath (hmaster₃.symm ▸ ha)
    (hloops₃ ▸ Function.update_self ..) (by decide) (by decide)
  have hloop₄ : s₄.loops b = some ⟨4096, 0, []⟩ := by
    rw [hloops₄, Function.update_of_ne hne, hloops₃, Function.update_of_ne hne, hloops₂,
      Function.update_self, show (masterRange processCount b).startPort = 4096 by decide]
  obtain ⟨s₅, z, h₅, hz, -, hloops₅⟩ := exists_round hpath (hmaster₄.symm ▸ hmaster₃.symm ▸ hb)
    hloop₄ (by decide) (by decide)
  refine ⟨s₅, (((h₁.trans h₂).tail h₃).tail h₄).tail h₅, fun i ↦ ?_⟩
  rw [System.portsSent, hloops₅, hloops₄, hloops₃, hloops₂, hloops₁]
  rcases eq_or_ne i a with rfl | hia
  · rw [Function.update_of_ne hne.symm, Function.update_self, if_pos rfl]
    change [x.destPort.toNat, y.destPort.toNat] = _
    rw [hx, hy]
    rfl
  rw [if_neg fun h ↦ hia (Fin.ext h)]
  rcases eq_or_ne i b with rfl | hib
  · rw [Function.update_self, if_pos rfl]
    change [z.destPort.toNat] = _
    rw [hz]
    rfl
  · rw [if_neg fun h ↦ hib (Fin.ext h), Function.update_of_ne hib, Function.update_of_ne hia,
      Function.update_of_ne hia, Function.update_of_ne hib, Function.update_of_ne hia]
    rfl

/-- Two workers have sent three packets, no two of them to one port. -/
theorem sweep_sends_threePackets : ∃ s, Reaches Env.forge s ∧
    (List.finRange processCount).flatMap s.portsSent = [1, 2, 4096] ∧
      ((List.finRange processCount).flatMap s.portsSent).Nodup := by
  obtain ⟨s, hreach, hports⟩ := exists_threePackets
  refine ⟨s, hreach, ?_, (sweep_sends Env.forge Env.plain_forge hreach).2.2.2.2 fun i hi ↦ ?_⟩
  · rw [funext hports]
    decide
  · rw [hports, if_neg (by omega), if_neg (by omega)]
    exact Nat.zero_le _

/-! ## The end of the scan -/

theorem Kept.wait_mem (h : Kept env s) (hn : n ≤ 65535) (hgood : Master.Good env.created s.master)
    (hcreated : ∀ i, env.created i = true) (hi : i.val + 1 = n) (hopened : env.opened i = true) :
    .wait ∈ s.master.todo := by
  by_contra hwait
  rcases hgood.waited hwait with ⟨j, hj⟩ | hover
  · exact absurd ((hcreated j).symm.trans hj) nofun
  · exact absurd (h.length_of_over hn (hover i) hopened).1 (by omega)

theorem stmt_before_wait (hgood : Master.Good env.created s.master)
    (hwait : .wait ∈ s.master.todo) :
    ∃ stmt todo, s.master.todo = stmt :: todo ∧ (stmt = .wait ∨ ∃ i, stmt = .create i) := by
  obtain ⟨stmt, todo, htodo⟩ := List.exists_cons_of_ne_nil (List.ne_nil_of_mem hwait)
  refine ⟨stmt, todo, htodo, ?_⟩
  have hrank (hle : (Master.Stmt.wait : Master.Stmt n).rank ≤ stmt.rank) : stmt = .wait := by
    by_contra hne
    rw [htodo, List.mem_cons] at hwait
    exact hgood.not_mem htodo hle (hwait.resolve_left (Ne.symm hne))
  cases stmt with
  | create i => exact Or.inr ⟨i, rfl⟩
  | wait => exact Or.inl rfl
  | stopClock => exact Or.inl (hrank (Nat.le_add_right n 1))
  | printCompleted => exact Or.inl (hrank (Nat.le_add_right n 2))
  | printDuration => exact Or.inl (hrank (Nat.le_add_right n 3))
  | printRate => exact Or.inl (hrank (Nat.le_add_right n 4))
  | close i => exact Or.inl (hrank ((Nat.le_add_right n 5).trans (Nat.le_add_right _ _)))

theorem Kept.running (h : Kept env s) (hn : n ≤ 65535) (hgood : Master.Good env.created s.master)
    (hcreated : env.created i = true) (hi : i.val + 1 = n) (hopened : env.opened i = true)
    (hdone : .create i ∉ s.master.todo) : s.master.workers i = some .running := by
  obtain ⟨phase, hphase⟩ :=
    Option.isSome_iff_exists.mp ((hgood.workers i).mpr ⟨hcreated, hdone⟩)
  cases phase with
  | running => exact hphase
  | terminated => exact absurd (h.length_of_over hn hphase hopened).1 (by omega)

theorem le_endPort_last (hi : i.val + 1 = n) (port : UInt16) :
    port ≤ (masterRange n i).endPort := by
  have hend := toNat_endPort i.isLt
  rw [if_pos (by omega)] at hend
  rw [UInt16.le_iff_toNat_le, hend]
  exact Nat.le_of_lt_succ port.toNat_lt

theorem exists_last_created (hpath : env.Plain) (hn : n ≤ 65535)
    (hcreated : ∀ i, env.created i = true) (hi : i.val + 1 = n) (hopened : env.opened i = true)
    (h : Reaches env s) :
    ∃ t, Relation.ReflTransGen (Step env) s t ∧ .create i ∉ t.master.todo := by
  induction hlength : s.master.todo.length generalizing s with
  | zero =>
    refine ⟨s, Relation.ReflTransGen.refl, ?_⟩
    rw [List.length_eq_zero_iff.mp hlength]
    exact List.not_mem_nil
  | succ length ih =>
    by_cases hdone : .create i ∈ s.master.todo
    · have hgood := Master.Good.of_reaches h.master
      have hwait := (Kept.of_reaches hpath hn h).wait_mem hn hgood hcreated hi hopened
      obtain ⟨stmt, todo, htodo, hstmt⟩ := stmt_before_wait hgood hwait
      obtain ⟨j, rfl⟩ : ∃ j, stmt = .create j := by
        refine hstmt.resolve_left ?_
        rintro rfl
        -- the creations come before the wait
        have hnot := hgood.not_mem (x := .create i) htodo i.isLt.le
        rw [htodo, List.mem_cons] at hdone
        exact hnot (hdone.resolve_left nofun)
      have hstep : Step env s { s with master :=
          { s.master.create j (env.created j) with todo } } :=
        Step.statement htodo (Master.Step.create htodo)
      obtain ⟨t, hreach, ht⟩ := ih (h.tail hstep) (by
        rw [htodo] at hlength
        exact Nat.succ.inj hlength)
      exact ⟨t, Relation.ReflTransGen.head hstep hreach, ht⟩
    · exact ⟨s, Relation.ReflTransGen.refl, hdone⟩

theorem exists_next_send (hpath : env.Plain) (hi : i.val + 1 = n)
    (hrunning : s.master.workers i = some .running) {w : Worker} (hw : s.loops i = some w) :
    ∃ t v, Relation.ReflTransGen (Step env) s t ∧ t.master.workers i = some .running ∧
      t.loops i = some v ∧ v.sends.length = w.sends.length + 1 := by
  have hsend (s : System n) (w : Worker) (hrunning : s.master.workers i = some .running)
      (hw : s.loops i = some w) (hne : w.port ≠ 0) :
      ∃ t v, Relation.ReflTransGen (Step env) s t ∧ t.master.workers i = some .running ∧
        t.loops i = some v ∧ v.sends.length = w.sends.length + 1 := by
    obtain ⟨t, send, hround, -, hmaster, hloops⟩ :=
      exists_round hpath hrunning hw (le_endPort_last hi w.port) hne
    exact ⟨t, _, Relation.ReflTransGen.single hround, hmaster ▸ hrunning,
      hloops ▸ Function.update_self .., List.length_append⟩
  rcases eq_or_ne w.port 0 with hzero | hne
  · -- port 0 takes a round of its own
    have hbody := Worker.body_of_eq_zero (env.libc i) (String.ofList masterSourceIp)
      (String.ofList masterDestIp) hzero
    have hstep := Step.round hrunning hw (Env.call_eq hpath i) (le_endPort_last hi w.port)
    rw [hbody] at hstep
    have hne : w.port + 1 ≠ 0 := by
      rw [hzero]
      decide
    obtain ⟨t, v, hreach, ht, hv, hlength⟩ :=
      hsend { s with loops := Function.update s.loops i (some { w with port := w.port + 1 }) }
        { w with port := w.port + 1 } hrunning (Function.update_self ..) hne
    exact ⟨t, v, Relation.ReflTransGen.head hstep hreach, ht, hv, hlength⟩
  · exact hsend s w hrunning hw hne

theorem exists_many_sends (hpath : env.Plain) (hi : i.val + 1 = n)
    (hrunning : s.master.workers i = some .running) {w : Worker} (hw : s.loops i = some w) (N : ℕ) :
    ∃ t v, Relation.ReflTransGen (Step env) s t ∧ t.loops i = some v ∧ N ≤ v.sends.length := by
  suffices h : ∃ t v, Relation.ReflTransGen (Step env) s t ∧
      t.master.workers i = some .running ∧ t.loops i = some v ∧ N ≤ v.sends.length by
    obtain ⟨t, v, hreach, -, hv, hle⟩ := h
    exact ⟨t, v, hreach, hv, hle⟩
  induction N with
  | zero => exact ⟨s, w, Relation.ReflTransGen.refl, hrunning, hw, Nat.zero_le _⟩
  | succ N ih =>
    obtain ⟨t, v, hreach, ht, hv, hle⟩ := ih
    obtain ⟨t', v', hreach', ht', hv', hlength⟩ := exists_next_send hpath hi ht hv
    exact ⟨t', v', hreach.trans hreach', ht', hv', by omega⟩

theorem exists_all_ports (hpath : env.Plain) (hn : n ≤ 65535) (hcreated : ∀ i, env.created i = true)
    (hi : i.val + 1 = n) (hopened : env.opened i = true) (h : Reaches env s) (N : ℕ) :
    ∃ t, Relation.ReflTransGen (Step env) s t ∧
      ∀ port, 1 ≤ port → port ≤ 65535 → N ≤ (t.portsSent i).count port := by
  obtain ⟨s₁, hreach₁, hdone⟩ := exists_last_created hpath hn hcreated hi hopened h
  have h₁ : Reaches env s₁ := h.trans hreach₁
  have hkept₁ := Kept.of_reaches hpath hn h₁
  have hgood₁ := Master.Good.of_reaches h₁.master
  have hrunning := hkept₁.running hn hgood₁ (hcreated i) hi hopened hdone
  obtain ⟨s₂, w, hreach₂, hrunning₂, hw⟩ : ∃ s₂ w, Relation.ReflTransGen (Step env) s₁ s₂ ∧
      s₂.master.workers i = some .running ∧ s₂.loops i = some w := by
    cases hloop : s₁.loops i with
    | some w => exact ⟨s₁, w, Relation.ReflTransGen.refl, hrunning, hloop⟩
    | none =>
      have hstep := Step.enter hrunning hloop (Env.call_eq hpath i) hopened
      exact ⟨_, _, Relation.ReflTransGen.single hstep, hrunning, Function.update_self ..⟩
  obtain ⟨t, v, hreach₃, hv, hle⟩ := exists_many_sends hpath hi hrunning₂ hw (65535 * N)
  have hkept := Kept.of_reaches hpath hn ((h₁.trans hreach₂).trans hreach₃)
  refine ⟨t, (hreach₁.trans hreach₂).trans hreach₃, fun port hfirst hlast ↦ ?_⟩
  have hlength : 65535 * N ≤ (t.portsSent i).length := by
    rw [portsSent_of_loop hv, List.length_map]
    exact hle
  rw [hkept.portsSent i, ← Nat.add_sub_cancel' hlength, List.range_add, List.map_append,
    List.count_append]
  exact (le_count_cyclePort _ ⟨hfirst, hlast⟩ N).trans (Nat.le_add_right _ _)

/-- **The scan does not end.** If all sixteen workers are created and the last one gets its socket,
the completion and the rate are never printed in any run, and no run comes to a stop; from every
state the run can go on to send to each of the ports 1 to 65535 as often as one likes. -/
theorem sweep_never_completes (env : Env processCount) (hpath : env.Plain)
    (hcreated : ∀ i, env.created i = true) (hopened : ∀ i : Fin processCount, i.val = 15 →
      env.opened i = true) {s : System processCount} (h : Reaches env s) :
    ¬s.master.Reported ∧ (∃ s', Step env s s') ∧
      ∀ N, ∃ t, Relation.ReflTransGen (Step env) s t ∧ ∃ i, ∀ port, 1 ≤ port → port ≤ 65535 →
        N ≤ (t.portsSent i).count port := by
  have hn : processCount ≤ 65535 := by decide
  obtain ⟨i, hi⟩ : ∃ i : Fin processCount, i.val = 15 := ⟨⟨15, by decide⟩, rfl⟩
  have hlast : i.val + 1 = processCount := congrArg (· + 1) hi
  have hgood := Master.Good.of_reaches h.master
  have hkept := Kept.of_reaches hpath hn h
  have hwait := hkept.wait_mem hn hgood hcreated hlast (hopened i hi)
  refine ⟨fun hreported ↦ hgood.reported hreported hwait, ?_, fun N ↦ ?_⟩
  · obtain ⟨stmt, todo, htodo, rfl | ⟨j, rfl⟩⟩ := stmt_before_wait hgood hwait
    · have hdone : .create i ∉ s.master.todo := by
        rw [htodo, List.mem_cons, not_or]
        exact ⟨nofun, hgood.not_mem htodo i.isLt.le⟩
      have hrunning := hkept.running hn hgood (hcreated i) hlast (hopened i hi) hdone
      cases hloop : s.loops i with
      | none =>
        exact ⟨_, Step.enter hrunning hloop (Env.call_eq hpath i) (hopened i hi)⟩
      | some w =>
        exact ⟨_, Step.round hrunning hloop (Env.call_eq hpath i) (le_endPort_last hlast w.port)⟩
    · exact ⟨_, Step.statement (m := { s.master.create j (env.created j) with todo }) htodo
        (Master.Step.create htodo)⟩
  · obtain ⟨t, hreach, hcount⟩ := exists_all_ports hpath hn hcreated hlast (hopened i hi) h N
    exact ⟨t, hreach, i, hcount⟩

/-- When three packets have been sent, the scan goes on, to every port. -/
theorem sweep_never_completes_threePackets : ∃ s, Reaches Env.forge s ∧
    (List.finRange processCount).flatMap s.portsSent = [1, 2, 4096] ∧
      (∃ s', Step Env.forge s s') ∧
        ∃ t, Relation.ReflTransGen (Step Env.forge) s t ∧ ∃ i, 7 ≤ (t.portsSent i).count 80 := by
  obtain ⟨s, hreach, hports⟩ := exists_threePackets
  obtain ⟨-, hstep, hcount⟩ := sweep_never_completes Env.forge Env.plain_forge (fun _ ↦ rfl)
    (fun _ _ ↦ rfl) hreach
  obtain ⟨t, ht, i, hi⟩ := hcount 7
  refine ⟨s, hreach, ?_, hstep, t, ht, i, hi 80 (by decide) (by decide)⟩
  rw [funext hports]
  decide

end NatGhost.Sweep
