import Mathlib.Algebra.GroupWithZero.Nat
import NatGhost.Foundation.TaskPool

/-!
# Tasks that work off requests

Each task has a list of requests and makes them one after the other. A request is answered with some
entries, which the task appends to the shared log one at a time, or kills the task. The answers are
given by a function, so what a task logs is fixed (`Script.output`), and only the order in which the
tasks get to the log is left to the schedule.
-/

namespace NatGhost

/-- What a task has still to append, and the requests it has still to make. -/
structure Script (κ α : Type) where
  pending : List α
  requests : List κ

namespace Script

variable {κ α : Type} (answer : κ → Option (List α))

inductive Step : Script κ α → List α → Script κ α → Prop
  | append (a : α) (pending : List α) (requests : List κ) :
      Step ⟨a :: pending, requests⟩ [a] ⟨pending, requests⟩
  | request {q : κ} {requests : List κ} {items : List α} (h : answer q = some items) :
      Step ⟨[], q :: requests⟩ [] ⟨items, requests⟩
  | die {q : κ} {requests : List κ} (h : answer q = none) : Step ⟨[], q :: requests⟩ [] ⟨[], []⟩

def isDone (a : Script κ α) : Bool := a.pending.isEmpty && a.requests.isEmpty

/-- Tasks with the lists of requests `jobs`. -/
def tasks (jobs : List (List κ)) : TaskSystem (Fin jobs.length) (Script κ α) α where
  start i out a := out = [] ∧ a = ⟨[], jobs.get i⟩
  step _ := Step answer
  isDone := isDone
  not_done hstep := by cases hstep <;> rfl

def program (jobs : List (List κ)) : List (ForkStmt (Fin jobs.length) Empty) :=
  forkBatch (List.finRange jobs.length)

/-! ## What a task logs -/

def output : List κ → List α
  | [] => []
  | q :: requests =>
    match answer q with
    | none => []
    | some items => items ++ output requests

/-- A request that is made: none before it has killed the task. -/
def Made (requests : List κ) (q : κ) : Prop :=
  ∃ before behind, requests = before ++ q :: behind ∧ ∀ p ∈ before, answer p ≠ none

section

variable {answer} {requests : List κ} {q : κ}

theorem output_of_some {items : List α} (h : answer q = some items) :
    output answer (q :: requests) = items ++ output answer requests := by
  rw [output, h]

theorem output_of_none (h : answer q = none) : output answer (q :: requests) = [] := by
  rw [output, h]

theorem made_cons {p : κ} :
    Made answer (p :: requests) q ↔ q = p ∨ answer p ≠ none ∧ Made answer requests q := by
  constructor
  · rintro ⟨before, behind, heq, hbefore⟩
    cases before with
    | nil => exact Or.inl (List.cons.inj heq).1.symm
    | cons b before =>
      obtain ⟨rfl, hrest⟩ := List.cons.inj heq
      obtain ⟨hp, hbefore⟩ := List.forall_mem_cons.mp hbefore
      exact Or.inr ⟨hp, before, behind, hrest, hbefore⟩
  · rintro (rfl | ⟨hp, before, behind, rfl, hbefore⟩)
    · exact ⟨[], requests, rfl, nofun⟩
    · exact ⟨p :: before, behind, rfl, List.forall_mem_cons.mpr ⟨hp, hbefore⟩⟩

theorem not_made_nil : ¬Made answer [] q := by
  rintro ⟨before, behind, heq, -⟩
  exact List.append_ne_nil_of_right_ne_nil before (List.cons_ne_nil q behind) heq.symm

theorem made_iff_mem (h : ∀ p ∈ requests, answer p ≠ none) :
    Made answer requests q ↔ q ∈ requests := by
  constructor
  · rintro ⟨before, behind, rfl, -⟩
    exact List.mem_append_right _ List.mem_cons_self
  · intro hmem
    obtain ⟨before, behind, rfl⟩ := List.append_of_mem hmem
    exact ⟨before, behind, rfl, fun p hp ↦ h p (List.mem_append_left _ hp)⟩

/-- **The entries** are those of the requests that are made. -/
theorem mem_output {a : α} :
    a ∈ output answer requests ↔ ∃ q, Made answer requests q ∧ ∃ items, answer q = some items ∧
      a ∈ items := by
  induction requests with
  | nil => exact ⟨fun h ↦ absurd h List.not_mem_nil, fun ⟨_, hmade, _⟩ ↦ absurd hmade not_made_nil⟩
  | cons p requests ih =>
    rw [output]
    cases hp : answer p with
    | none =>
      refine ⟨fun h ↦ absurd h List.not_mem_nil, ?_⟩
      rintro ⟨q, hmade, items, hitems, -⟩
      rcases made_cons.mp hmade with rfl | ⟨hne, -⟩
      · exact absurd (hp.symm.trans hitems) nofun
      · exact absurd hp hne
    | some items =>
      have hne : answer p ≠ none := fun hnone ↦ absurd (hp.symm.trans hnone) nofun
      rw [List.mem_append, ih]
      constructor
      · rintro (hmem | ⟨q, hmade, h⟩)
        · exact ⟨p, made_cons.mpr (Or.inl rfl), items, hp, hmem⟩
        · exact ⟨q, made_cons.mpr (Or.inr ⟨hne, hmade⟩), h⟩
      · rintro ⟨q, hmade, items', hitems', hmem⟩
        rcases made_cons.mp hmade with rfl | ⟨-, hmade⟩
        · obtain rfl := Option.some.inj (hp.symm.trans hitems')
          exact Or.inl hmem
        · exact Or.inr ⟨q, hmade, items', hitems', hmem⟩

theorem output_eq_flatMap {f : κ → List α} (h : ∀ q ∈ requests, answer q = some (f q)) :
    output answer requests = requests.flatMap f := by
  induction requests with
  | nil => rfl
  | cons q requests ih =>
    obtain ⟨hq, hrequests⟩ := List.forall_mem_cons.mp h
    rw [output_of_some hq, ih hrequests, List.flatMap_cons]

end

/-! ## All schedules -/

section

variable (jobs : List (List κ))

theorem isProgram : TaskSystem.IsProgram (program jobs) := TaskSystem.isProgram_finRange _

theorem fixed : (tasks answer jobs).Fixed (fun a ↦ a.pending ++ output answer a.requests)
    fun i ↦ output answer (jobs.get i) where
  start_eq _ _ _ hstart := by
    obtain ⟨rfl, rfl⟩ := hstart
    rfl
  step_eq _ _ _ _ hstep := by
    cases hstep with
    | append => rfl
    | request h => exact output_of_some h
    | die h => exact output_of_none h
  done_eq a hdone := by
    obtain ⟨hpending, hrequests⟩ := (Bool.and_eq_true _ _).mp hdone
    rw [List.isEmpty_iff.mp hpending, List.isEmpty_iff.mp hrequests]
    rfl

theorem lively : (tasks answer jobs).Lively where
  starts i := ⟨_, _, rfl, rfl⟩
  moves _ _ a _ hdone := by
    obtain ⟨pending, requests⟩ := a
    cases pending with
    | cons a pending => exact ⟨_, _, Step.append a pending requests⟩
    | nil =>
      cases requests with
      | nil => exact absurd hdone nofun
      | cons q requests =>
        cases hq : answer q with
        | none => exact ⟨_, _, Step.die hq⟩
        | some items => exact ⟨_, _, Step.request hq⟩

def stepsLeft (a : Script κ α) : ℕ :=
  a.pending.length + (output answer a.requests).length + a.requests.length

theorem measured : (tasks answer jobs).Measured (stepsLeft answer)
    (jobs.map fun requests ↦ (output answer requests).length + requests.length).sum where
  start_le i _ _ hstart := by
    obtain ⟨-, rfl⟩ := hstart
    rw [stepsLeft, List.length_nil, Nat.zero_add]
    exact List.single_le_sum (fun _ _ ↦ Nat.zero_le _) _
      (List.mem_map_of_mem (List.get_mem jobs i))
  step_lt _ _ _ _ hstep := by
    cases hstep with
    | append a pending requests =>
      simp only [stepsLeft, List.length_cons]
      omega
    | request h =>
      simp only [stepsLeft, output_of_some h, List.length_cons, List.length_append,
        List.length_nil]
      omega
    | die h =>
      simp only [stepsLeft, output, List.length_cons, List.length_nil]
      omega

variable {jobs} {s : TaskState (Fin jobs.length) (Script κ α) α}

/-- **Every run can be brought to its end.** -/
theorem exists_returned (h : (tasks answer jobs).Reaches (program jobs) s) :
    ∃ t, Relation.ReflTransGen (tasks answer jobs).Step s t ∧ t.todo = [] :=
  TaskSystem.exists_returned (isProgram jobs) (lively answer jobs) (measured answer jobs) h

variable (jobs) in
/-- **No run is endless.** -/
theorem not_endless : ¬∃ run : ℕ → TaskState (Fin jobs.length) (Script κ α) α,
    run 0 = TaskSystem.initial (program jobs) ∧
      ∀ k, (tasks answer jobs).Step (run k) (run (k + 1)) :=
  TaskSystem.not_endless (isProgram jobs) (measured answer jobs)

variable {answer}

theorem proj_eq_output (h : (tasks answer jobs).Reaches (program jobs) s) (htodo : s.todo = [])
    (i : Fin jobs.length) : proj i s.log = output answer (jobs.get i) :=
  TaskSystem.proj_eq_total (fixed answer jobs) (isProgram jobs) h htodo i

/-- **What is in the log when the program has returned**: the entries of all tasks, in some
order. -/
theorem log_perm (h : (tasks answer jobs).Reaches (program jobs) s) (htodo : s.todo = []) :
    (s.log.map Prod.snd).Perm (jobs.flatMap (output answer)) := by
  have hall : ((List.finRange jobs.length).flatMap fun i ↦ proj i s.log)
      = jobs.flatMap (output answer) := by
    rw [List.flatMap_congr fun i _ ↦ proj_eq_output h htodo i, ← List.flatMap_map,
      List.map_get_finRange]
  exact hall ▸ map_snd_perm (List.nodup_finRange _) List.mem_finRange s.log

end

end Script

end NatGhost
