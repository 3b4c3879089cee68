import NatGhost.Foundation.ForkJoin
import NatGhost.Foundation.Interleaving

/-!
# Tasks that a program starts and joins

A program starts tasks `ι` and joins them. A task has a local state `σ`, begins in one of the states
`start` allows, and goes from state to state by `step` until it is done; the tasks share nothing but
a log, to which starting a task and each of its steps may add entries. Both are relations, so a task
may depend on anything outside the program.

## What one knows about all schedules

Whatever the schedule, the entries of a task are those of a run of that task alone (`Good.alone`),
and complete when the program has returned (`Good.returned`). So a statement about the whole log is
a statement about the logs of the tasks, put together in some order. The order of what is logged at
their starts is decided by the program alone (`map_marked`).

If the steps of a task lower a number, no run is endless, and if no task gets stuck every run can be
continued until the program returns. To find a run with certain entries only, one restricts the
tasks to these (`restrict`).
-/

namespace NatGhost

/-! ## Tasks -/

/-- What tasks do. Nothing happens in a task that is done. -/
structure TaskSystem (ι σ α : Type) where
  start : ι → List α → σ → Prop
  step : ι → σ → List α → σ → Prop
  isDone : σ → Bool
  not_done : ∀ {i : ι} {a b : σ} {out : List α}, step i a out b → isDone a = false

/-- The statements left, the tasks that have been started, and the log. -/
structure TaskState (ι σ α : Type) where
  todo : List (ForkStmt ι Empty)
  tasks : ι → Option σ
  log : List (ι × α)

namespace TaskSystem

variable {ι σ α : Type} [DecidableEq ι] (S : TaskSystem ι σ α)

inductive Step : TaskState ι σ α → TaskState ι σ α → Prop
  | start {s : TaskState ι σ α} {i : ι} {todo : List (ForkStmt ι Empty)} {out : List α} {a : σ}
      (htodo : s.todo = .start i :: todo) (hstart : S.start i out a) :
      Step s ⟨todo, Function.update s.tasks i (some a), s.log ++ out.map (Prod.mk i)⟩
  | join {s : TaskState ι σ α} {i : ι} {todo : List (ForkStmt ι Empty)} {a : σ}
      (htodo : s.todo = .join i :: todo) (hi : s.tasks i = some a) (hdone : S.isDone a = true) :
      Step s { s with todo }
  | move {s : TaskState ι σ α} {i : ι} {out : List α} {a b : σ} (hi : s.tasks i = some a)
      (hstep : S.step i a out b) :
      Step s { s with
        tasks := Function.update s.tasks i (some b)
        log := s.log ++ out.map (Prod.mk i) }

def initial (program : List (ForkStmt ι Empty)) : TaskState ι σ α := ⟨program, fun _ ↦ none, []⟩

def Reaches (program : List (ForkStmt ι Empty)) (s : TaskState ι σ α) : Prop :=
  Relation.ReflTransGen S.Step (initial program) s

/-- The log and the state of one task, run alone. -/
inductive Alone (i : ι) : List α → σ → Prop
  | start {out : List α} {a : σ} (hstart : S.start i out a) : Alone i out a
  | step {log out : List α} {a b : σ} (h : Alone i log a) (hstep : S.step i a out b) :
      Alone i (log ++ out) b

/-- A program that starts each task once and waits for all of them. -/
structure IsProgram (program : List (ForkStmt ι Empty)) : Prop where
  forked : wellForked (fun _ ↦ false) program = true
  joins : ∀ i, .join i ∈ program

theorem isProgram_batches {batches : List (List ι)} (hnodup : batches.flatten.Nodup)
    (hall : ∀ i, i ∈ batches.flatten) : IsProgram (batches.flatMap forkBatch) where
  forked := wellForked_batches hnodup fun _ _ ↦ rfl
  joins i := by
    obtain ⟨is, his, hi⟩ := List.mem_flatten.mp (hall i)
    exact List.mem_flatMap.mpr ⟨is, his, List.mem_append_right _ (List.mem_map_of_mem hi)⟩

theorem isProgram_finRange (n : ℕ) : IsProgram (forkBatch (List.finRange n)) := by
  have hflatten : [List.finRange n].flatten = List.finRange n := List.flatten_singleton
  have hnodup : [List.finRange n].flatten.Nodup := by
    rw [hflatten]
    exact List.nodup_finRange n
  have h : IsProgram ([List.finRange n].flatMap forkBatch) := isProgram_batches hnodup fun i ↦ by
    rw [hflatten]
    exact List.mem_finRange i
  rwa [List.flatMap_singleton] at h

/-! ## What every step preserves -/

def isStarted (s : TaskState ι σ α) (i : ι) : Bool := (s.tasks i).isSome

def hasEnded (s : TaskState ι σ α) (i : ι) : Bool := (s.tasks i).any S.isDone

/-- **The invariant.** -/
structure Good (s : TaskState ι σ α) : Prop where
  course : OnCourse (isStarted s) (S.hasEnded s) s.todo
  /-- Each task has done what it might have done alone. -/
  alone : ∀ i a, s.tasks i = some a → S.Alone i (proj i s.log) a
  fresh : ∀ i, s.tasks i = none → proj i s.log = []

section

variable {S} {program todo : List (ForkStmt ι Empty)} {s s' : TaskState ι σ α} {i : ι}
  {out : List α} {a b : σ}

theorem Good.initial (h : IsProgram program) : S.Good (initial program) where
  course := ⟨h.forked, fun i ↦ Or.inl (h.joins i)⟩
  alone _ _ h := nomatch h
  fresh _ _ := rfl

theorem isStarted_update (s : TaskState ι σ α) (i : ι) (a : σ) (todo : List (ForkStmt ι Empty))
    (log : List (ι × α)) : isStarted ⟨todo, Function.update s.tasks i (some a), log⟩
      = Function.update (isStarted s) i true := by
  funext j
  rw [isStarted]
  change (Function.update s.tasks i (some a) j).isSome = _
  rcases eq_or_ne j i with rfl | hne
  · rw [Function.update_self, Function.update_self]
    rfl
  · rw [Function.update_of_ne hne, Function.update_of_ne hne, isStarted]

theorem Good.eq_none (h : S.Good s) (htodo : s.todo = .start i :: todo) : s.tasks i = none := by
  have hcourse := h.course
  rw [htodo] at hcourse
  exact Option.isNone_iff_eq_none.mp (Option.isSome_eq_false_iff.mp hcourse.started_eq_false)

theorem Good.alone_update (h : S.Good s) (hi : S.Alone i (proj i s.log ++ out) b) (j : ι) :
    (∀ a, Function.update s.tasks i (some b) j = some a →
        S.Alone j (proj j (s.log ++ out.map (Prod.mk i))) a) ∧
      (Function.update s.tasks i (some b) j = none →
        proj j (s.log ++ out.map (Prod.mk i)) = []) := by
  rw [proj_append]
  rcases eq_or_ne j i with rfl | hne
  · rw [proj_map_self, Function.update_self]
    refine ⟨fun a ha ↦ ?_, nofun⟩
    obtain rfl := Option.some.inj ha
    exact hi
  · rw [proj_map_of_ne hne.symm, List.append_nil, Function.update_of_ne hne]
    exact ⟨h.alone j, h.fresh j⟩

theorem Good.hasEnded_update (hi : ∀ c, s.tasks i = some c → S.isDone c = false)
    {log : List (ι × α)} {j : ι} (hj : S.hasEnded s j = true) :
    S.hasEnded ⟨todo, Function.update s.tasks i (some b), log⟩ j = true := by
  have hne : j ≠ i := by
    rintro rfl
    obtain ⟨c, hc, hdone⟩ := (Option.any_eq_true _ _).mp hj
    exact absurd (hdone.symm.trans (hi c hc)) nofun
  rw [hasEnded]
  change (Function.update s.tasks i (some b) j).any S.isDone = true
  rwa [Function.update_of_ne hne]

/-- **What every step preserves.** -/
theorem Good.step (h : S.Good s) (hstep : S.Step s s') : S.Good s' := by
  have hcourse := h.course
  cases hstep with
  | @start i todo out a htodo hstart =>
    have hnone := h.eq_none htodo
    have halone : S.Alone i (proj i s.log ++ out) a := by
      rw [h.fresh i hnone, List.nil_append]
      exact Alone.start hstart
    rw [htodo] at hcourse
    refine ⟨?_, fun j ↦ (h.alone_update halone j).1, fun j ↦ (h.alone_update halone j).2⟩
    rw [isStarted_update]
    refine hcourse.start.mono fun j hj ↦ Good.hasEnded_update (fun c hc ↦ ?_) hj
    exact absurd (hnone.symm.trans hc) nofun
  | @join i todo a htodo hi hdone =>
    rw [htodo] at hcourse
    refine ⟨hcourse.join ?_, h.alone, h.fresh⟩
    exact (Option.any_eq_true _ _).mpr ⟨a, hi, hdone⟩
  | @move i out a b hi hstep =>
    have halone := Alone.step (h.alone i a hi) hstep
    refine ⟨?_, fun j ↦ (h.alone_update halone j).1, fun j ↦ (h.alone_update halone j).2⟩
    have hstarted : Function.update (isStarted s) i true = isStarted s := by
      rw [Function.update_eq_self_iff, isStarted, hi]
      rfl
    rw [isStarted_update, hstarted]
    refine hcourse.mono fun j hj ↦ Good.hasEnded_update (fun c hc ↦ ?_) hj
    obtain rfl := Option.some.inj (hi.symm.trans hc)
    exact S.not_done hstep

theorem Good.of_reaches (hprogram : IsProgram program) (h : S.Reaches program s) : S.Good s := by
  induction h with
  | refl => exact Good.initial hprogram
  | tail _ hstep ih => exact ih.step hstep

/-- **When the program has returned**, every task has been run to its end. -/
theorem Good.returned (h : S.Good s) (htodo : s.todo = []) (i : ι) :
    ∃ a, s.tasks i = some a ∧ S.isDone a = true ∧ S.Alone i (proj i s.log) a := by
  have hcourse := h.course
  rw [htodo] at hcourse
  obtain ⟨a, ha, hdone⟩ := (Option.any_eq_true _ _).mp (hcourse.done_eq_true i)
  exact ⟨a, ha, hdone, h.alone i a ha⟩

/-! ## The order of the starts -/

/-- The tasks whose entries are marked, in the order of the entries. -/
def marked {β : Type} (mark : α → Option β) (log : List (ι × α)) : List ι :=
  log.filterMap fun e ↦ (mark e.2).map fun _ ↦ e.1

omit [DecidableEq ι] in
theorem marked_map {β : Type} (mark : α → Option β) (i : ι) (out : List α) :
    marked mark (out.map (Prod.mk i)) = (out.filterMap mark).map fun _ ↦ i := by
  rw [marked, List.filterMap_map, List.map_filterMap]
  rfl

omit [DecidableEq ι] in
theorem filterMap_eq_map_marked {β : Type} {mark : α → Option β} {f : ι → β} {log : List (ι × α)}
    (h : ∀ e ∈ log, ∀ b ∈ mark e.2, b = f e.1) :
    log.filterMap (fun e ↦ mark e.2) = (marked mark log).map f := by
  rw [marked, List.map_filterMap]
  refine List.filterMap_congr fun e he ↦ ?_
  cases hmark : mark e.2 with
  | none => rfl
  | some b => exact congrArg some (h e he b hmark)

/-- **Entries logged only at the starts**, one at each, are in the order of the program. -/
theorem map_marked {β : Type} (mark : α → Option β)
    (hstart : ∀ i out a, S.start i out a → (out.filterMap mark).length = 1)
    (hstep : ∀ i a out b, S.step i a out b → out.filterMap mark = [])
    (h : S.Reaches program s) :
    marked mark s.log ++ s.todo.filterMap ForkStmt.starts?
      = program.filterMap ForkStmt.starts? := by
  have happend (log log' : List (ι × α)) :
      marked mark (log ++ log') = marked mark log ++ marked mark log' := List.filterMap_append
  induction h with
  | refl => rfl
  | @tail s s' _ hlast ih =>
    cases hlast with
    | @start i todo out a htodo hstarted =>
      obtain ⟨x, hx⟩ := List.length_eq_one_iff.mp (hstart i out a hstarted)
      rw [htodo] at ih
      rw [happend, marked_map, hx, List.append_assoc]
      exact ih
    | @join i todo a htodo hi hdone =>
      rw [htodo] at ih
      exact ih
    | @move i out a b hi hmoved =>
      change marked mark (s.log ++ out.map (Prod.mk i)) ++ s.todo.filterMap _ = _
      rw [happend, marked_map, hstep i a out b hmoved, List.map_nil, List.append_nil]
      exact ih

/-! ## Tasks with a fixed output -/

/-- Tasks of which one knows in advance what they log: `future` is what a state still adds, `total`
is everything. -/
structure Fixed (S : TaskSystem ι σ α) (future : σ → List α) (total : ι → List α) : Prop where
  start_eq : ∀ i out a, S.start i out a → out ++ future a = total i
  step_eq : ∀ i a out b, S.step i a out b → future a = out ++ future b
  done_eq : ∀ a, S.isDone a = true → future a = []

variable {future : σ → List α} {total : ι → List α}

omit [DecidableEq ι] in
theorem Alone.append_future (hfixed : S.Fixed future total) {log : List α}
    (h : S.Alone i log a) : log ++ future a = total i := by
  induction h with
  | start hstart => exact hfixed.start_eq i _ _ hstart
  | step _ hstep ih => rw [List.append_assoc, ← hfixed.step_eq i _ _ _ hstep, ih]

theorem Good.proj_prefix (hfixed : S.Fixed future total) (h : S.Good s) (i : ι) :
    proj i s.log <+: total i := by
  cases hi : s.tasks i with
  | none =>
    rw [h.fresh i hi]
    exact List.nil_prefix
  | some a => exact ⟨future a, (h.alone i a hi).append_future hfixed⟩

/-- **What the tasks have logged** when the program has returned. -/
theorem proj_eq_total (hfixed : S.Fixed future total) (hprogram : IsProgram program)
    (h : S.Reaches program s) (htodo : s.todo = []) (i : ι) : proj i s.log = total i := by
  obtain ⟨a, -, hdone, halone⟩ := (Good.of_reaches hprogram h).returned htodo i
  have hall := halone.append_future hfixed
  rwa [hfixed.done_eq a hdone, List.append_nil] at hall

/-! ## Runs come to an end -/

/-- Tasks that can always be started and never get stuck. -/
structure Lively (S : TaskSystem ι σ α) : Prop where
  starts : ∀ i, ∃ out a, S.start i out a
  moves : ∀ i log a, S.Alone i log a → S.isDone a = false → ∃ out b, S.step i a out b

/-- A number that a task has at most `limit` of, and less with each step. -/
structure Measured (S : TaskSystem ι σ α) (left : σ → ℕ) (limit : ℕ) : Prop where
  start_le : ∀ i out a, S.start i out a → left a ≤ limit
  step_lt : ∀ i a out b, S.step i a out b → left b < left a

def stepsLeft [Fintype ι] (left : σ → ℕ) (limit : ℕ) (s : TaskState ι σ α) : ℕ :=
  s.todo.length * (limit + 1) + ∑ i, (s.tasks i).elim 0 left

theorem Good.stepsLeft_lt [Fintype ι] {left : σ → ℕ} {limit : ℕ} (hmeasured : S.Measured left limit)
    (h : S.Good s) (hstep : S.Step s s') : stepsLeft left limit s' < stepsLeft left limit s := by
  cases hstep with
  | @start i todo out a htodo hstart =>
    have hsum := sum_update_add (fun _ t ↦ t.elim 0 left) s.tasks i (some a)
    have hle := hmeasured.start_le i out a hstart
    rw [h.eq_none htodo, Option.elim_none, add_zero, Option.elim_some] at hsum
    rw [stepsLeft, stepsLeft, htodo, List.length_cons, Nat.succ_mul, hsum]
    change todo.length * (limit + 1) + _ < _
    omega
  | @join i todo a htodo hi hdone =>
    rw [stepsLeft, stepsLeft, htodo, List.length_cons, Nat.succ_mul]
    change todo.length * (limit + 1) + ∑ i, (s.tasks i).elim 0 left < _
    omega
  | @move i out a b hi hstep =>
    have hsum := sum_update_add (fun _ t ↦ t.elim 0 left) s.tasks i (some b)
    have hlt := hmeasured.step_lt i a out b hstep
    rw [hi, Option.elim_some, Option.elim_some] at hsum
    rw [stepsLeft, stepsLeft]
    change s.todo.length * (limit + 1)
      + ∑ j, (Function.update s.tasks i (some b) j).elim 0 left < _
    omega

/-- **No deadlock**: until the program returns, something can happen. -/
theorem Good.exists_step (hlively : S.Lively) (h : S.Good s) (hunfinished : s.todo ≠ []) :
    ∃ s', S.Step s s' := by
  obtain ⟨stmt, todo, htodo⟩ := List.exists_cons_of_ne_nil hunfinished
  cases stmt with
  | start i =>
    obtain ⟨out, a, hstart⟩ := hlively.starts i
    exact ⟨_, Step.start htodo hstart⟩
  | join i =>
    have hcourse := h.course
    rw [htodo] at hcourse
    obtain ⟨a, ha⟩ := Option.isSome_iff_exists.mp hcourse.started_eq_true
    cases hdone : S.isDone a with
    | true => exact ⟨_, Step.join htodo ha hdone⟩
    | false =>
      obtain ⟨out, b, hstep⟩ := hlively.moves i _ a (h.alone i a ha) hdone
      exact ⟨_, Step.move ha hstep⟩
  | call c => exact nomatch c

/-- **Every run can be brought to its end.** -/
theorem exists_returned [Fintype ι] (hprogram : IsProgram program) (hlively : S.Lively)
    {left : σ → ℕ} {limit : ℕ} (hmeasured : S.Measured left limit) (h : S.Reaches program s) :
    ∃ t, Relation.ReflTransGen S.Step s t ∧ t.todo = [] :=
  exists_reaches_final (stepsLeft left limit) (fun _ _ hstep hs ↦ hs.step hstep)
    (fun _ _ hstep hs ↦ hs.stepsLeft_lt hmeasured hstep)
    (fun _ hs hunfinished ↦ hs.exists_step hlively hunfinished) (Good.of_reaches hprogram h)

/-- **No run is endless.** -/
theorem not_endless [Fintype ι] (hprogram : IsProgram program) {left : σ → ℕ} {limit : ℕ}
    (hmeasured : S.Measured left limit) :
    ¬∃ run : ℕ → TaskState ι σ α, run 0 = initial program ∧ ∀ k, S.Step (run k) (run (k + 1)) :=
  not_exists_endless (stepsLeft left limit) (fun _ _ hstep hs ↦ hs.step hstep)
    (fun _ _ hstep hs ↦ hs.stepsLeft_lt hmeasured hstep) (Good.initial (S := S) hprogram)

/-! ## Tasks that log only certain entries -/

variable (S) in
/-- The same tasks, as far as their entries satisfy `P`. -/
def restrict (P : ι → α → Prop) : TaskSystem ι σ α where
  start i out a := S.start i out a ∧ ∀ x ∈ out, P i x
  step i a out b := S.step i a out b ∧ ∀ x ∈ out, P i x
  isDone := S.isDone
  not_done hstep := S.not_done hstep.1

theorem reaches_of_restrict {P : ι → α → Prop} (h : (S.restrict P).Reaches program s) :
    S.Reaches program s ∧ ∀ e ∈ s.log, P e.1 e.2 := by
  have hlogged {log : List (ι × α)} {i : ι} {out : List α} (hlog : ∀ e ∈ log, P e.1 e.2)
      (hout : ∀ x ∈ out, P i x) : ∀ e ∈ log ++ out.map (Prod.mk i), P e.1 e.2 := by
    intro e he
    rcases List.mem_append.mp he with hold | hnew
    · exact hlog e hold
    · obtain ⟨x, hx, rfl⟩ := List.mem_map.mp hnew
      exact hout x hx
  induction h with
  | refl => exact ⟨Relation.ReflTransGen.refl, fun _ he ↦ absurd he List.not_mem_nil⟩
  | tail _ hstep ih =>
    obtain ⟨hreach, hlog⟩ := ih
    cases hstep with
    | start htodo hstart =>
      exact ⟨hreach.tail (Step.start htodo hstart.1), hlogged hlog hstart.2⟩
    | join htodo hi hdone => exact ⟨hreach.tail (Step.join htodo hi hdone), hlog⟩
    | move hi hmove => exact ⟨hreach.tail (Step.move hi hmove.1), hlogged hlog hmove.2⟩

omit [DecidableEq ι] in
theorem Measured.restrict {left : σ → ℕ} {limit : ℕ} (hmeasured : S.Measured left limit)
    (P : ι → α → Prop) : (S.restrict P).Measured left limit where
  start_le i out a hstart := hmeasured.start_le i out a hstart.1
  step_lt i a out b hstep := hmeasured.step_lt i a out b hstep.1

end

end TaskSystem

end NatGhost
