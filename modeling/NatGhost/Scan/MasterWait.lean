import NatGhost.Foundation.ForkJoin
import NatGhost.Foundation.Interleaving
import NatGhost.Scan.Master

/-!
# How the master waits for its workers

`run_master` creates its workers one after the other, waits for all of them with a single call of
`WaitForMultipleObjects`, prints that they are done and how fast they were, and closes their
handles. A worker that could not be created leaves NULL in the array of handles. The wait fails at
once on an array with a NULL in it, and its result is not looked at.

Which workers can be created is input (`created`); a worker that was created terminates at some
point, before or after anything the master does. The number of processes is a parameter, up to the
64 handles one wait can take. The command line that a worker is created with is `commandLine`.

The statements are ranked in program order, so that what is still to do is ascending
(`Good.ascending`) and a statement that is reached is never met again. The handles are closed
exactly once on every path (`count_closed_of_returned`). The completion is reported in time if no
creation fails, or if all do; otherwise there is a run in which it is not (`reportsAtEnd_iff`).
-/

namespace NatGhost.Master

/-! ## The code -/

/-- The two handles in `pi[i]`. -/
inductive Handle (n : ℕ) where
  | hProcess (i : Fin n)
  | hThread (i : Fin n)
  deriving DecidableEq

inductive WorkerPhase where
  | running
  | terminated
  deriving DecidableEq

/-- What `run_master` prints from the first creation on. The double `interval` is the number of
ticks between the two readings of the counter, divided by the frequency. -/
inductive Line (n : ℕ) where
  /-- `"HATA: Process %d olusturulamadi: %lu\n"`, with `i + 1`. -/
  | creationFailed (i : Fin n)
  /-- `"\n[+] Tum process'ler tamamlandi. Burst dalgasi bitti.\n"`. -/
  | completed
  /-- `"Toplam sure: %.4f saniye\n"`. -/
  | duration (ticks : ℤ)
  /-- `"Paket gonderim hizi: %.2f pps (paket/saniye)\n"`. -/
  | rate (ticks : ℤ)
  deriving DecidableEq

/-- The statements of `run_master` from the first creation on. -/
inductive Stmt (n : ℕ) where
  | create (i : Fin n)
  | wait
  | stopClock
  | printCompleted
  | printDuration
  | printRate
  | close (i : Fin n)
  deriving DecidableEq

/-- The statements in the order of the source. -/
def program (n : ℕ) : List (Stmt n) :=
  (List.finRange n).map .create ++
    ([.wait, .stopClock, .printCompleted, .printDuration, .printRate] ++
      (List.finRange n).map .close)

/-- The master and its workers. A NULL handle is `none`, and so is a worker not created. -/
structure System (n : ℕ) where
  todo : List (Stmt n)
  processHandles : Fin n → Option (Handle n)
  workers : Fin n → Option WorkerPhase
  /-- The handles passed to `CloseHandle`, in order. -/
  closed : List (Handle n)
  /-- `end.QuadPart - start.QuadPart`. -/
  ticks : ℤ
  output : List (Line n)

variable {n : ℕ}

def System.initial (n : ℕ) : System n where
  todo := program n
  processHandles := fun _ ↦ none
  workers := fun _ ↦ none
  closed := []
  ticks := 0
  output := []

/-- The process of a handle has terminated. -/
def System.Signaled (s : System n) : Handle n → Prop
  | .hProcess i => s.workers i = some .terminated
  | .hThread i => s.workers i = some .terminated

/-- When `WaitForMultipleObjects` returns: at once if a handle is NULL, and otherwise when all are
signaled. -/
def System.WaitReturns (s : System n) : Prop :=
  (∃ i, s.processHandles i = none) ∨ ∀ i h, s.processHandles i = some h → s.Signaled h

/-- The system after `CreateProcessA` for worker `i`. -/
def System.create (s : System n) (i : Fin n) (created : Bool) : System n :=
  if created = true then
    { s with
      processHandles := Function.update s.processHandles i (some (.hProcess i))
      workers := Function.update s.workers i (some .running)
      closed := s.closed ++ [.hThread i] }
  else
    { s with
      processHandles := Function.update s.processHandles i none
      output := s.output ++ [.creationFailed i] }

/-- The last loop of `run_master` at `i`. -/
def System.close (s : System n) (i : Fin n) : System n :=
  match s.processHandles i with
  | none => s
  | some h => { s with closed := s.closed ++ [h] }

/-- The rate is printed only if the interval is positive. -/
def System.printRate (s : System n) : System n :=
  if 0 < s.ticks then { s with output := s.output ++ [.rate s.ticks] } else s

variable (created : Fin n → Bool)

inductive Step : System n → System n → Prop
  | create {s : System n} {i : Fin n} {todo : List (Stmt n)} (htodo : s.todo = .create i :: todo) :
      Step s { s.create i (created i) with todo }
  | wait {s : System n} {todo : List (Stmt n)} (htodo : s.todo = .wait :: todo)
      (hreturns : s.WaitReturns) : Step s { s with todo }
  | stopClock {s : System n} {todo : List (Stmt n)} (ticks : ℤ)
      (htodo : s.todo = .stopClock :: todo) : Step s { s with todo, ticks }
  | printCompleted {s : System n} {todo : List (Stmt n)}
      (htodo : s.todo = .printCompleted :: todo) :
      Step s { s with todo, output := s.output ++ [.completed] }
  | printDuration {s : System n} {todo : List (Stmt n)} (htodo : s.todo = .printDuration :: todo) :
      Step s { s with todo, output := s.output ++ [.duration s.ticks] }
  | printRate {s : System n} {todo : List (Stmt n)} (htodo : s.todo = .printRate :: todo) :
      Step s { s.printRate with todo }
  | close {s : System n} {i : Fin n} {todo : List (Stmt n)} (htodo : s.todo = .close i :: todo) :
      Step s { s.close i with todo }
  | terminate {s : System n} {i : Fin n} (hi : s.workers i = some .running) :
      Step s { s with workers := Function.update s.workers i (some .terminated) }

def Reaches (s : System n) : Prop := Relation.ReflTransGen (Step created) (System.initial n) s

/-! ## What the master promises -/

def System.Reported (s : System n) : Prop :=
  .completed ∈ s.output ∨ ∃ ticks, .rate ticks ∈ s.output

/-- **The purpose of the wait**: what is reported is over, and the process handle of each worker
that was created is closed once. -/
structure ReportsAtEnd : Prop where
  ended : ∀ s, Reaches created s → s.Reported → ∀ i, s.workers i ≠ some .running
  closed : ∀ s, Reaches created s → s.todo = [] →
    ∀ i, s.closed.count (.hProcess i) = if created i = true then 1 else 0

/-! ## What every step preserves -/

def Stmt.rank : Stmt n → ℕ
  | .create i => i
  | .wait => n
  | .stopClock => n + 1
  | .printCompleted => n + 2
  | .printDuration => n + 3
  | .printRate => n + 4
  | .close i => n + 5 + i

/-- The statements that neither create nor close anything, nor wait. -/
def Stmt.isQuiet : Stmt n → Bool
  | .stopClock | .printCompleted | .printDuration | .printRate => true
  | _ => false

/-- **The invariant.** -/
structure Good (s : System n) : Prop where
  ascending : s.todo.Pairwise fun a b ↦ a.rank < b.rank
  handles : ∀ i, s.processHandles i
    = if created i = true ∧ Stmt.create i ∉ s.todo then some (.hProcess i) else none
  workers : ∀ i, (s.workers i).isSome = true ↔ created i = true ∧ Stmt.create i ∉ s.todo
  waited : Stmt.wait ∉ s.todo →
    (∃ i, created i = false) ∨ ∀ i, s.workers i = some .terminated
  reported : s.Reported → Stmt.wait ∉ s.todo
  closed : ∀ i, s.closed.count (.hProcess i)
    = if created i = true ∧ Stmt.close i ∉ s.todo then 1 else 0

theorem ascending_program (n : ℕ) : (program n).Pairwise fun a b ↦ a.rank < b.rank := by
  have hfin := List.pairwise_lt_finRange n
  rw [program, List.pairwise_append, List.pairwise_append, List.pairwise_map, List.pairwise_map]
  refine ⟨hfin, ⟨?_, hfin.imp fun h ↦ Nat.add_lt_add_left h _, ?_⟩, ?_⟩
  · simp [Stmt.rank]
  · intro a ha b hb
    obtain ⟨i, _, rfl⟩ := List.mem_map.mp hb
    simp only [List.mem_cons, List.not_mem_nil, or_false] at ha
    rcases ha with rfl | rfl | rfl | rfl | rfl <;> simp only [Stmt.rank] <;> omega
  · intro a ha b hb
    obtain ⟨i, _, rfl⟩ := List.mem_map.mp ha
    simp only [List.mem_append, List.mem_cons, List.mem_map, List.not_mem_nil, or_false] at hb
    have hi := i.isLt
    rcases hb with (rfl | rfl | rfl | rfl | rfl) | ⟨j, _, rfl⟩ <;> simp only [Stmt.rank] <;> omega

section

variable {created} {s s' : System n} {i : Fin n} {stmt x : Stmt n} {todo : List (Stmt n)}

theorem Good.not_mem (h : Good created s) (htodo : s.todo = stmt :: todo)
    (hrank : x.rank ≤ stmt.rank) : x ∉ todo := by
  have hascending := h.ascending
  rw [htodo, List.pairwise_cons] at hascending
  exact fun hx ↦ Nat.not_lt.mpr hrank (hascending.1 x hx)

theorem Good.not_mem_iff (h : Good created s) (htodo : s.todo = stmt :: todo) :
    x ∉ todo ↔ x = stmt ∨ x ∉ s.todo := by
  rw [htodo, List.mem_cons]
  constructor
  · intro hx
    by_cases heq : x = stmt
    · exact Or.inl heq
    · exact Or.inr (not_or.mpr ⟨heq, hx⟩)
  · rintro (rfl | hx)
    · exact h.not_mem htodo le_rfl
    · exact (not_or.mp hx).2

theorem Good.not_mem_iff_of_ne (h : Good created s) (htodo : s.todo = stmt :: todo)
    (hne : x ≠ stmt) : x ∉ todo ↔ x ∉ s.todo := by rw [h.not_mem_iff htodo, or_iff_right hne]

theorem Good.ascending_tail (h : Good created s) (htodo : s.todo = stmt :: todo) :
    todo.Pairwise fun a b ↦ a.rank < b.rank := by
  have hascending := h.ascending
  rw [htodo] at hascending
  exact hascending.of_cons

theorem Good.initial (created : Fin n → Bool) : Good created (System.initial n) where
  ascending := ascending_program n
  handles i := by
    have hmem : Stmt.create i ∈ program n :=
      List.mem_append_left _ (List.mem_map_of_mem (List.mem_finRange i))
    exact (if_neg fun h ↦ h.2 hmem).symm
  workers i := by
    have hmem : Stmt.create i ∈ program n :=
      List.mem_append_left _ (List.mem_map_of_mem (List.mem_finRange i))
    exact iff_of_false Bool.false_ne_true fun h ↦ h.2 hmem
  waited h := by
    have hmem : Stmt.wait ∈ program n :=
      List.mem_append_right _ (List.mem_append_left _ List.mem_cons_self)
    exact absurd hmem h
  reported h := by
    rcases h with hmem | ⟨_, hmem⟩ <;> exact absurd hmem List.not_mem_nil
  closed i := by
    have hmem : Stmt.close i ∈ program n :=
      List.mem_append_right _ (List.mem_append_right _ (List.mem_map_of_mem (List.mem_finRange i)))
    exact (if_neg fun h ↦ h.2 hmem).symm

theorem Good.advance (h : Good created s) (htodo : s.todo = stmt :: todo)
    (hstmt : ∀ i, Stmt.create i ≠ stmt) {closed : List (Handle n)} {ticks : ℤ}
    {output : List (Line n)}
    (hwaited : Stmt.wait ∉ todo → (∃ i, created i = false) ∨ ∀ i, s.workers i = some .terminated)
    (hreported : System.Reported { s with output } → Stmt.wait ∉ todo)
    (hclosed : ∀ i, closed.count (.hProcess i)
      = if created i = true ∧ Stmt.close i ∉ todo then 1 else 0) :
    Good created { s with todo, closed, ticks, output } := by
  have hcreate (i : Fin n) : Stmt.create i ∉ todo ↔ Stmt.create i ∉ s.todo :=
    h.not_mem_iff_of_ne htodo (hstmt i)
  refine ⟨h.ascending_tail htodo, fun i ↦ ?_, fun i ↦ ?_, hwaited, hreported, hclosed⟩
  · simp only [hcreate]
    exact h.handles i
  · simp only [hcreate]
    exact h.workers i

theorem Good.count_closed (h : Good created s) (htodo : s.todo = stmt :: todo)
    (hstmt : ∀ i, Stmt.close i ≠ stmt) (i : Fin n) : s.closed.count (.hProcess i)
      = if created i = true ∧ Stmt.close i ∉ todo then 1 else 0 := by
  simp only [h.not_mem_iff_of_ne htodo (hstmt i)]
  exact h.closed i

theorem Good.quiet (h : Good created s) (htodo : s.todo = stmt :: todo)
    (hquiet : stmt.isQuiet = true) (ticks : ℤ) (output : List (Line n)) :
    Good created { s with todo, ticks, output } := by
  have hwait : Stmt.wait ∉ todo ↔ Stmt.wait ∉ s.todo :=
    h.not_mem_iff_of_ne htodo (by rintro rfl; cases hquiet)
  refine h.advance htodo (by rintro i rfl; cases hquiet) (fun hdone ↦ h.waited (hwait.mp hdone))
    (fun _ ↦ h.not_mem htodo ?_) (h.count_closed htodo (by rintro i rfl; cases hquiet))
  -- the quiet statements all come after the wait
  cases stmt with
  | stopClock => exact Nat.le_add_right n 1
  | printCompleted => exact Nat.le_add_right n 2
  | printDuration => exact Nat.le_add_right n 3
  | printRate => exact Nat.le_add_right n 4
  | create i => cases hquiet
  | wait => cases hquiet
  | close i => cases hquiet

theorem Good.setEntries (h : Good created s) (htodo : s.todo = .create i :: todo)
    {processHandles : Fin n → Option (Handle n)} {workers : Fin n → Option WorkerPhase}
    {closed : List (Handle n)} {output : List (Line n)}
    (hhandles : ∀ j, j ≠ i → processHandles j = s.processHandles j)
    (hhandle : processHandles i = if created i = true then some (.hProcess i) else none)
    (hworkers : ∀ j, j ≠ i → workers j = s.workers j)
    (hworker : (workers i).isSome = true ↔ created i = true)
    (hclosed : ∀ j, closed.count (.hProcess j) = s.closed.count (.hProcess j))
    (hcompleted : .completed ∈ output → .completed ∈ s.output)
    (hrate : ∀ ticks, .rate ticks ∈ output → .rate ticks ∈ s.output) :
    Good created { s with todo, processHandles, workers, closed, output } := by
  have hmem : Stmt.create i ∈ s.todo := htodo ▸ List.mem_cons_self
  have hothers {j : Fin n} (hne : j ≠ i) : Stmt.create j ∉ todo ↔ Stmt.create j ∉ s.todo :=
    h.not_mem_iff_of_ne htodo fun heq ↦ hne (Stmt.create.inj heq)
  have hdone : Stmt.create i ∉ todo := h.not_mem htodo le_rfl
  have hclose (j : Fin n) : Stmt.close j ∉ todo ↔ Stmt.close j ∉ s.todo :=
    h.not_mem_iff_of_ne htodo nofun
  have hwait : Stmt.wait ∉ todo ↔ Stmt.wait ∉ s.todo := h.not_mem_iff_of_ne htodo nofun
  refine ⟨h.ascending_tail htodo, fun j ↦ ?_, fun j ↦ ?_, fun hwaited ↦ Or.inl ?_,
    fun hreported ↦ ?_, fun j ↦ ?_⟩
  · change processHandles j = if created j = true ∧ Stmt.create j ∉ todo then _ else _
    rcases eq_or_ne j i with rfl | hne
    · simp only [hhandle, hdone, not_false_eq_true, and_true]
    · rw [hhandles j hne, h.handles j]
      simp only [hothers hne]
  · change (workers j).isSome = true ↔ created j = true ∧ Stmt.create j ∉ todo
    rcases eq_or_ne j i with rfl | hne
    · rw [hworker, and_iff_left hdone]
    · rw [hworkers j hne, h.workers j, hothers hne]
  · -- before its creation no worker has terminated
    refine (h.waited (hwait.mp hwaited)).resolve_right fun hall ↦ ?_
    have hsome : (s.workers i).isSome = true := by rw [hall i]; rfl
    exact ((h.workers i).mp hsome).2 hmem
  · refine hwait.mpr (h.reported ?_)
    exact hreported.imp hcompleted fun ⟨ticks, hmem⟩ ↦ ⟨ticks, hrate ticks hmem⟩
  · change closed.count (.hProcess j) = if created j = true ∧ Stmt.close j ∉ todo then 1 else 0
    rw [hclosed j, h.closed j]
    simp only [hclose]

theorem Good.create (h : Good created s) (htodo : s.todo = .create i :: todo) :
    Good created { s.create i (created i) with todo } := by
  rw [System.create]
  split_ifs with hcreated
  · refine h.setEntries htodo (fun j hne ↦ Function.update_of_ne hne ..) ?_
      (fun j hne ↦ Function.update_of_ne hne ..) ?_ (fun j ↦ ?_) id fun _ ↦ id
    · rw [if_pos hcreated]
      exact Function.update_self ..
    · refine iff_of_true ?_ hcreated
      exact Option.isSome_iff_exists.mpr ⟨.running, Function.update_self ..⟩
    · have hthread : [Handle.hThread i].count (.hProcess j) = 0 :=
        List.count_eq_zero.mpr fun hmem ↦ nomatch List.mem_singleton.mp hmem
      change (s.closed ++ [Handle.hThread i]).count (.hProcess j) = _
      rw [List.count_append, hthread, add_zero]
  · have hnone : s.workers i = none := by
      rw [← Option.not_isSome_iff_eq_none, h.workers i]
      exact fun hboth ↦ hcreated hboth.1
    refine h.setEntries htodo (fun j hne ↦ Function.update_of_ne hne ..) ?_ (fun _ _ ↦ rfl) ?_
      (fun _ ↦ rfl) (fun hmem ↦ ?_) fun ticks hmem ↦ ?_
    · rw [if_neg hcreated]
      exact Function.update_self ..
    · exact iff_of_false (by rw [hnone]; exact Bool.false_ne_true) hcreated
    · exact (List.mem_append.mp hmem).resolve_right fun heq ↦ nomatch List.mem_singleton.mp heq
    · exact (List.mem_append.mp hmem).resolve_right fun heq ↦ nomatch List.mem_singleton.mp heq

theorem Good.wait (h : Good created s) (htodo : s.todo = .wait :: todo)
    (hreturns : s.WaitReturns) : Good created { s with todo } := by
  have hdone (i : Fin n) : Stmt.create i ∉ s.todo := by
    have hnot : Stmt.create i ∉ todo := h.not_mem htodo i.isLt.le
    exact (h.not_mem_iff_of_ne (x := .create i) htodo nofun).mp hnot
  refine h.advance htodo nofun (fun _ ↦ ?_) (fun _ ↦ h.not_mem htodo le_rfl)
    (h.count_closed htodo nofun)
  rcases hreturns with ⟨i, hnull⟩ | hsignaled
  · -- only a failed creation leaves a NULL
    refine Or.inl ⟨i, Bool.eq_false_iff.mpr fun hcreated ↦ ?_⟩
    rw [h.handles i, if_pos ⟨hcreated, hdone i⟩] at hnull
    exact Option.some_ne_none _ hnull
  · by_cases hfailed : ∃ i, created i = false
    · exact Or.inl hfailed
    · refine Or.inr fun i ↦ hsignaled i (.hProcess i) ?_
      have hcreated : created i = true := by
        rw [← Bool.not_eq_false]
        exact not_exists.mp hfailed i
      rw [h.handles i, if_pos ⟨hcreated, hdone i⟩]

theorem Good.close (h : Good created s) (htodo : s.todo = .close i :: todo) :
    Good created { s.close i with todo } := by
  have hwait : Stmt.wait ∉ todo ↔ Stmt.wait ∉ s.todo := h.not_mem_iff_of_ne htodo nofun
  have hwaited (hdone : Stmt.wait ∉ todo) := h.waited (hwait.mp hdone)
  have hreported (hreport : s.Reported) := hwait.mpr (h.reported hreport)
  have hmem : Stmt.close i ∈ s.todo := htodo ▸ List.mem_cons_self
  have hdone : Stmt.close i ∉ todo := h.not_mem htodo le_rfl
  have hothers {j : Fin n} (hne : j ≠ i) : Stmt.close j ∉ todo ↔ Stmt.close j ∉ s.todo :=
    h.not_mem_iff_of_ne htodo fun heq ↦ hne (Stmt.close.inj heq)
  have hcreated : Stmt.create i ∉ s.todo := by
    have hrank : (Stmt.create i).rank ≤ (Stmt.close i).rank := Nat.le_add_left _ _
    exact (h.not_mem_iff_of_ne (x := .create i) htodo nofun).mp (h.not_mem htodo hrank)
  have hhandle := h.handles i
  rw [System.close]
  by_cases hstarted : created i = true
  · -- all creations are done, so the handle is there
    rw [if_pos ⟨hstarted, hcreated⟩] at hhandle
    simp only [hhandle]
    refine h.advance htodo nofun hwaited hreported fun j ↦ ?_
    rw [List.count_append, h.closed j]
    rcases eq_or_ne j i with rfl | hne
    · rw [if_neg fun hboth ↦ hboth.2 hmem, if_pos ⟨hstarted, hdone⟩, List.count_singleton_self]
    · have hother : [Handle.hProcess i].count (.hProcess j) = 0 :=
        List.count_eq_zero.mpr fun hin ↦ hne (Handle.hProcess.inj (List.mem_singleton.mp hin))
      rw [hother, add_zero]
      simp only [hothers hne]
  · rw [if_neg fun hboth ↦ hstarted hboth.1] at hhandle
    simp only [hhandle]
    refine h.advance htodo nofun hwaited hreported fun j ↦ ?_
    rw [h.closed j]
    rcases eq_or_ne j i with rfl | hne
    · rw [if_neg fun hboth ↦ hstarted hboth.1, if_neg fun hboth ↦ hstarted hboth.1]
    · simp only [hothers hne]

theorem Good.terminate (h : Good created s) (hi : s.workers i = some .running) :
    Good created { s with workers := Function.update s.workers i (some .terminated) } := by
  refine ⟨h.ascending, h.handles, fun j ↦ ?_, fun hwaited ↦ ?_, h.reported, h.closed⟩
  · rw [← h.workers j]
    change (Function.update s.workers i (some .terminated) j).isSome = true ↔ _
    rcases eq_or_ne j i with rfl | hne
    · rw [Function.update_self, hi]
      exact Iff.rfl
    · rw [Function.update_of_ne hne]
  · refine (h.waited hwaited).imp_right fun hall j ↦ ?_
    change Function.update s.workers i (some .terminated) j = _
    rcases eq_or_ne j i with rfl | hne
    · exact Function.update_self ..
    · rw [Function.update_of_ne hne, hall j]

/-- **What every step preserves.** -/
theorem Good.step (h : Good created s) (hstep : Step created s s') : Good created s' := by
  cases hstep with
  | create htodo => exact h.create htodo
  | wait htodo hreturns => exact h.wait htodo hreturns
  | stopClock ticks htodo => exact h.quiet htodo rfl ticks s.output
  | printCompleted htodo => exact h.quiet htodo rfl s.ticks _
  | printDuration htodo => exact h.quiet htodo rfl s.ticks _
  | printRate htodo =>
    rw [System.printRate]
    split_ifs
    · exact h.quiet htodo rfl s.ticks _
    · exact h.quiet htodo rfl s.ticks s.output
  | close htodo => exact h.close htodo
  | terminate hi => exact h.terminate hi

theorem Good.of_reaches (h : Reaches created s) : Good created s := by
  induction h with
  | refl => exact Good.initial created
  | tail _ hstep ih => exact ih.step hstep

end

/-! ## Runs -/

def workerStepsLeft : Option WorkerPhase → ℕ
  | none | some .running => 1
  | some .terminated => 0

def stepsLeft (s : System n) : ℕ := s.todo.length + ∑ i, workerStepsLeft (s.workers i)

section

variable {created} {s s' : System n} {i : Fin n} {todo : List (Stmt n)}

theorem sum_create (s : System n) (i : Fin n) (hi : s.workers i = none) (b : Bool) :
    ∑ j, workerStepsLeft ((s.create i b).workers j) = ∑ j, workerStepsLeft (s.workers j) := by
  rw [System.create]
  split_ifs
  · have hsum := sum_update_add (fun _ ↦ workerStepsLeft) s.workers i (some .running)
    rw [hi] at hsum
    exact Nat.add_right_cancel hsum
  · rfl

theorem Good.stepsLeft_lt (h : Good created s) (hstep : Step created s s') :
    stepsLeft s' < stepsLeft s := by
  have hless {todo : List (Stmt n)} {stmt : Stmt n} (htodo : s.todo = stmt :: todo) :
      todo.length + ∑ i, workerStepsLeft (s.workers i) < stepsLeft s := by
    rw [stepsLeft, htodo, List.length_cons]
    exact Nat.add_lt_add_right (Nat.lt_succ_self _) _
  cases hstep with
  | @create i todo htodo =>
    have hnone : s.workers i = none := by
      rw [← Option.not_isSome_iff_eq_none, h.workers i]
      exact fun hboth ↦ hboth.2 (htodo ▸ List.mem_cons_self)
    change todo.length + ∑ j, workerStepsLeft ((s.create i (created i)).workers j) < stepsLeft s
    rw [sum_create s i hnone]
    exact hless htodo
  | wait htodo hreturns => exact hless htodo
  | stopClock ticks htodo => exact hless htodo
  | printCompleted htodo => exact hless htodo
  | printDuration htodo => exact hless htodo
  | @printRate todo htodo =>
    have hworkers : s.printRate.workers = s.workers := by
      rw [System.printRate]
      split_ifs <;> rfl
    change todo.length + ∑ j, workerStepsLeft (s.printRate.workers j) < stepsLeft s
    rw [hworkers]
    exact hless htodo
  | @close i todo htodo =>
    have hworkers : (s.close i).workers = s.workers := by
      rw [System.close]
      cases s.processHandles i <;> rfl
    change todo.length + ∑ j, workerStepsLeft ((s.close i).workers j) < stepsLeft s
    rw [hworkers]
    exact hless htodo
  | @terminate i hi =>
    have hsum := sum_update_add (fun _ ↦ workerStepsLeft) s.workers i (some .terminated)
    rw [hi] at hsum
    change s.todo.length + ∑ j, workerStepsLeft (Function.update s.workers i _ j) < stepsLeft s
    rw [stepsLeft]
    change _ + 1 = _ + 0 at hsum
    omega

/-- **No deadlock**: until the master returns, something can happen. -/
theorem Good.exists_step (h : Good created s) (hunfinished : s.todo ≠ []) :
    ∃ s', Step created s s' := by
  obtain ⟨stmt, todo, htodo⟩ := List.exists_cons_of_ne_nil hunfinished
  cases stmt with
  | create i => exact ⟨_, Step.create htodo⟩
  | wait =>
    by_cases hreturns : s.WaitReturns
    · exact ⟨_, Step.wait htodo hreturns⟩
    · -- the wait is for a worker that has not terminated
      obtain ⟨i, handle, hhandle, hi⟩ : ∃ i handle, s.processHandles i = some handle ∧
          ¬s.Signaled handle := by
        simpa only [not_forall, exists_prop] using (not_or.mp hreturns).2
      rw [h.handles i] at hhandle
      split_ifs at hhandle with hboth
      obtain rfl := Option.some.inj hhandle
      obtain ⟨phase, hphase⟩ := Option.isSome_iff_exists.mp ((h.workers i).mpr hboth)
      cases phase with
      | running => exact ⟨_, Step.terminate hphase⟩
      | terminated => exact absurd hphase hi
  | stopClock => exact ⟨_, Step.stopClock 0 htodo⟩
  | printCompleted => exact ⟨_, Step.printCompleted htodo⟩
  | printDuration => exact ⟨_, Step.printDuration htodo⟩
  | printRate => exact ⟨_, Step.printRate htodo⟩
  | close i => exact ⟨_, Step.close htodo⟩

variable (created) in
/-- **The master can always return.** -/
theorem exists_returned : ∃ s, Reaches created s ∧ s.todo = [] :=
  exists_reaches_final stepsLeft (fun _ _ hstep hs ↦ hs.step hstep)
    (fun _ _ hstep hs ↦ hs.stepsLeft_lt hstep) (fun _ hs hunfinished ↦ hs.exists_step hunfinished)
    (Good.initial created)

/-- **The handles are closed once**, whatever was created and in whatever order the workers
terminate. -/
theorem count_closed_of_returned (h : Reaches created s) (hreturned : s.todo = []) (i : Fin n) :
    s.closed.count (.hProcess i) = if created i = true then 1 else 0 := by
  rw [(Good.of_reaches h).closed i, hreturned]
  simp only [List.not_mem_nil, not_false_eq_true, and_true]

theorem exists_all_created {is : List (Fin n)} (htodo : s.todo = is.map .create ++ todo)
    (hnone : ∀ i, s.workers i ≠ some .terminated) :
    ∃ t, Relation.ReflTransGen (Step created) s t ∧ t.todo = todo ∧
      ∀ i, t.workers i ≠ some .terminated := by
  induction is generalizing s with
  | nil => exact ⟨s, Relation.ReflTransGen.refl, htodo, hnone⟩
  | cons i is ih =>
    have hstep : Step created s { s.create i (created i) with todo := is.map .create ++ todo } :=
      Step.create htodo
    have hnone' (j : Fin n) : (s.create i (created i)).workers j ≠ some .terminated := by
      rw [System.create]
      split_ifs
      · change Function.update s.workers i (some .running) j ≠ some .terminated
        rcases eq_or_ne j i with rfl | hne
        · rw [Function.update_self]
          exact fun heq ↦ nomatch heq
        · rw [Function.update_of_ne hne]
          exact hnone j
      · exact hnone j
    obtain ⟨t, hreach, ht, hnone⟩ :=
      ih (s := { s.create i (created i) with todo := is.map .create ++ todo }) rfl hnone'
    exact ⟨t, Relation.ReflTransGen.head hstep hreach, ht, hnone⟩

theorem exists_reported_early {j : Fin n} (hi : created i = true) (hj : created j = false) :
    ∃ s, Reaches created s ∧ s.Reported ∧ s.workers i = some .running := by
  have hprogram : (System.initial n).todo = (List.finRange n).map .create ++
      ([.wait, .stopClock, .printCompleted, .printDuration, .printRate] ++
        (List.finRange n).map .close) := rfl
  -- all creations, and nobody has terminated
  obtain ⟨s, hreach, htodo, hnone⟩ := exists_all_created hprogram fun i ↦
    (Option.some_ne_none _).symm
  have hgood := Good.of_reaches hreach
  have hdone (k : Fin n) : Stmt.create k ∉ s.todo := by
    rw [htodo]
    simp
  have hrunning : s.workers i = some .running := by
    obtain ⟨phase, hphase⟩ := Option.isSome_iff_exists.mp ((hgood.workers i).mpr ⟨hi, hdone i⟩)
    cases phase with
    | running => exact hphase
    | terminated => exact absurd hphase (hnone i)
  -- the NULL of worker `j` makes the wait fail
  have hreturns : s.WaitReturns := by
    refine Or.inl ⟨j, ?_⟩
    rw [hgood.handles j, if_neg fun hboth ↦ ?_]
    exact absurd (hj ▸ hboth.1) Bool.false_ne_true
  have hreach := hreach.tail (Step.wait htodo hreturns)
  have hreach := hreach.tail (Step.stopClock 0 rfl)
  have hreach := hreach.tail (Step.printCompleted rfl)
  exact ⟨_, hreach, Or.inl (List.mem_append_right _ List.mem_cons_self), hrunning⟩

theorem not_running_of_reported (h : (∀ i, created i = true) ∨ ∀ i, created i = false)
    (hreach : Reaches created s) (hreported : s.Reported) (i : Fin n) :
    s.workers i ≠ some .running := by
  have hgood := Good.of_reaches hreach
  intro hrunning
  have hcreated := ((hgood.workers i).mp (by rw [hrunning]; rfl)).1
  rcases h with hall | hnone
  · rcases hgood.waited (hgood.reported hreported) with ⟨j, hj⟩ | hterminated
    · exact absurd (hj ▸ hall j) Bool.false_ne_true
    · cases hrunning.symm.trans (hterminated i)
  · exact absurd (hnone i ▸ hcreated) Bool.false_ne_true

theorem reportsAtEnd_iff_uniform :
    ReportsAtEnd created ↔ (∀ i, created i = true) ∨ ∀ i, created i = false := by
  constructor
  · intro h
    by_contra hmixed
    rw [not_or, not_forall, not_forall] at hmixed
    obtain ⟨⟨j, hj⟩, i, hi⟩ := hmixed
    obtain ⟨s, hreach, hreported, hrunning⟩ := exists_reported_early
      (Bool.eq_true_of_not_eq_false hi) (Bool.eq_false_of_not_eq_true hj)
    exact h.ended s hreach hreported i hrunning
  · exact fun h ↦ ⟨fun s ↦ not_running_of_reported h, fun s ↦ count_closed_of_returned⟩

end

/-- **When the master reports in time.** The completion message and the rate are printed only after
every created worker has terminated, and its handle is closed once, in all runs exactly if all
sixteen creations succeed or none does. -/
theorem reportsAtEnd_iff (created : Fin processCount → Bool) :
    ReportsAtEnd created ↔ (∀ i, created i = true) ∨ ∀ i, created i = false :=
  reportsAtEnd_iff_uniform

/-- **The first creation fails**, and the master does not wait for the other fifteen workers. -/
theorem firstFailed_reports_early : ¬∀ created : Fin processCount → Bool, ReportsAtEnd created := by
  intro h
  have hfirst := h fun i ↦ decide (i.val ≠ 0)
  rw [reportsAtEnd_iff_uniform] at hfirst
  rcases hfirst with hall | hnone
  · exact absurd (hall ⟨0, by decide⟩) (by decide)
  · exact absurd (hnone ⟨1, by decide⟩) (by decide)

end NatGhost.Master
