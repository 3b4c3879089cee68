import Mathlib.Data.Finset.Card
import Mathlib.Data.Fintype.Defs
import Mathlib.Data.List.Basic
import Mathlib.Logic.Function.Basic
import Mathlib.Logic.Relation

/-!
# Programs that start activities and wait for them

The statements a program has still to run are a list of `start`, `join` and other calls.
`wellForked` says that it starts no activity twice and waits only for those it has started. Together
with the fact that an activity not joined any more is done this is `OnCourse`, which every statement
preserves. So the program never blocks for good: where the next statement is a `join`, the activity
it waits for is there and can go on itself. And when no statement is left, all activities are done.

How many activities run at once depends on the statements too: `forksWithin` follows those that are
started and not joined yet. A program that starts a batch and joins it before the next one keeps
within the size of its batches (`forksWithin_batches`).

A system of such programs comes to its end whatever the scheduling, if some natural number goes down
with each step and whoever is waited for can move (`exists_reaches_final`, `not_exists_endless`).
-/

namespace NatGhost

/-- A statement of a program that starts activities `ι`; `call` is any other statement. -/
inductive ForkStmt (ι κ : Type)
  | start (i : ι)
  | join (i : ι)
  | call (c : κ)
deriving DecidableEq

section

variable {ι κ : Type} [DecidableEq ι]

/-- With the activities `started` running, the statements start none of them again and join none
before its start. -/
def wellForked : (ι → Bool) → List (ForkStmt ι κ) → Bool
  | _, [] => true
  | started, .start i :: todo => !started i && wellForked (Function.update started i true) todo
  | started, .join i :: todo => started i && wellForked started todo
  | started, .call _ :: todo => wellForked started todo

theorem wellForked_starts {is : List ι} {todo : List (ForkStmt ι κ)} {started : ι → Bool}
    (hnodup : is.Nodup) (hfresh : ∀ i ∈ is, started i = false)
    (hrest : wellForked (fun i ↦ started i || decide (i ∈ is)) todo = true) :
    wellForked started (is.map .start ++ todo) = true := by
  induction is generalizing started with
  | nil =>
    have hsame : (fun i ↦ started i || decide (i ∈ ([] : List ι))) = started := by
      funext i
      rw [decide_eq_false List.not_mem_nil, Bool.or_false]
    rwa [hsame] at hrest
  | cons j is ih =>
    obtain ⟨hj, hnodup⟩ := List.nodup_cons.mp hnodup
    obtain ⟨hfreshj, hfresh⟩ := List.forall_mem_cons.mp hfresh
    rw [List.map_cons, List.cons_append, wellForked, hfreshj, Bool.not_false, Bool.true_and]
    refine ih hnodup (fun i hi ↦ ?_) ?_
    · have hne : i ≠ j := fun heq ↦ hj (heq ▸ hi)
      rw [Function.update_of_ne hne, hfresh i hi]
    · have hsame : (fun i ↦ Function.update started j true i || decide (i ∈ is))
          = fun i ↦ started i || decide (i ∈ j :: is) := by
        funext i
        rcases eq_or_ne i j with rfl | hne
        · rw [Function.update_self, Bool.true_or, decide_eq_true List.mem_cons_self, Bool.or_true]
        · rw [Function.update_of_ne hne]
          simp only [List.mem_cons, hne, false_or]
      rwa [hsame]

theorem wellForked_joins {is : List ι} {todo : List (ForkStmt ι κ)} {started : ι → Bool}
    (hstarted : ∀ i ∈ is, started i = true) (hrest : wellForked started todo = true) :
    wellForked started (is.map .join ++ todo) = true := by
  induction is with
  | nil => exact hrest
  | cons j is ih =>
    obtain ⟨hj, hstarted⟩ := List.forall_mem_cons.mp hstarted
    rw [List.map_cons, List.cons_append, wellForked, hj, Bool.true_and]
    exact ih hstarted

/-- Some activities are started, some done, and the statements `todo` are left. -/
structure OnCourse (started done : ι → Bool) (todo : List (ForkStmt ι κ)) : Prop where
  forked : wellForked started todo = true
  joined : ∀ i, ForkStmt.join i ∈ todo ∨ done i = true

namespace OnCourse

variable {started done done' : ι → Bool} {i : ι} {c : κ} {stmt : ForkStmt ι κ}
    {todo : List (ForkStmt ι κ)}

theorem mono (h : OnCourse started done todo) (hdone : ∀ j, done j = true → done' j = true) :
    OnCourse started done' todo := ⟨h.forked, fun j ↦ (h.joined j).imp_right (hdone j)⟩

theorem joined_of_cons (h : OnCourse started done (stmt :: todo))
    (hdone : ∀ j, stmt = .join j → done j = true) (j : ι) :
    ForkStmt.join j ∈ todo ∨ done j = true := by
  rcases h.joined j with hmem | hj
  · rcases List.mem_cons.mp hmem with heq | hmem
    · exact Or.inr (hdone j heq.symm)
    · exact Or.inl hmem
  · exact Or.inr hj

theorem started_eq_false (h : OnCourse started done (.start i :: todo)) : started i = false := by
  have hforked := h.forked
  rw [wellForked, Bool.and_eq_true, Bool.not_eq_true'] at hforked
  exact hforked.1

theorem start (h : OnCourse started done (.start i :: todo)) :
    OnCourse (Function.update started i true) done todo := by
  have hforked := h.forked
  rw [wellForked, Bool.and_eq_true] at hforked
  exact ⟨hforked.2, h.joined_of_cons nofun⟩

theorem started_eq_true (h : OnCourse started done (.join i :: todo)) : started i = true := by
  have hforked := h.forked
  rw [wellForked, Bool.and_eq_true] at hforked
  exact hforked.1

theorem join (h : OnCourse started done (.join i :: todo)) (hdone : done i = true) :
    OnCourse started done todo := by
  have hforked := h.forked
  rw [wellForked, Bool.and_eq_true] at hforked
  refine ⟨hforked.2, h.joined_of_cons fun j heq ↦ ?_⟩
  obtain rfl := ForkStmt.join.inj heq
  exact hdone

theorem call (h : OnCourse started done (.call c :: todo)) : OnCourse started done todo :=
  ⟨h.forked, h.joined_of_cons nofun⟩

theorem done_eq_true (h : OnCourse (κ := κ) started done []) (i : ι) : done i = true :=
  (h.joined i).resolve_left List.not_mem_nil

end OnCourse

/-! ## Batches -/

/-- Activities that are started one after the other and then joined. -/
def forkBatch (is : List ι) : List (ForkStmt ι κ) := is.map .start ++ is.map .join

def ForkStmt.starts? : ForkStmt ι κ → Option ι
  | .start i => some i
  | _ => none

omit [DecidableEq ι] in
theorem filterMap_forkBatch (is : List ι) :
    (forkBatch (κ := κ) is).filterMap ForkStmt.starts? = is := by
  have hstart : (is.map (ForkStmt.start (κ := κ))).filterMap ForkStmt.starts? = is := by
    rw [List.filterMap_map]
    exact List.filterMap_some
  have hjoin : (is.map (ForkStmt.join (κ := κ))).filterMap ForkStmt.starts? = [] := by
    rw [List.filterMap_map, List.filterMap_eq_nil_iff]
    exact fun _ _ ↦ rfl
  rw [forkBatch, List.filterMap_append, hstart, hjoin, List.append_nil]

omit [DecidableEq ι] in
theorem filterMap_batches (batches : List (List ι)) :
    (batches.flatMap (forkBatch (κ := κ))).filterMap ForkStmt.starts? = batches.flatten := by
  induction batches with
  | nil => rfl
  | cons is batches ih =>
    rw [List.flatMap_cons, List.filterMap_append, filterMap_forkBatch, ih, List.flatten_cons]

theorem wellForked_batches {batches : List (List ι)} {started : ι → Bool}
    (hnodup : batches.flatten.Nodup) (hfresh : ∀ i ∈ batches.flatten, started i = false) :
    wellForked started (batches.flatMap (forkBatch (κ := κ))) = true := by
  induction batches generalizing started with
  | nil => rfl
  | cons is batches ih =>
    rw [List.flatten_cons, List.nodup_append'] at hnodup
    obtain ⟨hnodup, hrest, hdisjoint⟩ := hnodup
    rw [List.flatten_cons] at hfresh
    rw [List.flatMap_cons, forkBatch, List.append_assoc]
    refine wellForked_starts hnodup (fun i hi ↦ hfresh i (List.mem_append_left _ hi))
      (wellForked_joins (fun i hi ↦ ?_) (ih hrest fun i hi ↦ ?_))
    · rw [decide_eq_true hi, Bool.or_true]
    · rw [hfresh i (List.mem_append_right _ hi), Bool.false_or, decide_eq_false_iff_not]
      exact fun hmem ↦ hdisjoint hmem hi

/-- With the activities `unjoined` started and not joined, the statements never have more than
`limit` of them. -/
def forksWithin (limit : ℕ) : Finset ι → List (ForkStmt ι κ) → Bool
  | _, [] => true
  | unjoined, .start i :: todo =>
    decide ((insert i unjoined).card ≤ limit) && forksWithin limit (insert i unjoined) todo
  | unjoined, .join i :: todo => forksWithin limit (unjoined.erase i) todo
  | unjoined, .call _ :: todo => forksWithin limit unjoined todo

variable {limit : ℕ} {unjoined : Finset ι} {todo : List (ForkStmt ι κ)}

theorem forksWithin_starts {is : List ι} (hcard : (unjoined ∪ is.toFinset).card ≤ limit)
    (hrest : forksWithin limit (unjoined ∪ is.toFinset) todo = true) :
    forksWithin limit unjoined (is.map .start ++ todo) = true := by
  induction is generalizing unjoined with
  | nil => rwa [List.toFinset_nil, Finset.union_empty] at hrest
  | cons i is ih =>
    have hinsert : unjoined ∪ (i :: is).toFinset = insert i unjoined ∪ is.toFinset := by
      rw [List.toFinset_cons, Finset.union_insert, Finset.insert_union]
    rw [hinsert] at hcard hrest
    have hle : (insert i unjoined).card ≤ limit :=
      (Finset.card_le_card Finset.subset_union_left).trans hcard
    rw [List.map_cons, List.cons_append, forksWithin, decide_eq_true hle, Bool.true_and]
    exact ih hcard hrest

theorem forksWithin_joins {is : List ι}
    (hrest : forksWithin limit (unjoined \ is.toFinset) todo = true) :
    forksWithin limit unjoined (is.map .join ++ todo) = true := by
  induction is generalizing unjoined with
  | nil => rwa [List.toFinset_nil, Finset.sdiff_empty] at hrest
  | cons i is ih =>
    rw [List.toFinset_cons, Finset.sdiff_insert, ← Finset.erase_sdiff_comm] at hrest
    exact ih hrest

theorem forksWithin_batches {batches : List (List ι)} (h : ∀ is ∈ batches, is.length ≤ limit) :
    forksWithin limit ∅ (batches.flatMap (forkBatch (κ := κ))) = true := by
  induction batches with
  | nil => rfl
  | cons is batches ih =>
    obtain ⟨hlength, hrest⟩ := List.forall_mem_cons.mp h
    rw [List.flatMap_cons, forkBatch, List.append_assoc]
    refine forksWithin_starts ?_ (forksWithin_joins ?_)
    · rw [Finset.empty_union]
      exact (List.toFinset_card_le is).trans hlength
    · rw [Finset.empty_union, sdiff_self]
      exact ih hrest

/-- The running activities are among at most `limit` that are started and not joined, and the
statements keep it so. -/
def RunsWithin (limit : ℕ) (running : ι → Bool) (todo : List (ForkStmt ι κ)) : Prop :=
  ∃ unjoined : Finset ι, unjoined.card ≤ limit ∧ forksWithin limit unjoined todo = true ∧
    ∀ i, running i = true → i ∈ unjoined

namespace RunsWithin

variable {running running' : ι → Bool} {i : ι}

theorem mono (h : RunsWithin limit running todo)
    (hrunning : ∀ j, running' j = true → running j = true) : RunsWithin limit running' todo := by
  obtain ⟨unjoined, hcard, hwithin, hmem⟩ := h
  exact ⟨unjoined, hcard, hwithin, fun j hj ↦ hmem j (hrunning j hj)⟩

theorem start (h : RunsWithin limit running (.start i :: todo)) :
    RunsWithin limit (Function.update running i true) todo := by
  obtain ⟨unjoined, hcard, hwithin, hmem⟩ := h
  rw [forksWithin, Bool.and_eq_true, decide_eq_true_iff] at hwithin
  refine ⟨insert i unjoined, hwithin.1, hwithin.2, fun j hj ↦ ?_⟩
  rcases eq_or_ne j i with rfl | hne
  · exact Finset.mem_insert_self j unjoined
  · rw [Function.update_of_ne hne] at hj
    exact Finset.mem_insert_of_mem (hmem j hj)

theorem join (h : RunsWithin limit running (.join i :: todo)) (hdone : running i = false) :
    RunsWithin limit running todo := by
  obtain ⟨unjoined, hcard, hwithin, hmem⟩ := h
  rw [forksWithin] at hwithin
  refine ⟨unjoined.erase i, Finset.card_erase_le.trans hcard, hwithin, fun j hj ↦ ?_⟩
  have hne : j ≠ i := by
    rintro rfl
    exact absurd hj (by rw [hdone]; exact Bool.false_ne_true)
  exact Finset.mem_erase_of_ne_of_mem hne (hmem j hj)

end RunsWithin

end

/-- **A system that can always move and has only so many steps to make reaches a final state.** -/
theorem exists_reaches_final {σ : Type*} {step : σ → σ → Prop} {I final : σ → Prop}
    (variant : σ → ℕ) (hI : ∀ s t, step s t → I s → I t)
    (hvariant : ∀ s t, step s t → I s → variant t < variant s)
    (hprogress : ∀ s, I s → ¬final s → ∃ t, step s t) {s : σ} (hs : I s) :
    ∃ t, Relation.ReflTransGen step s t ∧ final t := by
  induction s using (measure variant).wf.induction with
  | _ s ih =>
    by_cases hfinal : final s
    · exact ⟨s, Relation.ReflTransGen.refl, hfinal⟩
    · obtain ⟨t, hstep⟩ := hprogress s hs hfinal
      obtain ⟨u, hreach, hu⟩ := ih t (hvariant s t hstep hs) (hI s t hstep hs)
      exact ⟨u, Relation.ReflTransGen.head hstep hreach, hu⟩

/-- **No run of such a system is endless.** -/
theorem not_exists_endless {σ : Type*} {step : σ → σ → Prop} {I : σ → Prop} (variant : σ → ℕ)
    (hI : ∀ s t, step s t → I s → I t) (hvariant : ∀ s t, step s t → I s → variant t < variant s)
    {s : σ} (hs : I s) : ¬∃ run : ℕ → σ, run 0 = s ∧ ∀ k, step (run k) (run (k + 1)) := by
  rintro ⟨run, rfl, hrun⟩
  have hinv (k : ℕ) : I (run k) := by
    induction k with
    | zero => exact hs
    | succ k ih => exact hI _ _ (hrun k) ih
  have hless (k : ℕ) : variant (run k) + k ≤ variant (run 0) := by
    induction k with
    | zero => exact le_rfl
    | succ k ih =>
      have := hvariant _ _ (hrun k) (hinv k)
      omega
  have := hless (variant (run 0) + 1)
  omega

end NatGhost
