import Mathlib.Algebra.BigOperators.Group.Finset.Basic
import Mathlib.Algebra.Order.BigOperators.Group.Finset

/-!
# Interleavings of threads that share nothing

Threads number `ι` with local states `σ`. A thread in state `a` is finished if `next a` is `none`;
otherwise its next step emits some outputs and leads to another state. `Interleaved next s log s'`
says that some scheduling takes the threads from the states `s` to the states `s'` and that the
outputs, each with the thread it comes from, appear in the order `log`.

A thread's outputs in an interleaving are what it would emit on its own. To say this without running
it alone, one gives a function `future` with what a state will still emit; it is enough that each
step takes its outputs off the front (`Interleaved.proj_append_future`).
-/

namespace NatGhost

variable {ι σ α β : Type*} [DecidableEq ι] (next : σ → Option (List α × σ))

theorem sum_update_add {M : Type*} [Fintype ι] [AddCommMonoid M] (f : ι → σ → M) (s : ι → σ) (i : ι)
    (t : σ) : ∑ j, f j (Function.update s i t j) + f i (s i) = ∑ j, f j (s j) + f i t := by
  have hothers : ∑ j ∈ Finset.univ.erase i, f j (Function.update s i t j) =
      ∑ j ∈ Finset.univ.erase i, f j (s j) :=
    Finset.sum_congr rfl fun j hj ↦ by rw [Function.update_of_ne (Finset.ne_of_mem_erase hj)]
  rw [← Finset.add_sum_erase _ _ (Finset.mem_univ i), ← Finset.add_sum_erase _ (fun j ↦ f j (s j))
    (Finset.mem_univ i), hothers, Function.update_self, add_right_comm, add_comm (f i t),
      add_right_comm]

/-- Some scheduling of the threads, with its outputs in order. -/
inductive Interleaved : (ι → σ) → List (ι × α) → (ι → σ) → Prop
  | nil (s : ι → σ) : Interleaved s [] s
  | step {s s' : ι → σ} {log : List (ι × α)} (i : ι) {out : List α} {t : σ}
      (hnext : next (s i) = some (out, t)) (hrest : Interleaved (Function.update s i t) log s') :
      Interleaved s (out.map (Prod.mk i) ++ log) s'

def Joined (s : ι → σ) : Prop := ∀ i, next (s i) = none

def proj (i : ι) (log : List (ι × α)) : List α :=
  log.filterMap fun e ↦ if e.1 = i then some e.2 else none

theorem proj_cons (i : ι) (e : ι × α) (log : List (ι × α)) :
    proj i (e :: log) = if e.1 = i then e.2 :: proj i log else proj i log := by
  rw [proj, List.filterMap_cons]
  split_ifs <;> rfl

theorem proj_append (i : ι) (log log' : List (ι × α)) :
    proj i (log ++ log') = proj i log ++ proj i log' := List.filterMap_append

theorem proj_map_self (i : ι) (out : List α) : proj i (out.map (Prod.mk i)) = out := by
  rw [proj, List.filterMap_map]
  refine (List.filterMap_congr fun a _ ↦ ?_).trans List.filterMap_some
  exact if_pos rfl

theorem proj_map_of_ne {i j : ι} (h : j ≠ i) (out : List α) :
    proj i (out.map (Prod.mk j)) = [] := by
  rw [proj, List.filterMap_map, List.filterMap_eq_nil_iff]
  intro a _
  exact if_neg h

theorem mem_proj {i : ι} {a : α} {log : List (ι × α)} : a ∈ proj i log ↔ (i, a) ∈ log := by
  rw [proj, List.mem_filterMap]
  constructor
  · rintro ⟨⟨j, b⟩, hmem, heq⟩
    split_ifs at heq with hj
    obtain rfl := Option.some.inj heq
    obtain rfl : j = i := hj
    exact hmem
  · intro hmem
    exact ⟨(i, a), hmem, if_pos rfl⟩

theorem proj_sublist (i : ι) (log : List (ι × α)) : (proj i log).Sublist (log.map Prod.snd) := by
  induction log with
  | nil => exact List.Sublist.slnil
  | cons e log ih =>
    rw [proj_cons, List.map_cons]
    split_ifs
    · exact ih.cons_cons e.2
    · exact ih.cons e.2

theorem count_map_snd [DecidableEq β] {i : ι} {b : β} {f : α → β} {log : List (ι × α)}
    (h : ∀ e ∈ log, f e.2 = b → e.1 = i) :
    (log.map fun e ↦ f e.2).count b = ((proj i log).map f).count b := by
  induction log with
  | nil => rfl
  | cons e log ih =>
    have hrest := ih fun d hd ↦ h d (List.mem_cons_of_mem e hd)
    rw [List.map_cons, List.count_cons, hrest, proj_cons]
    by_cases he : e.1 = i
    · rw [if_pos he, List.map_cons, List.count_cons]
    · have hne : f e.2 ≠ b := fun heq ↦ he (h e List.mem_cons_self heq)
      rw [if_neg he, beq_false_of_ne hne]
      rfl

theorem filter_map_snd {p : α → Bool} {i : ι} {log : List (ι × α)}
    (h : ∀ e ∈ log, p e.2 = decide (e.1 = i)) : (log.map Prod.snd).filter p = proj i log := by
  induction log with
  | nil => rfl
  | cons e log ih =>
    have hrest := ih fun d hd ↦ h d (List.mem_cons_of_mem e hd)
    rw [List.map_cons, List.filter_cons, proj_cons, hrest, h e List.mem_cons_self]
    simp only [decide_eq_true_eq]

/-- **All outputs are those of the threads**, in some order. -/
theorem map_snd_perm {is : List ι} (hnodup : is.Nodup) (hall : ∀ i, i ∈ is)
    (log : List (ι × α)) : (log.map Prod.snd).Perm (is.flatMap fun i ↦ proj i log) := by
  induction log with
  | nil =>
    have hnil : (is.flatMap fun i ↦ proj i ([] : List (ι × α))) = [] :=
      List.flatMap_eq_nil_iff.mpr fun _ _ ↦ rfl
    rw [hnil]
    exact List.Perm.nil
  | cons e log ih =>
    obtain ⟨before, behind, rfl⟩ := List.append_of_mem (hall e.1)
    have hother (js : List ι) (hjs : e.1 ∉ js) :
        (js.flatMap fun i ↦ proj i (e :: log)) = js.flatMap fun i ↦ proj i log := by
      refine List.flatMap_congr fun j hj ↦ ?_
      have hne : e.1 ≠ j := fun heq ↦ hjs (heq ▸ hj)
      rw [proj_cons, if_neg hne]
    obtain ⟨hbefore, hbehind⟩ : e.1 ∉ before ∧ e.1 ∉ behind := by
      have hmiddle := (List.nodup_middle.mp hnodup).notMem
      rwa [List.mem_append, not_or] at hmiddle
    rw [List.flatMap_append, List.flatMap_cons] at ih ⊢
    rw [hother before hbefore, hother behind hbehind, proj_cons, if_pos rfl, List.map_cons,
      List.cons_append]
    exact (ih.cons e.2).trans List.perm_middle.symm

section

variable {next} {s s' : ι → σ} {log : List (ι × α)}

/-- **A thread emits what it would emit alone**, up to any point of any interleaving. -/
theorem Interleaved.proj_append_future (future : σ → List α)
    (hfuture : ∀ a out t, next a = some (out, t) → future a = out ++ future t)
    (h : Interleaved next s log s') (i : ι) : proj i log ++ future (s' i) = future (s i) := by
  induction h with
  | nil s => rfl
  | @step s s' log j out t hnext hrest ih =>
    rw [proj_append, List.append_assoc, ih]
    rcases eq_or_ne j i with rfl | hne
    · rw [proj_map_self, Function.update_self, hfuture _ _ _ hnext]
    · rw [proj_map_of_ne hne, List.nil_append, Function.update_of_ne hne.symm]

theorem Interleaved.proj_eq_future (future : σ → List α)
    (hfuture : ∀ a out t, next a = some (out, t) → future a = out ++ future t)
    (hdone : ∀ a, next a = none → future a = []) (h : Interleaved next s log s')
    (hjoined : Joined next s') (i : ι) : proj i log = future (s i) := by
  have hproj := h.proj_append_future future hfuture i
  rwa [hdone _ (hjoined i), List.append_nil] at hproj

variable (next) in
/-- **Some scheduling joins all threads**, if no thread can go on forever. -/
theorem exists_joined [Fintype ι] (variant : σ → ℕ)
    (hvariant : ∀ a out t, next a = some (out, t) → variant t < variant a) (s : ι → σ) :
    ∃ log s', Interleaved next s log s' ∧ Joined next s' := by
  induction hn : ∑ i, variant (s i) using Nat.strong_induction_on generalizing s with
  | _ n ih =>
    by_cases hjoined : Joined next s
    · exact ⟨[], s, Interleaved.nil s, hjoined⟩
    · obtain ⟨i, hi⟩ := not_forall.mp hjoined
      obtain ⟨⟨out, t⟩, hnext⟩ := Option.ne_none_iff_exists'.mp hi
      have hsum := sum_update_add (fun _ ↦ variant) s i t
      have hlt : ∑ j, variant (Function.update s i t j) < ∑ j, variant (s j) := by
        have := hvariant _ _ _ hnext
        omega
      obtain ⟨log, s', hrun, hend⟩ := ih _ (hn ▸ hlt) _ rfl
      exact ⟨_, s', Interleaved.step i hnext hrun, hend⟩

end

end NatGhost
