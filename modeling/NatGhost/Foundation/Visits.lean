import Mathlib.Data.List.Basic
import Mathlib.Tactic.TypeStar

/-!
# Visited states of a deterministic event system

The state after a list of events is `List.foldl step s es`. What a statement about every reachable
state needs in addition is the states on the way, together with the event that is handled there:
`visits step s es` lists these pairs in order.

Each induction over a run is done once here. An invariant is established by showing that every
visited event preserves it, and it then holds in every visited state and at the end.
-/

namespace NatGhost

variable {σ ε : Type*} (step : σ → ε → σ)

def visits : σ → List ε → List (σ × ε)
  | _, [] => []
  | s, e :: es => (s, e) :: visits (step s e) es

@[simp] theorem visits_nil (s : σ) : visits step s [] = [] := rfl

@[simp] theorem visits_cons (s : σ) (e : ε) (es : List ε) :
    visits step s (e :: es) = (s, e) :: visits step (step s e) es := rfl

theorem visits_append (s : σ) (es es' : List ε) :
    visits step s (es ++ es') = visits step s es ++ visits step (es.foldl step s) es' := by
  induction es generalizing s with
  | nil => rfl
  | cons e es ih =>
    rw [List.cons_append, visits_cons, visits_cons, ih, List.foldl_cons, List.cons_append]

theorem map_snd_visits (s : σ) (es : List ε) : (visits step s es).map Prod.snd = es := by
  induction es generalizing s with
  | nil => rfl
  | cons e es ih => rw [visits_cons, List.map_cons, ih]

variable {step}

theorem mem_of_mem_visits {s : σ} {es : List ε} {v : σ × ε} (h : v ∈ visits step s es) :
    v.2 ∈ es := by
  rw [← map_snd_visits step s es]
  exact List.mem_map_of_mem h

theorem exists_split_of_mem_visits {s : σ} {es : List ε} {v : σ × ε} (h : v ∈ visits step s es) :
    ∃ es₁ es₂, es = es₁ ++ v.2 :: es₂ ∧ v.1 = es₁.foldl step s := by
  induction es generalizing s with
  | nil => exact absurd h List.not_mem_nil
  | cons e es ih =>
    rcases List.mem_cons.mp h with rfl | h
    · exact ⟨[], es, rfl, rfl⟩
    · obtain ⟨es₁, es₂, hsplit, hstate⟩ := ih h
      exact ⟨e :: es₁, es₂, by rw [hsplit, List.cons_append], hstate⟩

/-- **Invariants along a run.** Preserved by every event that is handled, hence true wherever an
event is handled and at the end. -/
theorem run_invariant (step : σ → ε → σ) (I : σ → Prop) {s : σ} (es : List ε) (hs : I s)
    (hstep : ∀ v ∈ visits step s es, I v.1 → I (step v.1 v.2)) :
    (∀ v ∈ visits step s es, I v.1) ∧ I (es.foldl step s) := by
  induction es generalizing s with
  | nil => exact ⟨fun v hv ↦ absurd hv List.not_mem_nil, hs⟩
  | cons e es ih =>
    have hnext : I (step s e) := hstep (s, e) List.mem_cons_self hs
    obtain ⟨hvisits, hend⟩ := ih hnext fun v hv ↦ hstep v (List.mem_cons_of_mem _ hv)
    refine ⟨fun v hv ↦ ?_, hend⟩
    rcases List.mem_cons.mp hv with rfl | hv
    · exact hs
    · exact hvisits v hv

theorem foldl_invariant (I : σ → Prop) {s : σ} {es : List ε} (hs : I s)
    (hstep : ∀ t, ∀ e ∈ es, I t → I (step t e)) : I (es.foldl step s) :=
  (run_invariant step I es hs fun v hv hI ↦ hstep v.1 v.2 (mem_of_mem_visits hv) hI).2

end NatGhost
