import Mathlib.Data.List.Induction
import Mathlib.Data.List.Nodup
import Mathlib.Data.Nat.Notation
import Mathlib.Tactic.SplitIfs
import Mathlib.Tactic.TypeStar

/-!
# Lists by key

A dictionary from keys to lists, in which a missing list is empty and keys are kept in the order in
which they were inserted. Appending values one after the other sorts them by key: the keys stand in
the order of their first values, each with its values in order (`entries_appendAll`).
-/

namespace NatGhost

variable {κ α : Type*} [DecidableEq κ]

/-- A dictionary of lists, as its entries in the order of insertion. -/
structure Grouping (κ α : Type*) where
  entries : List (κ × List α)
  nodup : (entries.map Prod.fst).Nodup

namespace Grouping

def empty : Grouping κ α where
  entries := []
  nodup := List.nodup_nil

/-- `entries[k].append(a)` for a list of entries. -/
def appendEntries (k : κ) (a : α) : List (κ × List α) → List (κ × List α)
  | [] => [(k, [a])]
  | e :: es => if e.1 = k then (e.1, e.2 ++ [a]) :: es else e :: appendEntries k a es

theorem mem_map_fst_appendEntries {k k' : κ} {a : α} {es : List (κ × List α)} :
    k' ∈ (appendEntries k a es).map Prod.fst ↔ k' = k ∨ k' ∈ es.map Prod.fst := by
  induction es with
  | nil => simp [appendEntries]
  | cons e es ih =>
    rw [appendEntries]
    split_ifs with hk
    · rw [List.map_cons, List.map_cons, List.mem_cons, hk]
      exact or_self_left.symm
    · rw [List.map_cons, List.map_cons, List.mem_cons, List.mem_cons, ih]
      exact or_left_comm

theorem nodup_appendEntries {k : κ} {a : α} {es : List (κ × List α)}
    (h : (es.map Prod.fst).Nodup) : ((appendEntries k a es).map Prod.fst).Nodup := by
  induction es with
  | nil => exact List.nodup_singleton k
  | cons e es ih =>
    rw [List.map_cons, List.nodup_cons] at h
    rw [appendEntries]
    split_ifs with hk
    · exact List.nodup_cons.mpr h
    · rw [List.map_cons, List.nodup_cons, mem_map_fst_appendEntries, not_or]
      exact ⟨⟨hk, h.1⟩, ih h.2⟩

/-- `entries[k].append(a)`. -/
def append (g : Grouping κ α) (k : κ) (a : α) : Grouping κ α where
  entries := appendEntries k a g.entries
  nodup := nodup_appendEntries g.nodup

def appendAll (ps : List (κ × α)) (g : Grouping κ α) : Grouping κ α :=
  ps.foldl (fun g e ↦ g.append e.1 e.2) g

theorem appendAll_append (ps ps' : List (κ × α)) (g : Grouping κ α) :
    appendAll (ps ++ ps') g = appendAll ps' (appendAll ps g) := List.foldl_append

def values (ps : List (κ × α)) (k : κ) : List α :=
  (ps.filter fun e ↦ decide (e.1 = k)).map Prod.snd

theorem values_concat (ps : List (κ × α)) (e : κ × α) (k : κ) :
    values (ps ++ [e]) k = if k = e.1 then values ps k ++ [e.2] else values ps k := by
  rw [values, values, List.filter_append, List.filter_cons, List.filter_nil]
  by_cases hk : k = e.1
  · rw [if_pos (decide_eq_true hk.symm), if_pos hk, List.map_append, List.map_singleton]
  · rw [if_neg fun h ↦ hk (of_decide_eq_true h).symm, if_neg hk, List.append_nil]

/-- A value is there for a key as often as the pair of them. -/
theorem count_values [DecidableEq α] (ps : List (κ × α)) (k : κ) (a : α) :
    (values ps k).count a = ps.count (k, a) := by
  rw [values, List.count, List.countP_map, List.countP_filter, List.count]
  refine List.countP_congr fun e _ ↦ ?_
  rw [Bool.and_eq_true, Function.comp_apply, beq_iff_eq, decide_eq_true_iff, beq_iff_eq,
    Prod.ext_iff]
  exact and_comm

theorem appendEntries_map_of_mem {k : κ} (a : α) (f : κ → List α) {ks : List κ}
    (hks : ks.Nodup) (hk : k ∈ ks) : appendEntries k a (ks.map fun x ↦ (x, f x))
      = ks.map fun x ↦ (x, if x = k then f x ++ [a] else f x) := by
  induction ks with
  | nil => exact absurd hk List.not_mem_nil
  | cons y ks ih =>
    obtain ⟨hy, hks⟩ := List.nodup_cons.mp hks
    rw [List.map_cons, List.map_cons, appendEntries]
    split_ifs with hyk
    · -- the key occurs nowhere else
      obtain rfl : y = k := hyk
      refine congrArg (_ :: ·) (List.map_congr_left fun x hx ↦ ?_)
      rw [if_neg]
      rintro rfl
      exact hy hx
    · rw [ih hks ((List.mem_cons.mp hk).resolve_left (Ne.symm hyk))]

theorem appendEntries_of_notMem {k : κ} (a : α) {es : List (κ × List α)}
    (hk : k ∉ es.map Prod.fst) : appendEntries k a es = es ++ [(k, [a])] := by
  induction es with
  | nil => rfl
  | cons e es ih =>
    rw [List.map_cons, List.mem_cons, not_or] at hk
    rw [appendEntries, if_neg (Ne.symm hk.1), ih hk.2, List.cons_append]

/-- **What is in the dictionary**: the keys in the order of their first values, with their values in
order. -/
theorem entries_appendAll (ps : List (κ × α)) : (appendAll ps empty).entries
    = (ps.map Prod.fst).eraseDups.map fun k ↦ (k, values ps k) := by
  induction ps using List.reverseRecOn with
  | nil => rfl
  | append_singleton ps e ih =>
    have hfold : (appendAll (ps ++ [e]) empty).entries
        = appendEntries e.1 e.2 (appendAll ps empty).entries := by
      rw [appendAll_append]
      rfl
    have hnodup : ((ps.map Prod.fst).eraseDups).Nodup := by
      have hkeys := (appendAll ps empty).nodup
      rw [ih, List.map_map] at hkeys
      simpa only [Function.comp_def, List.map_id'] using hkeys
    have hvalues : (fun k ↦ (k, values (ps ++ [e]) k))
        = fun k ↦ (k, if k = e.1 then values ps k ++ [e.2] else values ps k) :=
      funext fun k ↦ by rw [values_concat]
    rw [hfold, ih, hvalues, List.map_append, List.map_singleton, List.eraseDups_append]
    by_cases hmem : e.1 ∈ ps.map Prod.fst
    · have hnone : [e.1].removeAll (ps.map Prod.fst) = [] := by simp [List.removeAll, hmem]
      rw [hnone, List.eraseDups_nil, List.append_nil,
        appendEntries_map_of_mem e.2 (values ps) hnodup (List.mem_eraseDups.mpr hmem)]
    · have hone : [e.1].removeAll (ps.map Prod.fst) = [e.1] := by simp [List.removeAll, hmem]
      have hold : ((ps.map Prod.fst).eraseDups.map fun k ↦ (k, values ps k))
          = (ps.map Prod.fst).eraseDups.map
            fun k ↦ (k, if k = e.1 then values ps k ++ [e.2] else values ps k) := by
        refine List.map_congr_left fun k hk ↦ ?_
        rw [if_neg]
        rintro rfl
        exact hmem (List.mem_eraseDups.mp hk)
      have hempty : values ps e.1 = [] := by
        rw [values, List.filter_eq_nil_iff.mpr, List.map_nil]
        exact fun x hx h ↦ hmem (of_decide_eq_true h ▸ List.mem_map_of_mem hx)
      have hnew : e.1 ∉ ((ps.map Prod.fst).eraseDups.map fun k ↦ (k, values ps k)).map
          Prod.fst := by
        rw [List.map_map]
        simpa only [Function.comp_def, List.map_id', List.mem_eraseDups] using hmem
      rw [hone, List.eraseDups_cons, List.filter_nil, List.eraseDups_nil,
        appendEntries_of_notMem e.2 hnew, List.map_append, List.map_singleton, if_pos rfl, hempty,
        ← hold]
      rfl

/-- `entries[k]`, without inserting an empty list. -/
def get (g : Grouping κ α) (k : κ) : List α :=
  match g.entries.find? fun e ↦ decide (e.1 = k) with
  | some e => e.2
  | none => []

theorem get_appendAll (ps : List (κ × α)) (k : κ) : (appendAll ps empty).get k = values ps k := by
  rw [get, entries_appendAll, List.find?_map]
  cases hfound : (ps.map Prod.fst).eraseDups.find? ((fun e : κ × List α ↦ decide (e.1 = k)) ∘
      fun k ↦ (k, values ps k)) with
  | none =>
    have hnot := List.find?_eq_none.mp hfound
    symm
    rw [Option.map_none, values, List.filter_eq_nil_iff.mpr, List.map_nil]
    intro e he hk
    exact hnot e.1 (List.mem_eraseDups.mpr (List.mem_map_of_mem he)) hk
  | some k' =>
    have hdecide := List.find?_some hfound
    have hk : k' = k := of_decide_eq_true hdecide
    rw [Option.map_some, hk]

end Grouping

end NatGhost
