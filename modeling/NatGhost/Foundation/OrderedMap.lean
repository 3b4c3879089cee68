import Mathlib.Algebra.BigOperators.Group.Finset.Basic
import Mathlib.Algebra.Ring.Nat
import Mathlib.Data.List.Dedup
import Mathlib.Data.List.Induction
import Mathlib.Logic.Function.Iterate
import Mathlib.Tactic.TypeStar

/-!
# Ordered maps

`std::map` keeps its entries in the order of their keys. `m[k]`, used to change a value in place,
first makes an entry with a default value if there is none. `OrderedMap.modify` is that operation,
and `tally` the loop that is built on it most often: count how often each key occurs.

The entries are a list, and its order is a field of the structure: it is what keeps the keys
distinct. Statements about a map go through its keys and `getD`, the value of a key or the default;
`mem_entries_iff` puts the two together again.
-/

namespace NatGhost

/-- A map as the list of its entries, in strictly increasing order of the keys. -/
structure OrderedMap (κ γ : Type*) [LT κ] where
  entries : List (κ × γ)
  sorted : entries.Pairwise fun a b ↦ a.1 < b.1

namespace OrderedMap

variable {κ γ : Type*} [LT κ]

def empty : OrderedMap κ γ where
  entries := []
  sorted := List.Pairwise.nil

def keys (m : OrderedMap κ γ) : List κ := m.entries.map Prod.fst

theorem nodup_keys [Std.Irrefl (α := κ) (· < ·)] (m : OrderedMap κ γ) : m.keys.Nodup := by
  rw [keys, List.nodup_iff_pairwise_ne, List.pairwise_map]
  exact m.sorted.imp fun hlt ↦ Std.ne_of_lt hlt

/-! ## Searching -/

variable [DecidableLT κ]

/-- The search for the place of a key. Keys are compared by `<` only. -/
def modifyEntries (default : γ) (f : γ → γ) (k : κ) : List (κ × γ) → List (κ × γ)
  | [] => [(k, f default)]
  | e :: es =>
    if k < e.1 then (k, f default) :: e :: es
    else if e.1 < k then e :: modifyEntries default f k es
    else (e.1, f e.2) :: es

/-- The value of a key, or the default. -/
def getDEntries (default : γ) (k : κ) : List (κ × γ) → γ
  | [] => default
  | e :: es => if k < e.1 then default else if e.1 < k then getDEntries default k es else e.2

/-- `m[k]`, read. -/
def getD (default : γ) (k : κ) (m : OrderedMap κ γ) : γ := getDEntries default k m.entries

variable [LE κ] [Std.IsLinearOrder κ] [Std.LawfulOrderLT κ]

omit [DecidableLT κ] in
theorem eq_of_not_lt {a b : κ} (h : ¬a < b) (h' : ¬b < a) : a = b :=
  Std.le_antisymm (Std.not_lt.mp h') (Std.not_lt.mp h)

theorem exists_mem_modifyEntries_iff {default : γ} {f : γ → γ} {k k' : κ} {es : List (κ × γ)} :
    (∃ e ∈ modifyEntries default f k es, e.1 = k') ↔ k' = k ∨ ∃ e ∈ es, e.1 = k' := by
  induction es with
  | nil =>
    rw [modifyEntries]
    simp [eq_comm]
  | cons e es ih =>
    rw [modifyEntries]
    split_ifs with hbefore hafter
    · simp [eq_comm]
    · rw [List.exists_mem_cons_iff, ih, List.exists_mem_cons_iff, or_left_comm]
    · have hk : k = e.1 := eq_of_not_lt hbefore hafter
      rw [List.exists_mem_cons_iff, List.exists_mem_cons_iff, hk, eq_comm (a := k'),
        ← or_assoc, or_self]

theorem sorted_modifyEntries {default : γ} {f : γ → γ} {k : κ} {es : List (κ × γ)}
    (h : es.Pairwise fun a b ↦ a.1 < b.1) :
    (modifyEntries default f k es).Pairwise fun a b ↦ a.1 < b.1 := by
  induction es with
  | nil => exact List.pairwise_singleton _ _
  | cons e es ih =>
    obtain ⟨hhead, htail⟩ := List.pairwise_cons.mp h
    rw [modifyEntries]
    split_ifs with hbefore hafter
    · refine List.pairwise_cons.mpr ⟨fun e' he' ↦ ?_, h⟩
      rcases List.mem_cons.mp he' with rfl | he'
      · exact hbefore
      · exact Std.lt_trans hbefore (hhead e' he')
    · refine List.pairwise_cons.mpr ⟨fun e' he' ↦ ?_, ih htail⟩
      rcases exists_mem_modifyEntries_iff.mp ⟨e', he', rfl⟩ with hk | ⟨e'', he'', hkey⟩
      · rw [hk]
        exact hafter
      · rw [← hkey]
        exact hhead e'' he''
    · exact List.pairwise_cons.mpr ⟨hhead, htail⟩

/-- `m[k] = f(m[k])`. -/
def modify (default : γ) (f : γ → γ) (k : κ) (m : OrderedMap κ γ) : OrderedMap κ γ where
  entries := modifyEntries default f k m.entries
  sorted := sorted_modifyEntries m.sorted

theorem mem_keys_modify {default : γ} {f : γ → γ} {k k' : κ} {m : OrderedMap κ γ} :
    k' ∈ (m.modify default f k).keys ↔ k' = k ∨ k' ∈ m.keys := by
  rw [keys, List.mem_map, keys, List.mem_map]
  exact exists_mem_modifyEntries_iff

section Place

variable {default v : γ} {f : γ → γ} {k a : κ} {es : List (κ × γ)}

omit [LE κ] [Std.IsLinearOrder κ] [Std.LawfulOrderLT κ] in
theorem getDEntries_cons_of_lt (h : k < a) : getDEntries default k ((a, v) :: es) = default :=
  if_pos h

theorem getDEntries_cons_of_gt (h : a < k) :
    getDEntries default k ((a, v) :: es) = getDEntries default k es := by
  rw [getDEntries, if_neg fun hlt ↦ Std.lt_irrefl (Std.lt_trans h hlt), if_pos h]

omit [Std.IsLinearOrder κ] in
theorem getDEntries_cons_self : getDEntries default k ((k, v) :: es) = v := by
  rw [getDEntries, if_neg Std.lt_irrefl, if_neg Std.lt_irrefl]

omit [LE κ] [Std.IsLinearOrder κ] [Std.LawfulOrderLT κ] in
theorem modifyEntries_cons_of_lt (h : k < a) :
    modifyEntries default f k ((a, v) :: es) = (k, f default) :: (a, v) :: es := if_pos h

theorem modifyEntries_cons_of_gt (h : a < k) :
    modifyEntries default f k ((a, v) :: es) = (a, v) :: modifyEntries default f k es := by
  rw [modifyEntries, if_neg fun hlt ↦ Std.lt_irrefl (Std.lt_trans h hlt), if_pos h]

omit [Std.IsLinearOrder κ] in
theorem modifyEntries_cons_self :
    modifyEntries default f k ((k, v) :: es) = (k, f v) :: es := by
  rw [modifyEntries, if_neg Std.lt_irrefl, if_neg Std.lt_irrefl]

end Place

theorem getDEntries_modifyEntries [DecidableEq κ] (default : γ) (f : γ → γ) (k k' : κ)
    (es : List (κ × γ)) :
    getDEntries default k' (modifyEntries default f k es)
      = if k' = k then f (getDEntries default k es) else getDEntries default k' es := by
  induction es with
  | nil =>
    rw [modifyEntries]
    rcases Std.lt_trichotomy k' k with hlt | rfl | hgt
    · rw [getDEntries_cons_of_lt hlt, if_neg (Std.ne_of_lt hlt), getDEntries]
    · rw [getDEntries_cons_self, if_pos rfl, getDEntries]
    · rw [getDEntries_cons_of_gt hgt, if_neg (Std.ne_of_lt hgt).symm]
  | cons e es ih =>
    obtain ⟨a, v⟩ := e
    -- where the key is in relation to the first entry, then where the other key is
    rcases Std.lt_trichotomy k a with hk | rfl | hk
    · rw [modifyEntries_cons_of_lt hk, getDEntries_cons_of_lt hk]
      rcases Std.lt_trichotomy k' k with hlt | rfl | hgt
      · rw [getDEntries_cons_of_lt hlt, if_neg (Std.ne_of_lt hlt),
          getDEntries_cons_of_lt (Std.lt_trans hlt hk)]
      · rw [getDEntries_cons_self, if_pos rfl]
      · rw [getDEntries_cons_of_gt hgt, if_neg (Std.ne_of_lt hgt).symm]
    · rw [modifyEntries_cons_self, getDEntries_cons_self]
      rcases Std.lt_trichotomy k' k with hlt | rfl | hgt
      · rw [getDEntries_cons_of_lt hlt, if_neg (Std.ne_of_lt hlt), getDEntries_cons_of_lt hlt]
      · rw [getDEntries_cons_self, if_pos rfl]
      · rw [getDEntries_cons_of_gt hgt, if_neg (Std.ne_of_lt hgt).symm, getDEntries_cons_of_gt hgt]
    · rw [modifyEntries_cons_of_gt hk, getDEntries_cons_of_gt hk]
      rcases Std.lt_trichotomy k' a with hlt | rfl | hgt
      · rw [getDEntries_cons_of_lt hlt, if_neg (Std.ne_of_lt (Std.lt_trans hlt hk)),
          getDEntries_cons_of_lt hlt]
      · rw [getDEntries_cons_self, if_neg (Std.ne_of_lt hk), getDEntries_cons_self]
      · rw [getDEntries_cons_of_gt hgt, ih, getDEntries_cons_of_gt hgt]

/-- **What a change does to the values**: that of its key becomes the new value of the old one. -/
theorem getD_modify [DecidableEq κ] (default : γ) (f : γ → γ) (k k' : κ) (m : OrderedMap κ γ) :
    (m.modify default f k).getD default k'
      = if k' = k then f (m.getD default k) else m.getD default k' :=
  getDEntries_modifyEntries default f k k' m.entries

/-- **The entries of a map** are its keys with their values. -/
theorem mem_entries_iff (default : γ) {m : OrderedMap κ γ} {e : κ × γ} :
    e ∈ m.entries ↔ e.1 ∈ m.keys ∧ e.2 = m.getD default e.1 := by
  obtain ⟨es, hsorted⟩ := m
  rw [keys, getD]
  induction es with
  | nil => exact ⟨fun h ↦ absurd h List.not_mem_nil, fun h ↦ absurd h.1 List.not_mem_nil⟩
  | cons e' es ih =>
    obtain ⟨a, v⟩ := e'
    obtain ⟨k, w⟩ := e
    obtain ⟨hhead, htail⟩ := List.pairwise_cons.mp hsorted
    -- the keys of the tail are all greater than that of the head
    have ih := ih htail
    rw [List.map_cons, List.mem_cons, List.mem_cons]
    constructor
    · rintro (hfirst | hrest)
      · obtain ⟨rfl, rfl⟩ := Prod.mk.inj hfirst
        exact ⟨Or.inl rfl, getDEntries_cons_self.symm⟩
      · have hlt : a < k := hhead _ hrest
        rw [getDEntries_cons_of_gt hlt]
        exact ⟨Or.inr (ih.mp hrest).1, (ih.mp hrest).2⟩
    · rintro ⟨rfl | hkey, hvalue⟩
      · rw [getDEntries_cons_self] at hvalue
        exact Or.inl (Prod.ext rfl hvalue)
      · obtain ⟨e'', he'', hfst⟩ := List.mem_map.mp hkey
        have hlt : a < k := by
          have hhead'' := hhead e'' he''
          rwa [hfst] at hhead''
        rw [getDEntries_cons_of_gt hlt] at hvalue
        exact Or.inr (ih.mpr ⟨hkey, hvalue⟩)

/-! ## Counting -/

/-- `for (x : xs) ++m[x];`, with the counter as it is. -/
def tally (zero : γ) (incr : γ → γ) (xs : List κ) : OrderedMap κ γ :=
  xs.foldl (fun m x ↦ m.modify zero incr x) empty

theorem tally_concat (zero : γ) (incr : γ → γ) (xs : List κ) (x : κ) :
    tally zero incr (xs ++ [x]) = (tally zero incr xs).modify zero incr x := by
  rw [tally, List.foldl_append, List.foldl_cons, List.foldl_nil, tally]

theorem mem_keys_tally {zero : γ} {incr : γ → γ} {xs : List κ} {k : κ} :
    k ∈ (tally zero incr xs).keys ↔ k ∈ xs := by
  induction xs using List.reverseRecOn with
  | nil => exact ⟨fun h ↦ absurd h List.not_mem_nil, fun h ↦ absurd h List.not_mem_nil⟩
  | append_singleton xs x ih =>
    rw [tally_concat, mem_keys_modify, ih, List.mem_append, List.mem_singleton, or_comm]

variable [DecidableEq κ]

/-- **The counters**: as many increments as there are occurrences. -/
theorem getD_tally (zero : γ) (incr : γ → γ) (xs : List κ) (k : κ) :
    (tally zero incr xs).getD zero k = incr^[xs.count k] zero := by
  induction xs using List.reverseRecOn with
  | nil => rfl
  | append_singleton xs x ih =>
    rw [tally_concat, getD_modify, List.count_append, List.count_singleton]
    by_cases hk : k = x
    · subst hk
      rw [if_pos rfl, if_pos (beq_self_eq_true k), Function.iterate_succ_apply', ih]
    · rw [if_neg hk, if_neg fun h ↦ hk (eq_of_beq h).symm, Nat.add_zero, ih]

theorem length_keys_tally (zero : γ) (incr : γ → γ) (xs : List κ) :
    (tally zero incr xs).keys.length = xs.dedup.length := by
  refine List.Perm.length_eq ?_
  rw [List.perm_ext_iff_of_nodup (nodup_keys _) xs.nodup_dedup]
  intro k
  rw [mem_keys_tally, List.mem_dedup]

omit [DecidableLT κ] [Std.IsLinearOrder κ] in
theorem sum_map_count_keys {m : OrderedMap κ γ} {xs : List κ} (h : ∀ x ∈ xs, x ∈ m.keys) :
    (m.keys.map xs.count).sum = xs.length := by
  rw [← List.sum_toFinset xs.count (nodup_keys m)]
  have hsum := Multiset.sum_count_eq_card (m := xs) fun x hx ↦ List.mem_toFinset.mpr (h x hx)
  simp only [Multiset.coe_count] at hsum
  rw [hsum, Multiset.coe_card]

/-! ## Counting some of the elements -/

section Filter

variable {zero : γ} {incr : γ → γ} {k : κ} {es : List (κ × γ)} (p : κ → Bool)

omit [LE κ] [Std.IsLinearOrder κ] [Std.LawfulOrderLT κ] [DecidableEq κ] in
theorem modifyEntries_of_forall_lt (h : ∀ e ∈ es, k < e.1) :
    modifyEntries zero incr k es = (k, incr zero) :: es := by
  cases es with
  | nil => rfl
  | cons e es => exact modifyEntries_cons_of_lt (h e List.mem_cons_self)

omit [DecidableEq κ] in
theorem filter_modifyEntries (h : es.Pairwise fun a b ↦ a.1 < b.1) :
    (modifyEntries zero incr k es).filter (fun e ↦ p e.1)
      = if p k = true then modifyEntries zero incr k (es.filter fun e ↦ p e.1)
        else es.filter fun e ↦ p e.1 := by
  induction es with
  | nil =>
    rw [List.filter_nil, modifyEntries, List.filter_cons, List.filter_nil]
  | cons e es ih =>
    obtain ⟨a, v⟩ := e
    obtain ⟨hhead, htail⟩ := List.pairwise_cons.mp h
    have ih := ih htail
    -- in front of the head, at the head, or behind it
    rcases Std.lt_trichotomy k a with hlt | rfl | hgt
    · have hall : ∀ e ∈ ((a, v) :: es).filter (fun e ↦ p e.1), k < e.1 := fun e he ↦ by
        rcases List.mem_cons.mp (List.mem_filter.mp he).1 with rfl | hmem
        · exact hlt
        · exact Std.lt_trans hlt (hhead e hmem)
      rw [modifyEntries_cons_of_lt hlt, List.filter_cons, modifyEntries_of_forall_lt hall]
    · rw [modifyEntries_cons_self, List.filter_cons, List.filter_cons]
      split_ifs with hp
      · rw [modifyEntries_cons_self]
      · rfl
    · rw [modifyEntries_cons_of_gt hgt, List.filter_cons, List.filter_cons, ih]
      by_cases hk : p k = true
      · rw [if_pos hk, if_pos hk]
        split_ifs
        · rw [modifyEntries_cons_of_gt hgt]
        · rfl
      · rw [if_neg hk, if_neg hk]

omit [DecidableEq κ] in
/-- **Counting some of the elements** gives their part of the counters. -/
theorem entries_tally_filter (xs : List κ) : (tally zero incr (xs.filter p)).entries
    = (tally zero incr xs).entries.filter fun e ↦ p e.1 := by
  induction xs using List.reverseRecOn with
  | nil => rfl
  | append_singleton xs x ih =>
    rw [tally_concat, List.filter_append, List.filter_cons, List.filter_nil]
    change _ = (modifyEntries zero incr x (tally zero incr xs).entries).filter _
    rw [filter_modifyEntries p (tally zero incr xs).sorted, ← ih]
    split_ifs
    · rw [tally_concat]
      rfl
    · rw [List.append_nil]

end Filter

/-! ## Counting pairs -/

section Pairs

variable {μ : Type*} [LT μ] [DecidableLT μ] [LE μ] [Std.IsLinearOrder μ] [Std.LawfulOrderLT μ]

/-- `for ((x, y) : ps) ++m[x][y];` -/
def tallyPairs (zero : γ) (incr : γ → γ) (ps : List (κ × μ)) : OrderedMap κ (OrderedMap μ γ) :=
  ps.foldl (fun m e ↦ m.modify empty (modify zero incr e.2) e.1) empty

omit [DecidableEq κ] in
theorem tallyPairs_concat (zero : γ) (incr : γ → γ) (ps : List (κ × μ)) (e : κ × μ) :
    tallyPairs zero incr (ps ++ [e])
      = (tallyPairs zero incr ps).modify empty (modify zero incr e.2) e.1 := by
  rw [tallyPairs, List.foldl_append, List.foldl_cons, List.foldl_nil, tallyPairs]

omit [DecidableEq κ] in
theorem mem_keys_tallyPairs {zero : γ} {incr : γ → γ} {ps : List (κ × μ)} {k : κ} :
    k ∈ (tallyPairs zero incr ps).keys ↔ k ∈ ps.map Prod.fst := by
  induction ps using List.reverseRecOn with
  | nil => exact ⟨fun h ↦ absurd h List.not_mem_nil, fun h ↦ absurd h List.not_mem_nil⟩
  | append_singleton ps e ih =>
    rw [tallyPairs_concat, mem_keys_modify, ih, List.map_append, List.mem_append,
      List.map_singleton, List.mem_singleton, or_comm]

/-- **A row counts** what is paired with its key. -/
theorem getD_tallyPairs (zero : γ) (incr : γ → γ) (ps : List (κ × μ)) (k : κ) :
    (tallyPairs zero incr ps).getD empty k
      = tally zero incr ((ps.filter fun e ↦ decide (e.1 = k)).map Prod.snd) := by
  induction ps using List.reverseRecOn with
  | nil => rfl
  | append_singleton ps e ih =>
    rw [tallyPairs_concat, getD_modify, List.filter_append, List.filter_cons, List.filter_nil]
    by_cases hk : k = e.1
    · subst hk
      rw [if_pos rfl, if_pos (decide_eq_true rfl), List.map_append, List.map_singleton,
        tally_concat, ih]
    · rw [if_neg hk, if_neg fun h ↦ hk (of_decide_eq_true h).symm, List.append_nil, ih]

end Pairs

end OrderedMap

end NatGhost
