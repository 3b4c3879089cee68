import NatGhost.Analyzer.PortHints
import NatGhost.Foundation.Adjacent

/-!
# Transitions between ports

`markov_predictor` counts for each port which ports come right behind it in the log, and prints for
the first `top_n` ports the most frequent of them.

The table is that of the neighbours in the log, so a row is the counters of the port's successors
(`getD_transitions`), and a printed line a ranking of them. All of it is as right as the counters,
which are `int`.
-/

namespace NatGhost

open OrderedMap

/-! ## The code -/

/-- `transitions`. The loop goes through `data[i - 1].port` and `data[i].port` for `i` from 1 on. -/
def transitions (data : List PacketInfo) : OrderedMap UInt16 (OrderedMap UInt16 Int32) :=
  (adjacent (ports data)).foldl
    (fun transitions (prev, curr) ↦
      transitions.modify .empty (OrderedMap.modify 0 (· + 1) curr) prev) .empty

/-- The comparator of `markov_predictor`. -/
def markovLess (a b : UInt16 × Int32) : Bool := decide (b.2 < a.2)

/-- What may be printed behind the arrow for a row of the table. -/
def ListsSuccessors (topN : ℕ) (toMap : OrderedMap UInt16 Int32) (listed : List (UInt16 × Int32)) :
    Prop :=
  ∃ sorted, Sorts markovLess toMap.entries sorted ∧ listed = sorted.take topN

/-- The printing loop from some row on, with `count` lines printed:
`if (++count == top_n) break;`. -/
inductive PrintsRows (topN : ℕ) : ℕ → List (UInt16 × OrderedMap UInt16 Int32) →
    List (UInt16 × List (UInt16 × Int32)) → Prop
  | done (count : ℕ) : PrintsRows topN count [] []
  | last {count : ℕ} {row : UInt16 × OrderedMap UInt16 Int32}
      {rows : List (UInt16 × OrderedMap UInt16 Int32)} {listed : List (UInt16 × Int32)}
      (hlisted : ListsSuccessors topN row.2 listed) (hcount : count + 1 = topN) :
      PrintsRows topN count (row :: rows) [(row.1, listed)]
  | next {count : ℕ} {row : UInt16 × OrderedMap UInt16 Int32}
      {rows : List (UInt16 × OrderedMap UInt16 Int32)} {listed : List (UInt16 × Int32)}
      {lines : List (UInt16 × List (UInt16 × Int32))} (hlisted : ListsSuccessors topN row.2 listed)
      (hcount : count + 1 ≠ topN) (hrest : PrintsRows topN (count + 1) rows lines) :
      PrintsRows topN count (row :: rows) ((row.1, listed) :: lines)

/-- What `markov_predictor` may print, line by line. -/
def PrintsMarkov (data : List PacketInfo) (topN : ℕ)
    (lines : List (UInt16 × List (UInt16 × Int32))) : Prop :=
  PrintsRows topN 0 (transitions data).entries lines

/-! ## The table -/

section

variable {data : List PacketInfo} {topN : ℕ}

/-- **A row of the table** counts the successors of its port. -/
theorem getD_transitions (data : List PacketInfo) (a : UInt16) :
    (transitions data).getD .empty a = counters (successors (ports data) a) :=
  getD_tallyPairs 0 (· + 1) (adjacent (ports data)) a

theorem mem_keys_transitions {a : UInt16} :
    a ∈ (transitions data).keys ↔ a ∈ (ports data).dropLast := by
  rw [← map_fst_adjacent]
  exact mem_keys_tallyPairs

theorem getD_getD_transitions (data : List PacketInfo) (a b : UInt16) :
    ((transitions data).getD .empty a).getD 0 b = Int32.ofNat (follows (ports data) a b) := by
  rw [getD_transitions, getD_counters, count_successors]

theorem snd_eq_of_mem_transitions {row : UInt16 × OrderedMap UInt16 Int32}
    (hrow : row ∈ (transitions data).entries) :
    row.2 = counters (successors (ports data) row.1) := by
  rw [((mem_entries_iff .empty).mp hrow).2, getD_transitions]

/-! ## The lines -/

theorem exists_printsRows (topN count : ℕ) (rows : List (UInt16 × OrderedMap UInt16 Int32)) :
    ∃ lines, PrintsRows topN count rows lines := by
  have hless : StrictWeakOrder markovLess :=
    strictWeakOrder_of_key (fun e ↦ -e.2.toInt) fun a b ↦ by
      rw [markovLess, decide_eq_true_iff, Int32.lt_iff_toInt_lt, Int.neg_lt_neg_iff]
  induction rows generalizing count with
  | nil => exact ⟨[], .done count⟩
  | cons row rows ih =>
    obtain ⟨sorted, hsorted⟩ := exists_sorts hless row.2.entries
    by_cases hcount : count + 1 = topN
    · exact ⟨_, .last ⟨sorted, hsorted, rfl⟩ hcount⟩
    · obtain ⟨lines, hrest⟩ := ih (count + 1)
      exact ⟨_, .next ⟨sorted, hsorted, rfl⟩ hcount hrest⟩

/-- **Each line is about a row of the table.** -/
theorem PrintsRows.exists_row {count : ℕ} {rows : List (UInt16 × OrderedMap UInt16 Int32)}
    {lines : List (UInt16 × List (UInt16 × Int32))} (h : PrintsRows topN count rows lines)
    {line : UInt16 × List (UInt16 × Int32)} (hline : line ∈ lines) :
    ∃ row ∈ rows, row.1 = line.1 ∧ ListsSuccessors topN row.2 line.2 := by
  induction h with
  | done count => exact absurd hline List.not_mem_nil
  | last hlisted hcount =>
    rw [List.mem_singleton] at hline
    subst hline
    exact ⟨_, List.mem_cons_self, rfl, hlisted⟩
  | next hlisted hcount hrest ih =>
    rcases List.mem_cons.mp hline with rfl | hline
    · exact ⟨_, List.mem_cons_self, rfl, hlisted⟩
    · obtain ⟨row, hrow, hsource, hlists⟩ := ih hline
      exact ⟨row, List.mem_cons_of_mem _ hrow, hsource, hlists⟩

/-- **The ports that get a line** are the first ones of the table, as many as asked for. -/
theorem PrintsRows.map_fst {count : ℕ} {rows : List (UInt16 × OrderedMap UInt16 Int32)}
    {lines : List (UInt16 × List (UInt16 × Int32))} (h : PrintsRows topN count rows lines)
    (hcount : count < topN) : lines.map Prod.fst = (rows.map Prod.fst).take (topN - count) := by
  induction h with
  | done count => exact List.take_nil.symm
  | @last count row rows listed hlisted hlast =>
    rw [← hlast, Nat.add_sub_cancel_left, List.map_cons (f := Prod.fst) (l := rows),
      List.take_succ_cons, List.take_zero]
    rfl
  | @next count row rows listed lines hlisted hnext hrest ih =>
    rw [List.map_cons, ih (by omega), show topN - count = topN - (count + 1) + 1 by omega,
      List.map_cons, List.take_succ_cons]

theorem map_fst_printsMarkov (data : List PacketInfo) (htop : 1 ≤ topN) :
    (∃ lines, PrintsMarkov data topN lines) ∧
      ∀ lines, PrintsMarkov data topN lines → lines.map Prod.fst
        = (transitions data).keys.take topN :=
  ⟨exists_printsRows topN 0 _, fun _ hlines ↦ hlines.map_fst htop⟩

/-! ## Right tables and lines -/

/-- The table has the numbers of transitions, its rows and columns add up to the occurrences as
first and as second packet, and every line lists the most frequent successors of its port. -/
structure CountsTransitions (data : List PacketInfo) (topN : ℕ) : Prop where
  exact_count : ∀ a b, (((transitions data).getD .empty a).getD 0 b).toInt
    = follows (ports data) a b
  row_sum : ∀ a, (((transitions data).getD .empty a).entries.map fun e ↦ e.2.toInt).sum
    = (ports data).dropLast.count a
  column_sum : ∀ b, ((transitions data).entries.map fun row ↦ (row.2.getD 0 b).toInt).sum
    = (ports data).tail.count b
  lists_top : ∀ lines, PrintsMarkov data topN lines → ∀ line ∈ lines,
    TopCounts (successors (ports data) line.1) topN line.2

theorem sum_column_transitions {b : UInt16} (h : ∀ a, follows (ports data) a b < 2 ^ 31) :
    ((transitions data).entries.map fun row ↦ (row.2.getD 0 b).toInt).sum
      = (ports data).tail.count b := by
  have hrows : ((transitions data).entries.map fun row ↦ (row.2.getD 0 b).toInt)
      = (transitions data).keys.map fun a ↦
        (Int32.ofNat ((predecessors (ports data) b).count a)).toInt := by
    rw [keys, List.map_map]
    refine List.map_congr_left fun row hrow ↦ ?_
    rw [snd_eq_of_mem_transitions hrow, getD_counters, count_successors, Function.comp_apply,
      count_predecessors]
  have hall : ∀ a ∈ predecessors (ports data) b, a ∈ (transitions data).keys := fun a ha ↦
    mem_keys_transitions.mpr (mem_dropLast_of_mem_predecessors ha)
  rw [hrows, ← length_predecessors, ← sum_map_count_keys hall, sum_toInt_eq_iff]
  intro a _
  rw [count_predecessors]
  exact h a

/-- **When the table and the lines are right**: if no transition occurs 2³¹ times. -/
theorem countsTransitions_iff (data : List PacketInfo) (topN : ℕ) :
    CountsTransitions data topN ↔ ∀ a b, follows (ports data) a b < 2 ^ 31 := by
  constructor
  · intro h a b
    have hcount := h.exact_count a b
    rwa [getD_getD_transitions, toInt_ofNat_eq_iff] at hcount
  · intro h
    have hsuccessors : ∀ a b, (successors (ports data) a).count b < 2 ^ 31 := fun a b ↦ by
      rw [count_successors]
      exact h a b
    refine ⟨fun a b ↦ ?_, fun a ↦ ?_, fun b ↦ sum_column_transitions fun a ↦ h a b,
      fun lines hlines line hline ↦ ?_⟩
    · rw [getD_getD_transitions, toInt_ofNat_eq_iff.mpr (h a b)]
    · rw [getD_transitions, (sum_counters_eq_iff _).mpr (hsuccessors a), length_successors]
    · obtain ⟨row, hrow, hsource, sorted, hsorted, hlisted⟩ := hlines.exists_row hline
      rw [snd_eq_of_mem_transitions hrow, hsource] at hsorted
      rw [hlisted]
      exact topCounts_of_sorts hsorted (hsuccessors line.1) topN

end

/-- **A counter wraps around** in a log with 2³¹ + 1 packets from one port. -/
theorem selfTransition_overflows : ¬∀ data topN, 1 ≤ topN → CountsTransitions data topN := by
  intro h
  have hcount := (h (List.replicate (2 ^ 31 + 1) ⟨40000, 0, 0⟩) 5 (by decide)).exact_count
    40000 40000
  rw [getD_getD_transitions, toInt_ofNat_eq_iff, ports, List.map_replicate, ← count_adjacent,
    adjacent_replicate, List.count_replicate_self] at hcount
  exact absurd hcount (Nat.lt_irrefl _)

end NatGhost
