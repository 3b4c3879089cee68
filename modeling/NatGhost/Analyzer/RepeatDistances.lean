import NatGhost.Analyzer.PortHints
import NatGhost.Foundation.LastSeen

/-!
# Repetition distances and cycles

`repetition_distance_analysis` and `cycle_detector` both go through the log with a map from each
port to the position where it was seen last, and count how far back that was. The second calls its
map `first_seen`, updates it just the same, and counts distances between 2 and 1023 only.

Both are the scan of `Foundation.LastSeen` with a counter instead of a note: `repeatDistances_eq`
and `cycleLengths_eq`. The counters are `int`.
-/

namespace NatGhost

open OrderedMap

/-! ## The code -/

/-- The two maps of `repetition_distance_analysis`. -/
structure RepeatScan where
  lastSeen : UInt16 → Option ℕ
  repeatDistances : OrderedMap ℕ Int32

/-- The loop of `repetition_distance_analysis`, for the port at position `i`. -/
def RepeatScan.step (s : RepeatScan) (e : UInt16 × ℕ) : RepeatScan :=
  let (port, i) := e
  let repeatDistances :=
    match s.lastSeen port with
    | some last =>
      let dist := i - last
      s.repeatDistances.modify 0 (· + 1) dist
    | none => s.repeatDistances
  { lastSeen := Function.update s.lastSeen port (some i), repeatDistances := repeatDistances }

/-- `repeat_distances`. -/
def repeatDistances (data : List PacketInfo) : OrderedMap ℕ Int32 :=
  ((ports data).zipIdx.foldl RepeatScan.step
    { lastSeen := fun _ ↦ none, repeatDistances := .empty }).repeatDistances

/-- The two maps of `cycle_detector`. -/
structure CycleScan where
  firstSeen : UInt16 → Option ℕ
  cycleLengths : OrderedMap ℕ Int32

/-- The loop of `cycle_detector`, for the port at position `i`. -/
def CycleScan.step (s : CycleScan) (e : UInt16 × ℕ) : CycleScan :=
  let (port, i) := e
  let cycleLengths :=
    match s.firstSeen port with
    | some prev =>
      let cycleLen := i - prev
      if cycleLen > 1 ∧ cycleLen < 1024 then s.cycleLengths.modify 0 (· + 1) cycleLen
      else s.cycleLengths
    | none => s.cycleLengths
  { firstSeen := Function.update s.firstSeen port (some i), cycleLengths := cycleLengths }

/-- `cycle_lengths`. -/
def cycleLengths (data : List PacketInfo) : OrderedMap ℕ Int32 :=
  ((ports data).zipIdx.foldl CycleScan.step
    { firstSeen := fun _ ↦ none, cycleLengths := .empty }).cycleLengths

/-- The filter of `cycle_detector`. -/
def isCycleLength (d : ℕ) : Bool := decide (d > 1 ∧ d < 1024)

/-! ## The scan -/

/-- The state of `repetition_distance_analysis` in a state of the scan. -/
def RepeatScan.of (s : LastSeen UInt16) : RepeatScan where
  lastSeen := s.seen
  repeatDistances := counters s.distances

/-- The state of `cycle_detector` in a state of the scan. -/
def CycleScan.of (s : LastSeen UInt16) : CycleScan where
  firstSeen := s.seen
  cycleLengths := counters (s.distances.filter isCycleLength)

theorem RepeatScan.step_of (s : LastSeen UInt16) (e : UInt16 × ℕ) :
    RepeatScan.step (.of s) e = .of (s.step e) := by
  cases hseen : s.seen e.1 with
  | none => simp only [step, of, LastSeen.step, hseen, Option.map_none, Option.toList_none,
    List.append_nil]
  | some last =>
    simp only [step, of, LastSeen.step, hseen, Option.map_some, Option.toList_some, counters,
      tally_concat]

theorem CycleScan.step_of (s : LastSeen UInt16) (e : UInt16 × ℕ) :
    CycleScan.step (.of s) e = .of (s.step e) := by
  cases hseen : s.seen e.1 with
  | none => simp only [step, of, LastSeen.step, hseen, Option.map_none, Option.toList_none,
    List.append_nil]
  | some last =>
    simp only [step, of, LastSeen.step, hseen, Option.map_some, Option.toList_some,
      List.filter_append, List.filter_cons, List.filter_nil, isCycleLength, decide_eq_true_eq]
    split_ifs
    · simp only [counters, tally_concat]
    · rw [List.append_nil]

theorem foldl_repeatScan (xs : List UInt16) :
    xs.zipIdx.foldl RepeatScan.step (.of ⟨fun _ ↦ none, []⟩) = .of (lastSeen xs) :=
  List.foldl_hom RepeatScan.of RepeatScan.step_of

theorem foldl_cycleScan (xs : List UInt16) :
    xs.zipIdx.foldl CycleScan.step (.of ⟨fun _ ↦ none, []⟩) = .of (lastSeen xs) :=
  List.foldl_hom CycleScan.of CycleScan.step_of

theorem repeatDistances_eq (data : List PacketInfo) :
    repeatDistances data = counters (lastSeen (ports data)).distances :=
  congrArg RepeatScan.repeatDistances (foldl_repeatScan (ports data))

theorem cycleLengths_eq (data : List PacketInfo) :
    cycleLengths data = counters ((lastSeen (ports data)).distances.filter isCycleLength) :=
  congrArg CycleScan.cycleLengths (foldl_cycleScan (ports data))

/-! ## The histograms -/

/-- The histograms are right: each distance has the number of repetitions over that distance, the
numbers add up to the packets less the distinct ports, and the cycles are the part of the histogram
between 2 and 1023. -/
structure CountsRepeats (data : List PacketInfo) : Prop where
  exact_count : ∀ d, ((repeatDistances data).getD 0 d).toInt = repeats (ports data) d
  total : ((repeatDistances data).entries.map fun e ↦ e.2.toInt).sum
    = (data.length : ℤ) - (ports data).dedup.length
  cycles : (cycleLengths data).entries
    = (repeatDistances data).entries.filter fun e ↦ decide (1 < e.1 ∧ e.1 < 1024)

theorem getD_repeatDistances (data : List PacketInfo) (d : ℕ) :
    (repeatDistances data).getD 0 d = Int32.ofNat (repeats (ports data) d) := by
  rw [repeatDistances_eq, getD_counters, count_distances]

theorem CountsRepeats.repeats_lt {data : List PacketInfo} (h : CountsRepeats data) (d : ℕ) :
    repeats (ports data) d < 2 ^ 31 := by
  have hcount := h.exact_count d
  rwa [getD_repeatDistances, toInt_ofNat_eq_iff] at hcount

theorem repeats_replicate {κ : Type} [DecidableEq κ] (x : κ) (n : ℕ) :
    repeats (List.replicate (n + 1) x) 1 = n := by
  induction n with
  | zero => rw [List.replicate_one, repeats, List.length_singleton]; rfl
  | succ n ih =>
    have hlast : IsRepeat (List.replicate (n + 1) x ++ [x]) 1
        (List.replicate (n + 1) x).length := by
      rw [isRepeat_concat_iff, List.length_replicate, seen_eq_some_iff]
      refine ⟨Nat.one_pos, Nat.succ_pos n, ?_, fun k hk ↦ ?_⟩
      · rw [Nat.add_sub_cancel, List.getElem?_replicate, if_pos (Nat.lt_succ_self n)]
      · rw [List.getElem?_eq_none]
        · exact (Option.some_ne_none x).symm
        · rw [List.length_replicate]
          exact hk
    rw [List.replicate_succ', repeats_concat, ih, if_pos hlast]

/-- **When the histograms are right**: if no distance is repeated 2³¹ times. -/
theorem countsRepeats_iff (data : List PacketInfo) :
    CountsRepeats data ↔ ∀ d, repeats (ports data) d < 2 ^ 31 := by
  refine ⟨CountsRepeats.repeats_lt, fun h ↦ ⟨fun d ↦ ?_, ?_, ?_⟩⟩
  · rw [getD_repeatDistances, toInt_ofNat_eq_iff.mpr (h d)]
  · have hsum : ((repeatDistances data).entries.map fun e ↦ e.2.toInt).sum
        = (lastSeen (ports data)).distances.length := by
      rw [repeatDistances_eq, sum_counters_eq_iff]
      intro d
      rw [count_distances]
      exact h d
    have hlength := length_distances_add (ports data)
    rw [show (ports data).length = data.length from List.length_map _] at hlength
    rw [hsum]
    omega
  · rw [cycleLengths_eq, repeatDistances_eq, counters, entries_tally_filter]
    rfl

/-- **A counter wraps around** in a log with 2³¹ + 1 packets from one port. -/
theorem samePort_overflows : ¬∀ data : List PacketInfo, CountsRepeats data := by
  intro h
  have hlt := (h (List.replicate (2 ^ 31 + 1) ⟨40000, 0, 0⟩)).repeats_lt 1
  rw [ports, List.map_replicate, repeats_replicate] at hlt
  exact absurd hlt (Nat.lt_irrefl _)

end NatGhost
