import NatGhost.Analyzer.Markov
import NatGhost.Analyzer.RepeatDistances
import NatGhost.Foundation.CounterSums

/-!
# Differences between consecutive ports

Three functions of the analyzer look at consecutive packets: `delta_port_analysis` counts the
differences of their ports, `markov_predictor` the pairs of ports, and `random_walk_analysis` adds
the differences up. A fourth, `repetition_distance_analysis`, counts a distance of one for each
packet with the port of the packet before. So their numbers are not independent (`DeltasAgree`): a
difference has as many packets as the pairs with this difference together, difference zero as many
as distance one, and the differences add up to that of the first and the last port.

The counters are `int`, and a log may be so long that they wrap around. What is said about sums
holds modulo 2³² in any case.
-/

namespace NatGhost

open OrderedMap

/-! ## The code -/

/-- `(int)data[i].port - (int)data[i - 1].port`. -/
def portDelta (prev curr : UInt16) : ℤ := curr.toNat - prev.toNat

/-- `delta_hist`. The loop goes through `data[i - 1].port` and `data[i].port` for `i` from 1 on. -/
def deltaHist (data : List PacketInfo) : OrderedMap ℤ Int32 :=
  (adjacent (ports data)).foldl
    (fun deltaHist (prev, curr) ↦ deltaHist.modify 0 (· + 1) (portDelta prev curr)) .empty

/-- The printing loop from some entry on, with `count` entries printed:
`if (++count == 10) break;`. -/
def printDeltas (count : ℕ) : List (ℤ × Int32) → List (ℤ × Int32)
  | [] => []
  | e :: es => if count + 1 = 10 then [e] else e :: printDeltas (count + 1) es

/-- What `delta_port_analysis` prints. -/
def deltaPortAnalysis (data : List PacketInfo) : List (ℤ × Int32) :=
  printDeltas 0 (deltaHist data).entries

/-- The loop of `random_walk_analysis` behind a packet with port `prev`, for which `walk` has been
computed. -/
def randomWalkLoop (walk : Int32) (prev : UInt16) : List UInt16 → List Int32
  | [] => []
  | port :: rest =>
    let next := walk + Int32.ofInt (portDelta prev port)
    next :: randomWalkLoop next port rest

/-- `walk`. -/
def randomWalkAnalysis (data : List PacketInfo) : List Int32 :=
  match ports data with
  | [] => []
  | port :: rest => 0 :: randomWalkLoop 0 port rest

/-! ## Differences -/

theorem portDelta_bounds (prev curr : UInt16) :
    -65535 ≤ portDelta prev curr ∧ portDelta prev curr ≤ 65535 := by
  have hprev := prev.toNat_lt
  have hcurr := curr.toNat_lt
  rw [portDelta]
  omega

theorem portDelta_add (a b c : UInt16) : portDelta a b + portDelta b c = portDelta a c := by
  rw [portDelta, portDelta, portDelta]
  omega

theorem portDelta_eq_zero_iff {prev curr : UInt16} : portDelta prev curr = 0 ↔ prev = curr := by
  rw [portDelta, ← UInt16.toNat_inj]
  omega

def deltas (data : List PacketInfo) : List ℤ :=
  (adjacent (ports data)).map fun e ↦ portDelta e.1 e.2

/-- **The histogram counts the differences.** -/
theorem deltaHist_eq (data : List PacketInfo) : deltaHist data = counters (deltas data) := by
  rw [deltaHist, counters, tally, deltas, List.foldl_map]

/-- **The differences add up.** -/
theorem sum_map_portDelta_adjacent (first : UInt16) (rest : List UInt16) :
    ((adjacent (first :: rest)).map fun e ↦ portDelta e.1 e.2).sum
      = portDelta first ((first :: rest).getLast (List.cons_ne_nil _ _)) := by
  induction rest generalizing first with
  | nil => exact (portDelta_eq_zero_iff.mpr rfl).symm
  | cons next rest ih =>
    rw [adjacent_cons_cons, List.map_cons, List.sum_cons, ih, portDelta_add,
      List.getLast_cons (List.cons_ne_nil next rest)]

theorem repeats_one (xs : List UInt16) :
    repeats xs 1 = (adjacent xs).countP fun e ↦ decide (e.1 = e.2) := by
  induction xs using List.reverseRecOn with
  | nil => rfl
  | append_singleton xs x ih =>
    rw [repeats_concat, ih]
    induction xs using List.reverseRecOn with
    | nil => rfl
    | append_singleton xs y =>
      have hrepeat : IsRepeat (xs ++ [y] ++ [x]) 1 (xs ++ [y]).length ↔ y = x := by
        have hbefore : (xs ++ [y] ++ [x])[(xs ++ [y]).length - 1]? = some y := by simp
        rw [IsRepeat, List.getElem?_concat_length, hbefore, Option.some.injEq]
        constructor
        · exact fun h ↦ h.2.2.1
        · exact fun h ↦ ⟨Nat.one_pos, by simp, h, fun j hj hlt ↦ by omega⟩
      rw [adjacent_concat_concat, List.countP_append, List.countP_singleton]
      simp only [hrepeat, decide_eq_true_iff]

theorem printDeltas_eq_take (count : ℕ) (es : List (ℤ × Int32)) (hcount : count < 10) :
    printDeltas count es = es.take (10 - count) := by
  induction es generalizing count with
  | nil => exact List.take_nil.symm
  | cons e es ih =>
    have hsucc : 10 - count = 10 - (count + 1) + 1 := by omega
    rw [printDeltas, hsucc, List.take_succ_cons]
    split_ifs with hlast
    · rw [hlast, Nat.sub_self, List.take_zero]
    · rw [ih (count + 1) (by omega)]

/-- **The walk never leaves the range of `int`**: it is at the difference to the first port. -/
theorem map_toInt_randomWalkLoop {walk : Int32} {first prev : UInt16}
    (hwalk : walk.toInt = portDelta first prev) (rest : List UInt16) :
    (randomWalkLoop walk prev rest).map Int32.toInt = rest.map (portDelta first) := by
  induction rest generalizing walk prev with
  | nil => rfl
  | cons port rest ih =>
    have hnext : (walk + Int32.ofInt (portDelta prev port)).toInt = portDelta first port := by
      obtain ⟨hlow, hhigh⟩ := portDelta_bounds first port
      rw [Int32.toInt_add, Int32.toInt_ofInt, hwalk, Int.add_bmod_bmod, portDelta_add]
      have hsize : Int32.size = 2 ^ 32 := rfl
      exact Int.bmod_eq_of_le (by omega) (by omega)
    rw [randomWalkLoop, List.map_cons, List.map_cons, hnext, ih hnext]

structure DeltasAgree (data : List PacketInfo) : Prop where
  /-- Difference zero is distance one. -/
  repeated : (deltaHist data).getD 0 0 = (repeatDistances data).getD 0 1
  /-- A difference is that of some pairs. -/
  transitions : ∀ d, ((deltaHist data).getD 0 d).toInt
    ≡ ((transitions data).entries.map fun row ↦ (row.2.entries.map fun e ↦
        (if portDelta row.1 e.1 = d then 1 else 0) * e.2.toInt).sum).sum [ZMOD 2 ^ 32]
  /-- All packets but the first have a difference. -/
  number : ((deltaHist data).entries.map fun e ↦ e.2.toInt).sum ≡ (data.length - 1 : ℕ)
    [ZMOD 2 ^ 32]
  /-- The differences lead from the first port to the last one. -/
  telescope : ∀ first last, (ports data).head? = some first → (ports data).getLast? = some last →
    ((deltaHist data).entries.map fun e ↦ e.1 * e.2.toInt).sum ≡ portDelta first last
      [ZMOD 2 ^ 32]
  /-- The walk is at the difference to the first port. -/
  walk : ∀ first, (ports data).head? = some first →
    (randomWalkAnalysis data).map Int32.toInt = (ports data).map (portDelta first)
  /-- Printed are the smallest differences that occur, in increasing order. -/
  printed : deltaPortAnalysis data = (deltaHist data).entries.take 10 ∧
    (deltaHist data).keys.Pairwise (· < ·) ∧
    ∀ d, d ∈ (deltaHist data).keys ↔ ∃ e ∈ adjacent (ports data), portDelta e.1 e.2 = d

/-- **What the analyzer says about consecutive packets fits together**, for every log. -/
theorem deltasAgree (data : List PacketInfo) : DeltasAgree data where
  repeated := by
    rw [deltaHist_eq, getD_counters, getD_repeatDistances, repeats_one, deltas, List.count,
      List.countP_map]
    refine congrArg Int32.ofNat (List.countP_congr fun e _ ↦ ?_)
    rw [Function.comp_apply, beq_iff_eq, portDelta_eq_zero_iff, decide_eq_true_iff]
  transitions d := by
    have htable := sum_tallyPairs_mul (fun a b ↦ if portDelta a b = d then 1 else 0)
      (adjacent (ports data))
    have hcount : ((adjacent (ports data)).map fun e ↦
        if portDelta e.1 e.2 = d then (1 : ℤ) else 0).sum = (deltas data).count d := by
      rw [deltas, List.count, List.countP_map]
      induction adjacent (ports data) with
      | nil => rfl
      | cons e es ih =>
        rw [List.map_cons, List.sum_cons, ih, List.countP_cons]
        by_cases hd : portDelta e.1 e.2 = d
        · simp [hd, add_comm]
        · simp [hd]
    rw [deltaHist_eq, getD_counters]
    exact (toInt_ofNat_modEq _).trans (hcount ▸ htable.symm)
  number := by
    have hsum := sum_counters_mul (fun _ ↦ 1) (deltas data)
    have hlength : (deltas data).length = data.length - 1 := by
      rw [deltas, List.length_map, length_adjacent, ports, List.length_map]
    simp only [one_mul, List.map_const', List.sum_replicate, nsmul_eq_mul, mul_one, hlength] at hsum
    rw [deltaHist_eq]
    exact hsum
  telescope first last hfirst hlast := by
    have hsum := sum_counters_mul (fun d ↦ d) (deltas data)
    rw [deltaHist_eq]
    obtain ⟨rest, hports⟩ := List.head?_eq_some_iff.mp hfirst
    rw [hports, List.getLast?_eq_some_getLast (List.cons_ne_nil _ _), Option.some.injEq] at hlast
    have htotal : ((deltas data).map fun d ↦ d).sum = portDelta first last := by
      rw [List.map_id', deltas, hports, sum_map_portDelta_adjacent, hlast]
    exact htotal ▸ hsum
  walk first hfirst := by
    obtain ⟨rest, hports⟩ := List.head?_eq_some_iff.mp hfirst
    have hzero : portDelta first first = 0 := portDelta_eq_zero_iff.mpr rfl
    rw [randomWalkAnalysis, hports]
    simp only [List.map_cons]
    rw [map_toInt_randomWalkLoop (by rw [hzero]; rfl), hzero]
    rfl
  printed := by
    refine ⟨printDeltas_eq_take 0 _ (by decide), ?_, fun d ↦ ?_⟩
    · rw [keys, List.pairwise_map]
      exact (deltaHist data).sorted
    · rw [deltaHist_eq, counters, mem_keys_tally, deltas, List.mem_map]

end NatGhost
