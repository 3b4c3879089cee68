import Mathlib.Data.Char
import Mathlib.Data.List.Lex
import NatGhost.Analyzer.PortBits
import NatGhost.Foundation.Adjacent
import NatGhost.Foundation.CountTables
import NatGhost.Foundation.LongestRun

/-!
# Statistics of the bits

`nist_rng_scorecard` writes the ports as a string of `0` and `1` and counts ones, runs of equal
bits, the longest run of ones and the blocks of two bits. `bit_plane_entropy` counts the ones of
each of the sixteen bits on its own.

The numbers have to agree with one another, and do as long as the `int`s among them fit. The blocks
are the neighbours in the string, so both the runs and the edges of the string are among them. Ones
are counted by packet in one function and by bit in the other (`sum_planeCount`).
-/

namespace NatGhost

open OrderedMap

/-! ## The code -/

/-- `bitstream` of `nist_rng_scorecard`. -/
def nistBitstream (data : List PacketInfo) : List Char :=
  data.flatMap fun p ↦ (portBits p.port).map fun bit ↦ if bit ≠ 0 then '1' else '0'

/-- The numbers of `nist_rng_scorecard`. -/
structure NistScorecard where
  ones : ℕ
  zeros : ℕ
  runs : Int32
  maxRun : ℕ
  freq2 : OrderedMap (List Char) Int32

/-- The loop of the runs test, through `bitstream[i - 1]` and `bitstream[i]` for `i` from 1 on. -/
def countRuns (bitstream : List Char) : Int32 :=
  (adjacent bitstream).foldl (fun runs e ↦ if e.2 ≠ e.1 then runs + 1 else runs) 1

/-- One step of the loop for the longest run of ones. -/
def maxRunStep (s : RunScan) (c : Char) : RunScan :=
  let (maxRun, currRun) := (s.maxRun, s.currRun)
  if c = '1' then
    let currRun := currRun + 1
    { maxRun := max maxRun currRun, currRun := currRun }
  else { maxRun := maxRun, currRun := 0 }

/-- `for (size_t i = 0; i + 2 <= bitstream.size(); ++i) freq2[bitstream.substr(i, 2)]++;` -/
def countBlocks (bitstream : List Char) : OrderedMap (List Char) Int32 :=
  (List.range (bitstream.length - 1)).foldl
    (fun freq2 i ↦ freq2.modify 0 (· + 1) ((bitstream.drop i).take 2)) .empty

/-- `nist_rng_scorecard`. -/
def nistRngScorecard (data : List PacketInfo) : NistScorecard :=
  let bitstream := nistBitstream data
  let ones := bitstream.count '1'
  { ones := ones
    zeros := bitstream.length - ones
    runs := countRuns bitstream
    maxRun := (bitstream.foldl maxRunStep { maxRun := 0, currRun := 0 }).maxRun
    freq2 := countBlocks bitstream }

/-- `bit_width`. -/
def bitWidth : ℕ := 16

/-- `ones` of `bit_plane_entropy`. -/
def bitPlaneOnes (data : List PacketInfo) : List Int32 :=
  data.foldl (fun ones p ↦ (List.range bitWidth).foldl
    (fun ones i ↦ if p.port.toNat >>> i &&& 1 ≠ 0 then ones.modify i (· + 1) else ones) ones)
    (List.replicate bitWidth 0)

/-! ## The string -/

section

variable {data : List PacketInfo}

theorem nistBitstream_eq (data : List PacketInfo) :
    nistBitstream data = (bitstream data).map fun bit ↦ if bit ≠ 0 then '1' else '0' := by
  rw [nistBitstream, bitstream, List.map_flatMap]

theorem mem_nistBitstream {c : Char} (h : c ∈ nistBitstream data) : c = '0' ∨ c = '1' := by
  rw [nistBitstream_eq] at h
  obtain ⟨bit, -, rfl⟩ := List.mem_map.mp h
  split_ifs
  · exact Or.inr rfl
  · exact Or.inl rfl

theorem length_nistBitstream (data : List PacketInfo) :
    (nistBitstream data).length = 16 * data.length := by
  rw [nistBitstream_eq, List.length_map, bitstream_eq, length_flatMap_portBits, ports,
    List.length_map]

/-! ## Runs and blocks -/

theorem countRuns_eq (bits : List Char) :
    countRuns bits = Int32.ofNat (1 + (adjacent bits).countP fun e ↦ decide (e.2 ≠ e.1)) :=
  foldl_count_int32 (fun e : Char × Char ↦ e.2 ≠ e.1) 1 (adjacent bits)

theorem countBlocks_eq (bits : List Char) :
    countBlocks bits = counters ((adjacent bits).map fun e ↦ [e.1, e.2]) := by
  rw [← map_range_take_drop, counters, tally, List.foldl_map]
  rfl

theorem countP_blocks (bits : List Char) (a b : Char) :
    ((adjacent bits).map fun e ↦ [e.1, e.2]).countP (fun s ↦ decide (s = [a, b]))
      = follows bits a b := by
  rw [← count_adjacent, List.countP_map, List.count]
  refine List.countP_congr fun e _ ↦ ?_
  rw [Function.comp_apply, decide_eq_true_iff, beq_iff_eq, List.cons.injEq, List.cons.injEq,
    Prod.ext_iff]
  exact and_congr_right fun _ ↦ and_iff_left rfl

theorem getD_countBlocks (bits : List Char) (a b : Char) :
    (countBlocks bits).getD 0 [a, b] = Int32.ofNat (follows bits a b) := by
  rw [countBlocks_eq, getD_counters]
  exact congrArg Int32.ofNat (countP_blocks bits a b)

theorem maxRun_eq (data : List PacketInfo) :
    (nistRngScorecard data).maxRun = (longestRun '1' (nistBitstream data)).maxRun := rfl

/-! ## Planes -/

/-- The packets that have bit `i` set. -/
def planeCount (data : List PacketInfo) (i : ℕ) : ℕ :=
  data.countP fun p ↦ decide (p.port.toNat >>> i &&& 1 ≠ 0)

/-- **The table of the planes**, each an `int`. -/
theorem bitPlaneOnes_eq (data : List PacketInfo) :
    bitPlaneOnes data = (List.range bitWidth).map fun i ↦ Int32.ofNat (planeCount data i) := by
  refine (countTable_eq (fun (p : PacketInfo) i ↦ p.port.toNat >>> i &&& 1 ≠ 0) (0 : Int32) (· + 1)
    bitWidth data).trans (List.map_congr_left fun i _ ↦ ?_)
  rw [iterate_succ_int32, planeCount]

/-- **The ones of the planes** are the ones of the string. -/
theorem sum_planeCount (data : List PacketInfo) :
    ((List.range bitWidth).map (planeCount data)).sum = (nistBitstream data).count '1' := by
  have hport : ∀ p : PacketInfo,
      ((portBits p.port).map fun bit ↦ if bit ≠ 0 then '1' else '0').count '1'
        = (List.range bitWidth).countP fun i ↦ decide (p.port.toNat >>> i &&& 1 ≠ 0) := fun p ↦ by
    rw [portBits, List.map_map, List.count, List.countP_map, List.countP_reverse]
    refine List.countP_congr fun i _ ↦ ?_
    rw [Function.comp_apply, Function.comp_apply, decide_eq_true_iff, beq_iff_eq]
    split_ifs with hset
    · exact iff_of_true rfl hset
    · exact iff_of_false (by decide) hset
  have hplanes := sum_map_countP_comm
    (fun (p : PacketInfo) (i : ℕ) ↦ decide (p.port.toNat >>> i &&& 1 ≠ 0)) data
    (List.range bitWidth)
  calc ((List.range bitWidth).map (planeCount data)).sum
      = (data.map fun p ↦ (List.range bitWidth).countP fun i ↦
          decide (p.port.toNat >>> i &&& 1 ≠ 0)).sum := hplanes.symm
    _ = (nistBitstream data).count '1' := by
      rw [nistBitstream, List.count_flatMap]
      exact congrArg List.sum (List.map_congr_left fun p _ ↦ (hport p).symm)

end

/-! ## Agreement -/

structure BitStatisticsAgree (data : List PacketInfo) : Prop where
  runs : (nistRngScorecard data).runs.toInt
    = 1 + ((nistRngScorecard data).freq2.getD 0 ['0', '1']).toInt
      + ((nistRngScorecard data).freq2.getD 0 ['1', '0']).toInt
  edges : |((nistRngScorecard data).freq2.getD 0 ['0', '1']).toInt
    - ((nistRngScorecard data).freq2.getD 0 ['1', '0']).toInt| ≤ 1
  total : ((nistRngScorecard data).freq2.entries.map fun e ↦ e.2.toInt).sum = 16 * data.length - 1
  longest : IsGreatest {k | List.replicate k '1' <:+: nistBitstream data}
    (nistRngScorecard data).maxRun
  planes : ((nistRngScorecard data).ones : ℤ) = ((bitPlaneOnes data).map Int32.toInt).sum

/-- There are fewer than 2³¹ places in a string where a `0` follows a `0`, where a `1` follows a
`1`, and where a new run begins. -/
structure BlocksFit (bits : List Char) : Prop where
  zeros : follows bits '0' '0' < 2 ^ 31
  ones : follows bits '1' '1' < 2 ^ 31
  runs : 1 + (follows bits '0' '1' + follows bits '1' '0') < 2 ^ 31

section

variable {data : List PacketInfo}

theorem length_sub_one_nistBitstream (data : List PacketInfo) : 16 * data.length - 1
    = follows (nistBitstream data) '0' '0' + follows (nistBitstream data) '0' '1'
      + follows (nistBitstream data) '1' '0' + follows (nistBitstream data) '1' '1' := by
  rw [← length_nistBitstream]
  exact length_sub_one_eq (by decide) fun c hc ↦ mem_nistBitstream hc

theorem runs_eq (data : List PacketInfo) : (nistRngScorecard data).runs = Int32.ofNat
    (1 + (follows (nistBitstream data) '0' '1' + follows (nistBitstream data) '1' '0')) := by
  rw [← countP_adjacent_ne (by decide) fun c hc ↦ mem_nistBitstream hc]
  exact countRuns_eq (nistBitstream data)

theorem getD_freq2 (data : List PacketInfo) (a b : Char) :
    (nistRngScorecard data).freq2.getD 0 [a, b] = Int32.ofNat (follows (nistBitstream data) a b) :=
  getD_countBlocks (nistBitstream data) a b

/-- **The blocks add up** if there are fewer than 2³¹ of each. -/
theorem sum_freq2_eq_iff (hdata : data ≠ []) :
    ((nistRngScorecard data).freq2.entries.map fun e ↦ e.2.toInt).sum = 16 * data.length - 1
      ↔ ∀ a b, follows (nistBitstream data) a b < 2 ^ 31 := by
  have hlength : (((adjacent (nistBitstream data)).map fun e ↦ [e.1, e.2]).length : ℤ)
      = 16 * data.length - 1 := by
    have hpos := List.length_pos_iff.mpr hdata
    rw [List.length_map, length_adjacent, length_nistBitstream]
    omega
  change ((countBlocks (nistBitstream data)).entries.map fun e ↦ e.2.toInt).sum = _ ↔ _
  rw [← hlength, countBlocks_eq, sum_counters_eq_iff]
  constructor
  · intro h a b
    rw [← countP_blocks]
    exact h [a, b]
  · intro h s
    by_contra hge
    obtain ⟨t, ht, hts⟩ := List.countP_pos_iff.mp
      ((Nat.two_pow_pos 31).trans_le (Nat.not_lt.mp hge))
    obtain rfl : t = s := of_decide_eq_true hts
    obtain ⟨e, -, rfl⟩ := List.mem_map.mp ht
    exact hge ((countP_blocks (nistBitstream data) e.1 e.2).trans_lt (h e.1 e.2))

theorem BlocksFit.follows_lt (h : BlocksFit (nistBitstream data)) (a b : Char) :
    follows (nistBitstream data) a b < 2 ^ 31 := by
  have hruns := h.runs
  by_cases hin : (a, b) ∈ adjacent (nistBitstream data)
  · obtain ⟨ha, hb⟩ := List.of_mem_zip hin
    rcases mem_nistBitstream ha with rfl | rfl <;>
      rcases mem_nistBitstream (List.mem_of_mem_tail hb) with rfl | rfl
    · exact h.zeros
    · omega
    · omega
    · exact h.ones
  · rw [← count_adjacent]
    exact (List.count_eq_zero_of_not_mem hin).trans_lt (Nat.two_pow_pos 31)

theorem BlocksFit.length_lt (h : BlocksFit (nistBitstream data)) : data.length < 2 ^ 31 := by
  have hlength := length_sub_one_nistBitstream data
  obtain ⟨hzeros, hones, hruns⟩ := h
  omega

end

/-- **When the numbers agree**: if there are fewer than 2³¹ runs, blocks of zeros and blocks of
ones. -/
theorem bitStatisticsAgree_iff {data : List PacketInfo} (hdata : data ≠ []) :
    BitStatisticsAgree data ↔ BlocksFit (nistBitstream data) := by
  constructor
  · intro h
    -- a counter that wraps around takes 2³² from the total
    have hblocks := (sum_freq2_eq_iff hdata).mp h.total
    have hruns := h.runs
    rw [runs_eq, getD_freq2, getD_freq2, toInt_ofNat_eq_iff.mpr (hblocks '0' '1'),
      toInt_ofNat_eq_iff.mpr (hblocks '1' '0')] at hruns
    refine ⟨hblocks '0' '0', hblocks '1' '1', toInt_ofNat_eq_iff.mp ?_⟩
    omega
  · intro h
    have hexact : ∀ a b, ((nistRngScorecard data).freq2.getD 0 [a, b]).toInt
        = follows (nistBitstream data) a b :=
      fun a b ↦ by rw [getD_freq2, toInt_ofNat_eq_iff.mpr (h.follows_lt a b)]
    have htwo : ∀ c ∈ nistBitstream data, c = '0' ∨ c = '1' := fun c hc ↦ mem_nistBitstream hc
    refine ⟨?_, ?_, ?_, ?_, ?_⟩
    · rw [hexact, hexact, runs_eq, toInt_ofNat_eq_iff.mpr h.runs]
      push_cast
      omega
    · -- rises and falls alternate
      have hrising := follows_le_succ (by decide) htwo
      have hfalling := follows_le_succ (by decide) fun c hc ↦ (htwo c hc).symm
      rw [hexact, hexact, abs_le]
      omega
    · exact (sum_freq2_eq_iff hdata).mpr h.follows_lt
    · rw [maxRun_eq]
      exact isGreatest_maxRun '1' (nistBitstream data)
    · have hplanes : ∀ i ∈ List.range bitWidth, planeCount data i < 2 ^ 31 := fun i _ ↦
        List.countP_le_length.trans_lt h.length_lt
      rw [bitPlaneOnes_eq, List.map_map]
      change (((nistBitstream data).count '1' : ℕ) : ℤ) = _
      rw [← sum_planeCount]
      exact ((sum_toInt_eq_iff (planeCount data) (List.range bitWidth)).mpr hplanes).symm

/-- A log of one packet. -/
theorem bitStatisticsAgree_one : BitStatisticsAgree [⟨40000, 0, 0⟩] :=
  (bitStatisticsAgree_iff (by decide)).mpr ⟨by decide, by decide, by decide⟩

theorem nistBitstream_replicate (n : ℕ) :
    nistBitstream (List.replicate n ⟨0, 0, 0⟩) = List.replicate (n * 16) '0' := by
  have hzero : ((portBits 0).map fun bit ↦ if bit ≠ 0 then '1' else '0')
    = List.replicate 16 '0' := by decide
  rw [nistBitstream, List.flatMap_replicate, hzero]
  exact List.flatten_replicate_replicate

/-- **A counter wraps around** in a log with 2²⁷ + 1 packets from port 0. -/
theorem zeroBlocks_overflow : ¬∀ data : List PacketInfo, data ≠ [] → BitStatisticsAgree data := by
  intro h
  have hdata : List.replicate (2 ^ 27 + 1) (⟨0, 0, 0⟩ : PacketInfo) ≠ [] := List.cons_ne_nil _ _
  have hblocks := (sum_freq2_eq_iff hdata).mp (h _ hdata).total '0' '0'
  rw [nistBitstream_replicate, show (2 ^ 27 + 1) * 16 = 2 ^ 31 + 15 + 1 by decide, ← count_adjacent,
    adjacent_replicate, List.count_replicate_self] at hblocks
  exact absurd hblocks (by decide)

end NatGhost
