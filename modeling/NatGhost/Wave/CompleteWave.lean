import Mathlib.Data.List.NodupEquivFin
import NatGhost.Analyzer.ModularBias
import NatGhost.Analyzer.RepeatDistances
import NatGhost.Analyzer.UniformBuckets
import NatGhost.Wave.EndToEnd

/-!
# What the analyzer says about a complete wave

A wave sends to every port, so an analysis of what arrives should find nothing: each port once, no
repetitions and no cycles, no bias of the residues, and equal buckets. If everything arrives, in any
order, that is what the analyzer says, except for one thing. Where the kernel refuses port 0, the
batch of 512 ports behind it is not sent, and the first two of the 256 buckets are empty. The modulo
test does not notice: the residues of consecutive numbers are as even as they can be, wherever the
numbers begin.
-/

namespace NatGhost

/-! ## Consecutive numbers -/

theorem range'_split {a n p w : ℕ} (hle : a ≤ p) (hn : p + w ≤ a + n) : List.range' a n
    = List.range' a (p - a) ++ (List.range' p w ++ List.range' (p + w) (a + n - (p + w))) := by
  obtain ⟨k, rfl⟩ := Nat.exists_eq_add_of_le hle
  rw [Nat.add_sub_cancel_left, List.range'_append_1, List.range'_append_1]
  congr 1
  omega

section

variable {m : ℕ}

theorem nodup_map_mod_range' {n : ℕ} (a : ℕ) (hn : n ≤ m) :
    ((List.range' a n).map fun x ↦ x % m).Nodup := by
  refine List.Nodup.map_on (fun x hx y hy hxy ↦ ?_) List.nodup_range'
  rw [List.mem_range'_1] at hx hy
  refine Nat.ModEq.eq_of_abs_lt hxy ?_
  rw [abs_lt]
  omega

theorem countP_mod_range'_self (a : ℕ) {r : ℕ} (hr : r < m) :
    (List.range' a m).countP (fun x ↦ decide (x % m = r)) = 1 := by
  have hcount : (List.range' a m).countP (fun x ↦ decide (x % m = r))
      = ((List.range' a m).map fun x ↦ x % m).count r := by
    rw [List.count, List.countP_map]
    exact List.countP_congr fun x _ ↦ by rw [Function.comp_apply, beq_iff_eq, decide_eq_true_iff]
  rw [hcount]
  refine List.count_eq_one_of_mem (nodup_map_mod_range' a le_rfl) (List.mem_map.mpr
    ⟨a + (r + (m - a % m)) % m, ?_, ?_⟩)
  · have hlt := Nat.mod_lt (r + (m - a % m)) (show 0 < m by omega)
    rw [List.mem_range'_1]
    omega
  · have hsplit : a + (r + (m - a % m)) = r + m * (a / m + 1) := by
      have hdiv := Nat.div_add_mod a m
      have hlt := Nat.mod_lt a (show 0 < m by omega)
      rw [Nat.mul_add, Nat.mul_one]
      omega
    rw [Nat.add_mod_mod, hsplit, Nat.add_mul_mod_self_left, Nat.mod_eq_of_lt hr]

/-- **The residues of consecutive numbers are even.** -/
theorem countP_mod_range'_bounds (a n : ℕ) {r : ℕ} (hr : r < m) :
    n / m ≤ (List.range' a n).countP (fun x ↦ decide (x % m = r)) ∧
      (List.range' a n).countP (fun x ↦ decide (x % m = r)) ≤ n / m + 1 := by
  induction n using Nat.strong_induction_on generalizing a with
  | _ n ih =>
    rcases Nat.lt_or_ge n m with hlt | hge
    · rw [Nat.div_eq_of_lt hlt]
      refine ⟨Nat.zero_le _, ?_⟩
      have hsub : (List.range' a n).Sublist (List.range' a m) :=
        List.range'_sublist_right.mpr hlt.le
      exact hsub.countP_le.trans (countP_mod_range'_self a hr).le
    · have hsplit : List.range' a n = List.range' a m ++ List.range' (a + m) (n - m) := by
        rw [List.range'_append_1, Nat.add_sub_cancel' hge]
      have hdiv : n / m = (n - m) / m + 1 := Nat.div_eq_sub_div (by omega) hge
      obtain ⟨hlow, hhigh⟩ := ih (n - m) (by omega) (a + m)
      rw [hsplit, List.countP_append, countP_mod_range'_self a hr, hdiv]
      omega

end

/-! ## One packet from each port -/

/-- There is one packet from each port from `lost` on, and no other. -/
def FromEachPort (lost : ℕ) (data : List PacketInfo) : Prop :=
  ∀ port : UInt16, (ports data).count port = if lost ≤ port.toNat then 1 else 0

section

variable {lost : ℕ} {data : List PacketInfo}

theorem FromEachPort.nodup (h : FromEachPort lost data) : (ports data).Nodup := by
  refine List.nodup_iff_count_le_one.mpr fun port ↦ ?_
  rw [h port]
  split_ifs
  · exact le_rfl
  · exact Nat.zero_le 1

theorem FromEachPort.perm (h : FromEachPort lost data) :
    ((ports data).map UInt16.toNat).Perm (List.range' lost (65536 - lost)) := by
  refine (List.perm_ext_iff_of_nodup (h.nodup.map fun _ _ ↦ UInt16.toNat_inj.mp)
    List.nodup_range').mpr fun k ↦ ?_
  have hmem (port : UInt16) : port ∈ ports data ↔ lost ≤ port.toNat := by
    rw [← List.count_pos_iff, h port]
    split_ifs with hlost
    · exact iff_of_true Nat.one_pos hlost
    · exact iff_of_false (Nat.lt_irrefl 0) hlost
  rw [List.mem_map, List.mem_range'_1]
  constructor
  · rintro ⟨port, hport, rfl⟩
    have hlt := port.toNat_lt
    have hlost := (hmem port).mp hport
    omega
  · intro hk
    have hk' : (UInt16.ofNat k).toNat = k := UInt16.toNat_ofNat_of_lt' (show k < 65536 by omega)
    exact ⟨UInt16.ofNat k, (hmem _).mpr (by omega), hk'⟩

theorem FromEachPort.countP_eq (h : FromEachPort lost data) (q : ℕ → Bool) :
    data.countP (fun p ↦ q p.port.toNat) = (List.range' lost (65536 - lost)).countP q := by
  rw [← h.perm.countP_eq, ports, List.map_map, List.countP_map]
  rfl

theorem FromEachPort.length_eq (h : FromEachPort lost data) : data.length = 65536 - lost := by
  have hlength := h.perm.length_eq
  rwa [List.length_map, ports, List.length_map, List.length_range'] at hlength

theorem FromEachPort.distances_eq_nil (h : FromEachPort lost data) :
    (lastSeen (ports data)).distances = [] := by
  have hlength := length_distances_add (ports data)
  rw [h.nodup.dedup] at hlength
  exact List.length_eq_zero_iff.mp (by omega)

theorem FromEachPort.noBias (h : FromEachPort lost data) {modBase : Int32}
    (hpos : 0 < modBase.toInt) (hmany : modBase.toInt.toNat * 10 ≤ 65536 - lost) :
    NoBias data modBase := by
  have hcount (r : ℕ) : residueCount data modBase r
      = (List.range' lost (65536 - lost)).countP fun x ↦
        decide (x % modBase.toInt.toNat = r) :=
    h.countP_eq fun x ↦ decide (x % modBase.toInt.toNat = r)
  refine (noBias_iff_spread hpos).mpr ⟨fun r ↦ ?_, by omega, fun i hi j hj ↦ ?_⟩
  · have hle : residueCount data modBase r ≤ data.length := List.countP_le_length
    rw [h.length_eq] at hle
    omega
  · have hi' := (countP_mod_range'_bounds lost (65536 - lost) hi).2
    have hj' := (countP_mod_range'_bounds lost (65536 - lost) hj).1
    have hone : 1 ≤ data.length / (modBase.toInt.toNat * 10) := by
      rw [h.length_eq]
      exact (Nat.one_le_div_iff (by omega)).mpr hmany
    rw [hcount, hcount]
    omega

theorem countP_bucket {b : ℕ} (hlost : lost % 256 = 0) (hb : b < 256) :
    (List.range' lost (65536 - lost)).countP (fun x ↦ decide (x / 256 = b))
      = if lost ≤ 256 * b then 256 else 0 := by
  split_ifs with hle
  · rw [range'_split (p := 256 * b) (w := 256) hle (by omega), List.countP_append,
      List.countP_append, List.countP_eq_zero.mpr,
      List.countP_eq_length.mpr, List.countP_eq_zero.mpr, List.length_range']
    · intro x hx
      rw [List.mem_range'_1] at hx
      rw [decide_eq_true_iff]
      omega
    · intro x hx
      rw [List.mem_range'_1] at hx
      rw [decide_eq_true_iff]
      omega
    · intro x hx
      rw [List.mem_range'_1] at hx
      rw [decide_eq_true_iff]
      omega
  · refine List.countP_eq_zero.mpr fun x hx ↦ ?_
    rw [List.mem_range'_1] at hx
    rw [decide_eq_true_iff]
    omega

theorem FromEachPort.uniformityBuckets_eq (h : FromEachPort lost data) (hlost : lost % 256 = 0) :
    uniformityBuckets data 256
      = some ((List.range 256).map fun b ↦ if lost ≤ 256 * b then 256 else 0) := by
  have hc : (256 : Int32).toInt = ((256 : ℕ) : ℤ) := by decide
  have hbucket (b : ℕ) : bucketPackets data 256 b
      = (List.range' lost (65536 - lost)).countP fun x ↦ decide (x / 256 = b) := by
    rw [← h.countP_eq]
    refine List.countP_congr fun p _ ↦ ?_
    rw [decide_eq_true_iff, decide_eq_true_iff, bucketIndex_eq hc (by decide), Option.some_inj,
      Nat.cast_inj]
    omega
  refine (uniformityBuckets_eq_some_iff hc (by decide) (by decide)).mpr ⟨fun b ↦ ?_, ?_⟩
  · have hle : bucketPackets data 256 b ≤ data.length := List.countP_le_length
    rw [h.length_eq] at hle
    omega
  · refine List.map_congr_left fun b hb ↦ ?_
    rw [count_indices hc (by decide), hbucket, countP_bucket hlost (List.mem_range.mp hb)]
    split_ifs <;> rfl

end

/-! ## The verdicts -/

/-- What the analyzer says about a wave that has lost the ports below `lost`, and no others. -/
structure CompleteVerdicts (lost : ℕ) (data : List PacketInfo) : Prop where
  frequencies : ∀ e ∈ (freq data).entries, e.2 = 1
  noRepeats : (repeatDistances data).entries = []
  noCycles : (cycleLengths data).entries = []
  /-- With ten packets for each residue no bias is reported. -/
  noBias : ∀ modBase : Int32, 0 < modBase.toInt → modBase.toInt.toNat * 10 ≤ 65536 - lost →
    NoBias data modBase
  /-- The 256 buckets are full, or empty where the ports are lost. -/
  buckets : uniformityBuckets data 256
    = some ((List.range 256).map fun b ↦ if lost ≤ 256 * b then 256 else 0)

theorem FromEachPort.verdicts {lost : ℕ} {data : List PacketInfo} (h : FromEachPort lost data)
    (hlost : lost % 256 = 0) : CompleteVerdicts lost data where
  frequencies e he := by
    obtain ⟨hport, hcount⟩ := mem_freq_iff.mp he
    rw [hcount, List.count_eq_one_of_mem h.nodup hport]
    rfl
  noRepeats := by
    rw [repeatDistances_eq, h.distances_eq_nil]
    rfl
  noCycles := by
    rw [cycleLengths_eq, h.distances_eq_nil]
    rfl
  noBias _ hpos hmany := h.noBias hpos hmany
  buckets := h.uniformityBuckets_eq hlost

/-- The ports that are lost if at most port 0 is refused. -/
def lostPorts (refused : UInt16 → Bool) : ℕ := if refused 0 then portsPerThread else 0

theorem unobstructed_iff {refused : UInt16 → Bool} (hrefused : ∀ p, refused p = true → p = 0)
    (port : UInt16) : Unobstructed refused port ↔ lostPorts refused ≤ port.toNat := by
  rw [lostPorts]
  cases hzero : refused 0 with
  | false =>
    refine iff_of_true (fun q _ _ ↦ Bool.eq_false_iff.mpr fun hq ↦ ?_) (Nat.zero_le _)
    rw [hrefused q hq, hzero] at hq
    exact Bool.false_ne_true hq
  | true =>
    rw [if_pos rfl]
    constructor
    · intro hclear
      by_contra hlt
      have hbatch : (0 : UInt16).toNat / portsPerThread = port.toNat / portsPerThread := by
        rw [Nat.div_eq_of_lt (Nat.not_le.mp hlt)]
        rfl
      have hfree := hclear 0 hbatch (UInt16.le_iff_toNat_le.mpr (Nat.zero_le _))
      exact Bool.false_ne_true (hfree.symm.trans hzero)
    · intro hle q hq _
      refine Bool.eq_false_iff.mpr fun hrefuse ↦ ?_
      have hone := (Nat.one_le_div_iff (show 0 < portsPerThread by decide)).mpr hle
      rw [← hq, hrefused q hrefuse] at hone
      exact absurd hone (by decide)

/-- **The verdict on a complete wave.** If every thread has been created and got its socket, the
kernel refuses no port but port 0, all threads of the wave have been joined, and everything they
have sent arrives once, in any order, under any headers and between any foreign frames, then the log
has one packet from each port, except for the batch of port 0 where that is refused. The analyzer
finds no repetition, no cycle and no bias for any modulus with ten packets for each residue, and its
buckets are full except for the lost ports. -/
theorem completeWave_verdicts (stale : ℕ → Vector UInt8 20) (refused : UInt16 → Bool)
    (hrefused : ∀ p, refused p = true → p = 0) {log : List (Fin threadCount × BurstMessage)}
    {s' : Fin threadCount → BurstThread}
    (hrun : Interleaved (BurstThread.next refused) (burstThreads stale) log s')
    (hjoined : Joined (BurstThread.next refused) s') (buf : ℕ → UInt8) (arrivals : List Arrival)
    (hperm : ((datagrams arrivals).map BurstDatagram.message).Perm (log.map Prod.snd)) :
    let records := loadPacketData (some
      ((arrivals.map Arrival.event).foldl Sniffer.receive (Sniffer.start buf)).logFile.flatten)
    FromEachPort (lostPorts refused) records ∧
      CompleteVerdicts (lostPorts refused) records := by
  intro records
  have heach : FromEachPort (lostPorts refused) records := fun port ↦ by
    rcases count_port_of_complete hrun hjoined buf hperm port with ⟨hone, hclear⟩ | ⟨hzero, hnot⟩
    · rw [if_pos ((unobstructed_iff hrefused port).mp hclear)]
      exact hone
    · rw [if_neg fun hle ↦ hnot ((unobstructed_iff hrefused port).mpr hle)]
      exact hzero
  refine ⟨heach, heach.verdicts ?_⟩
  rw [lostPorts]
  split_ifs <;> rfl

/-- On Linux, which refuses port 0, the first two buckets are empty and no bias is reported. -/
theorem completeWave_verdicts_linux : ∃ records : List PacketInfo, NoBias records 256 ∧
    uniformityBuckets records 256 = some ([0, 0] ++ List.replicate 254 256) := by
  obtain ⟨log, s', arrivals, hrun, hjoined, hmessages⟩ := exists_complete fun p ↦ decide (p = 0)
  obtain ⟨-, hverdicts⟩ := completeWave_verdicts _ (fun p ↦ decide (p = 0))
    (fun p hp ↦ of_decide_eq_true hp) hrun hjoined (fun _ ↦ 0) arrivals
    (hmessages ▸ List.Perm.refl _)
  exact ⟨_, hverdicts.noBias 256 (by decide) (by decide),
    hverdicts.buckets.trans (congrArg some (by decide +kernel))⟩

end NatGhost
