import NatGhost.Foundation.Comparator
import NatGhost.Foundation.IntCounters
import NatGhost.Wave.PacketLog

/-!
# Port suggestions

`predictive_hint_generator` counts how often each port occurs in the log, sorts the counts and
prints the first of them as the ports to expect next. Its comparator says `b.second > a.second`, so
that a port with *fewer* hits comes first, while the same ranking in `port_histogram` says
`b.second < a.second` and is commented as descending. The suggestions are therefore the rarest
ports, and right only if all ports occur equally often.

Counts are `int`, which is visible only for ports with more than 2³¹ - 1 hits.
-/

namespace NatGhost

/-! ## The code -/

def ports (data : List PacketInfo) : List UInt16 := data.map PacketInfo.port

/-- `for (const auto& p : data) freq[p.port]++;` -/
def freq (data : List PacketInfo) : OrderedMap UInt16 Int32 := .tally 0 (· + 1) (ports data)

/-- The comparator of `predictive_hint_generator`. -/
def hintLess (a b : UInt16 × Int32) : Bool := decide (b.2 > a.2)

/-- What `predictive_hint_generator` may print, line by line. -/
def PrintsHints (data : List PacketInfo) (topN : ℕ) (printed : List (UInt16 × Int32)) : Prop :=
  ∃ sorted, Sorts hintLess (freq data).entries sorted ∧ printed = sorted.take topN

/-- `PORT_COUNT`. -/
def portCount : ℕ := 65536

/-- `TOP_N`. -/
def topPorts : ℕ := 2048

/-- `histogram` in `port_histogram`: the ports with collisions. -/
def histogram (collisions : Fin portCount → UInt32) : List (Fin portCount × UInt32) :=
  ((List.finRange portCount).filter fun i ↦ decide (collisions i > 0)).map fun i ↦ (i, collisions i)

/-- The comparator of `port_histogram`. -/
def histogramLess (a b : Fin portCount × UInt32) : Bool := decide (b.2 < a.2)

/-- What `port_histogram` may print, line by line. -/
def PrintsHistogram (collisions : Fin portCount → UInt32)
    (printed : List (Fin portCount × UInt32)) : Prop :=
  ∃ sorted, Sorts histogramLess (histogram collisions) sorted ∧ printed = sorted.take topPorts

/-! ## The frequencies -/

section

variable {data : List PacketInfo}

theorem mem_freq_iff {e : UInt16 × Int32} :
    e ∈ (freq data).entries ↔ e.1 ∈ ports data ∧ e.2 = Int32.ofNat ((ports data).count e.1) :=
  OrderedMap.mem_counters_iff

theorem mem_freq_of_mem_ports {p : UInt16} (hp : p ∈ ports data) :
    (p, Int32.ofNat ((ports data).count p)) ∈ (freq data).entries :=
  mem_freq_iff.mpr ⟨hp, rfl⟩

theorem length_freq (data : List PacketInfo) :
    (freq data).entries.length = (ports data).dedup.length :=
  OrderedMap.length_counters (ports data)

theorem toInt_of_mem_freq {e : UInt16 × Int32} (he : e ∈ (freq data).entries)
    (hfits : (ports data).count e.1 < 2 ^ 31) : e.2.toInt = (ports data).count e.1 := by
  rw [(mem_freq_iff.mp he).2]
  exact Int32.toInt_ofNat_of_lt hfits

end

/-! ## Correct suggestions -/

/-- The ports that are printed are the most frequent ones, with their numbers of occurrences. -/
structure SuggestsMostFrequent (data : List PacketInfo) (topN : ℕ)
    (printed : List (UInt16 × Int32)) : Prop where
  number : printed.length = min topN (ports data).dedup.length
  distinct : (printed.map Prod.fst).Nodup
  exact_count : ∀ e ∈ printed, e.1 ∈ ports data ∧ e.2.toInt = (ports data).count e.1
  descending : printed.Pairwise fun a b ↦ b.2 ≤ a.2
  top : ∀ e ∈ printed, ∀ p ∈ ports data, p ∉ printed.map Prod.fst →
    (ports data).count p ≤ (ports data).count e.1

def EquallyFrequent (data : List PacketInfo) : Prop :=
  ∃ c < 2 ^ 31, ∀ p ∈ ports data, (ports data).count p = c

theorem strictWeakOrder_hintLess : StrictWeakOrder hintLess :=
  strictWeakOrder_of_key (fun e ↦ e.2.toInt) fun a b ↦ by
    rw [hintLess, decide_eq_true_iff, gt_iff_lt, Int32.lt_iff_toInt_lt]

section

variable {data : List PacketInfo} {topN : ℕ} {printed sorted : List (UInt16 × Int32)}

theorem nodup_map_fst_take (h : Sorts hintLess (freq data).entries sorted) (k : ℕ) :
    ((sorted.take k).map Prod.fst).Nodup := by
  have hsorted : (sorted.map Prod.fst).Nodup :=
    (h.perm.map Prod.fst).nodup_iff.mpr (OrderedMap.nodup_keys (freq data))
  exact hsorted.sublist ((List.take_sublist k sorted).map Prod.fst)

theorem mem_freq_of_mem_take (h : Sorts hintLess (freq data).entries sorted) {k : ℕ}
    {e : UInt16 × Int32} (he : e ∈ sorted.take k) : e ∈ (freq data).entries :=
  h.perm.mem_iff.mp (List.mem_of_mem_take he)

theorem EquallyFrequent.suggests (heq : EquallyFrequent data) (h : PrintsHints data topN printed) :
    SuggestsMostFrequent data topN printed := by
  obtain ⟨sorted, hsorted, rfl⟩ := h
  obtain ⟨c, hc, heq⟩ := heq
  have hport : ∀ e ∈ sorted.take topN, e.1 ∈ ports data ∧ e.2 = Int32.ofNat c := by
    intro e he
    obtain ⟨hmem, hcount⟩ := mem_freq_iff.mp (mem_freq_of_mem_take hsorted he)
    rw [heq e.1 hmem] at hcount
    exact ⟨hmem, hcount⟩
  refine ⟨?_, nodup_map_fst_take hsorted topN, fun e he ↦ ?_, ?_, fun e he p hp _ ↦ ?_⟩
  · rw [hsorted.length_take, length_freq]
  · have hmem := (hport e he).1
    refine ⟨hmem, toInt_of_mem_freq (mem_freq_of_mem_take hsorted he) ?_⟩
    rwa [heq e.1 hmem]
  · refine List.pairwise_of_forall_mem_list fun a ha b hb ↦ ?_
    rw [(hport a ha).2, (hport b hb).2]
    exact Int32.le_refl _
  · rw [heq p hp, heq e.1 (hport e he).1]

theorem equallyFrequent_of_suggests (htop : topN ≠ 0)
    (h : ∀ printed, PrintsHints data topN printed → SuggestsMostFrequent data topN printed) :
    EquallyFrequent data := by
  obtain ⟨sorted, hsorted⟩ := exists_sorts strictWeakOrder_hintLess (freq data).entries
  have hright := h _ ⟨sorted, hsorted, rfl⟩
  obtain ⟨k, rfl⟩ := Nat.exists_eq_succ_of_ne_zero htop
  cases sorted with
  | nil =>
    refine ⟨0, by decide, fun p hp ↦ ?_⟩
    have hentry := hsorted.perm.mem_iff.mpr (mem_freq_of_mem_ports hp)
    exact absurd hentry List.not_mem_nil
  | cons first rest =>
    rw [List.take_succ_cons] at hright
    obtain ⟨-, hfirst⟩ := hright.exact_count first List.mem_cons_self
    have hfits : (ports data).count first.1 < 2 ^ 31 := by
      have hlt := Int32.toInt_lt first.2
      omega
    -- no port occurs more often than the first one, whether it is printed or not
    have hmost : ∀ p ∈ ports data, (ports data).count p ≤ (ports data).count first.1 := by
      intro p hp
      by_cases hprinted : p ∈ (first :: rest.take k).map Prod.fst
      · obtain ⟨e, he, rfl⟩ := List.mem_map.mp hprinted
        rcases List.mem_cons.mp he with rfl | he'
        · exact le_rfl
        · have hle := (List.pairwise_cons.mp hright.descending).1 e he'
          rw [Int32.le_iff_toInt_le, hfirst, (hright.exact_count e he).2] at hle
          exact Int.ofNat_le.mp hle
      · exact hright.top first List.mem_cons_self p hp hprinted
    refine ⟨(ports data).count first.1, hfits, fun p hp ↦ le_antisymm (hmost p hp) ?_⟩
    have hentry := mem_freq_of_mem_ports hp
    have hcount := toInt_of_mem_freq hentry ((hmost p hp).trans_lt hfits)
    rcases List.mem_cons.mp (hsorted.perm.mem_iff.mpr hentry) with heq | hrest
    · rw [← heq]
    · have hle := (List.pairwise_cons.mp hsorted.ordered).1 _ hrest
      rw [hintLess, decide_eq_false_iff_not, gt_iff_lt, Int32.lt_iff_toInt_lt, hfirst,
        hcount] at hle
      exact Int.ofNat_le.mp (Int.not_lt.mp hle)

end

/-- **When the suggestions are right.** Whatever `std::sort` does with equal counts, the ports
printed are the most frequent ones exactly if none is asked for or all ports occur equally often. -/
theorem suggestsMostFrequent_iff (data : List PacketInfo) (topN : ℕ) :
    (∀ printed, PrintsHints data topN printed → SuggestsMostFrequent data topN printed)
      ↔ topN = 0 ∨ EquallyFrequent data := by
  constructor
  · intro h
    by_cases htop : topN = 0
    · exact Or.inl htop
    · exact Or.inr (equallyFrequent_of_suggests htop h)
  · rintro (rfl | heq) printed hprinted
    · obtain ⟨sorted, hsorted, rfl⟩ := hprinted
      rw [List.take_zero]
      refine ⟨(Nat.zero_min _).symm, List.nodup_nil, fun e he ↦ ?_, List.Pairwise.nil,
        fun e he ↦ ?_⟩
      · exact absurd he List.not_mem_nil
      · exact absurd he List.not_mem_nil
    · exact heq.suggests hprinted

def threePackets : List PacketInfo :=
  [⟨40000, 0, 0⟩, ⟨40000, 1, 1⟩, ⟨50000, 2, 2⟩]

/-- The one suggestion is the port that occurs once, not the one that occurs twice. -/
theorem rarestPort_is_suggested :
    ¬∀ printed, PrintsHints threePackets 1 printed →
      SuggestsMostFrequent threePackets 1 printed := by
  intro h
  have hright := h [(50000, 1)] ⟨[(50000, 1), (40000, 2)], ⟨by decide, by decide⟩, rfl⟩
  exact absurd (hright.top (50000, 1) (by decide) 40000 (by decide) (by decide)) (by decide)

/-! ## The other ranking -/

theorem printsHistogram_top {collisions : Fin portCount → UInt32}
    {printed : List (Fin portCount × UInt32)} (h : PrintsHistogram collisions printed) :
    printed.length = min topPorts (histogram collisions).length ∧
      printed.Pairwise (fun a b ↦ b.2 ≤ a.2) ∧
      ∀ e ∈ printed, ∀ e' ∈ histogram collisions, e' ∉ printed → e'.2 ≤ e.2 := by
  obtain ⟨sorted, hsorted, rfl⟩ := h
  have hle : ∀ a b : Fin portCount × UInt32, histogramLess b a = false → b.2 ≤ a.2 := by
    intro a b hab
    rw [histogramLess, decide_eq_false_iff_not] at hab
    exact UInt32.not_lt.mp hab
  refine ⟨hsorted.length_take topPorts, ?_, fun e he e' he' hnot ↦ ?_⟩
  · exact (hsorted.ordered_take topPorts).imp fun hab ↦ hle _ _ hab
  · have hbehind := hsorted.mem_drop_of_notMem_take topPorts he' hnot
    exact hle _ _ (hsorted.not_less_of_take_of_drop topPorts he hbehind)

end NatGhost
