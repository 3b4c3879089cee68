import NatGhost.Analyzer.PortHints
import NatGhost.Foundation.CheckedCounters
import NatGhost.Foundation.ScaledRanges

/-!
# The buckets of the uniformity test

`chi_square_uniformity_test` divides the ports among `bucket_count` buckets, counts the packets of
each bucket and compares the counts with what equally large buckets would get. The bucket of a port
is `p.port * bucket_count / 65536`, computed in `int`. With up to 32768 buckets the product fits for
every port, and the buckets are ranges of ports of nearly equal size. From 32769 buckets on the
product of the last port overflows.

The test itself is floating-point arithmetic and not modelled.
-/

namespace NatGhost

/-! ## The code -/

/-- `p.port * bucket_count / 65536`. -/
def bucketIndex (bucketCount : Int32) (port : UInt16) : Option ℤ :=
  (checkInt (port.toNat * bucketCount.toInt)).map fun product ↦ product.tdiv 65536

/-- `buckets` of `chi_square_uniformity_test`. -/
def uniformityBuckets (data : List PacketInfo) (bucketCount : Int32) : Option (List ℤ) :=
  data.foldlM (fun buckets p ↦ do
    let bucket ← bucketIndex bucketCount p.port
    bumpCounter buckets bucket) (List.replicate bucketCount.toInt.toNat 0)

def bucketPackets (data : List PacketInfo) (bucketCount : Int32) (b : ℕ) : ℕ :=
  data.countP fun p ↦ decide (bucketIndex bucketCount p.port = some (b : ℤ))

/-- The ports of bucket `b` are those from `first` on that are less than `last`, and there are
some. -/
structure IsBucketRange (bucketCount : Int32) (b first last : ℕ) : Prop where
  nonempty : first < last
  le_ports : last ≤ 65536
  bucketIndex_iff : ∀ port,
    bucketIndex bucketCount port = some (b : ℤ) ↔ first ≤ port.toNat ∧ port.toNat < last

/-- The buckets are what the test takes them for. -/
structure EqualBuckets (data : List PacketInfo) (bucketCount : Int32) : Prop where
  /-- No product overflows, and the index is one of the vector. -/
  index : ∀ p ∈ data, ∃ i, bucketIndex bucketCount p.port = some i ∧ 0 ≤ i ∧ i < bucketCount.toInt
  total : ∃ buckets, uniformityBuckets data bucketCount = some buckets ∧ buckets.sum = data.length
  contiguous : ∀ b < bucketCount.toInt.toNat, ∃ first last, IsBucketRange bucketCount b first last
  sizes : ∀ a < bucketCount.toInt.toNat, ∀ b < bucketCount.toInt.toNat, ∀ first last first' last',
    IsBucketRange bucketCount a first last → IsBucketRange bucketCount b first' last' →
      last - first ≤ last' - first' + 1

/-! ## The index -/

section

variable {data : List PacketInfo} {bucketCount : Int32} {port : UInt16} {c b : ℕ}

theorem bucketIndex_eq_some_iff (hc : bucketCount.toInt = c) {i : ℤ} :
    bucketIndex bucketCount port = some i
      ↔ port.toNat * c < 2 ^ 31 ∧ ((port.toNat * c / 65536 : ℕ) : ℤ) = i := by
  rw [bucketIndex, hc, Option.map_eq_some_iff, ← Nat.cast_mul]
  simp only [checkInt_eq_some_iff]
  constructor
  · rintro ⟨product, ⟨⟨-, hfits⟩, rfl⟩, hi⟩
    rw [← hi]
    exact ⟨by exact_mod_cast hfits, rfl⟩
  · rintro ⟨hfits, rfl⟩
    exact ⟨_, ⟨⟨by omega, by exact_mod_cast hfits⟩, rfl⟩, rfl⟩

theorem bucketIndex_eq (hc : bucketCount.toInt = c) (hfew : c ≤ 32768) (port : UInt16) :
    bucketIndex bucketCount port = some ((port.toNat * c / 65536 : ℕ) : ℤ) := by
  have hport : port.toNat ≤ 65535 := Nat.le_of_lt_succ port.toNat_lt
  have hproduct := Nat.mul_le_mul hport hfew
  exact (bucketIndex_eq_some_iff hc).mpr ⟨by omega, rfl⟩

theorem isBucketRange_rangeStart (hc : bucketCount.toInt = c) (hfew : c ≤ 32768) (hb : b < c) :
    IsBucketRange bucketCount b (rangeStart 65536 c b) (rangeStart 65536 c (b + 1)) where
  nonempty := rangeStart_lt_succ (by omega) (by omega)
  le_ports := rangeStart_le (by omega) hb
  bucketIndex_iff port := by
    rw [bucketIndex_eq hc hfew, Option.some_inj, Nat.cast_inj]
    exact mul_div_eq_iff (by decide) (by omega)

theorem IsBucketRange.unique {first last first' last' : ℕ}
    (h : IsBucketRange bucketCount b first last) (h' : IsBucketRange bucketCount b first' last') :
    first = first' ∧ last = last' := by
  have hsame : ∀ port < 65536, first ≤ port ∧ port < last ↔ first' ≤ port ∧ port < last' := by
    intro port hport
    have hiff := (h.bucketIndex_iff (UInt16.ofNat port)).symm.trans
      (h'.bucketIndex_iff (UInt16.ofNat port))
    rwa [UInt16.toNat_ofNat_of_lt' hport] at hiff
  have hne := h.nonempty
  have hne' := h'.nonempty
  have hle := h.le_ports
  have hle' := h'.le_ports
  have hfirst := hsame first (by omega)
  have hfirst' := hsame first' (by omega)
  have hlast := hsame (last - 1) (by omega)
  have hlast' := hsame (last' - 1) (by omega)
  omega

/-- **The last bucket has a range** only if its ports do not overflow. -/
theorem le_of_isBucketRange (hc : bucketCount.toInt = c) {first last : ℕ}
    (h : IsBucketRange bucketCount (c - 1) first last) : c ≤ 32768 := by
  have hlt := h.nonempty.trans_le h.le_ports
  have hindex := (h.bucketIndex_iff (UInt16.ofNat first)).mpr
  rw [UInt16.toNat_ofNat_of_lt' hlt] at hindex
  obtain ⟨hfits, heq⟩ := (bucketIndex_eq_some_iff hc).mp (hindex ⟨le_rfl, h.nonempty⟩)
  rw [UInt16.toNat_ofNat_of_lt' hlt] at hfits heq
  omega

/-! ## The counters -/

theorem uniformityBuckets_eq (hc : bucketCount.toInt = c) (hfew : c ≤ 32768)
    (data : List PacketInfo) : uniformityBuckets data bucketCount
      = tallyCounters c (data.map fun p ↦ ((p.port.toNat * c / 65536 : ℕ) : ℤ)) := by
  rw [uniformityBuckets, tallyCounters, hc, Int.toNat_natCast, List.foldlM_map]
  congr 1
  funext buckets p
  rw [bucketIndex_eq hc hfew]
  rfl

theorem index_lt (hpos : 0 < c) (port : UInt16) : port.toNat * c / 65536 < c := by
  rw [Nat.div_lt_iff_lt_mul (by decide), Nat.mul_comm]
  exact Nat.mul_lt_mul_of_pos_left port.toNat_lt hpos

theorem inBounds_indices (hpos : 0 < c) (data : List PacketInfo) :
    ∀ i ∈ data.map fun p ↦ ((p.port.toNat * c / 65536 : ℕ) : ℤ), 0 ≤ i ∧ i < c := by
  intro i hi
  obtain ⟨p, -, rfl⟩ := List.mem_map.mp hi
  exact ⟨Int.natCast_nonneg _, by exact_mod_cast index_lt hpos p.port⟩

theorem count_indices (hc : bucketCount.toInt = c) (hfew : c ≤ 32768) (b : ℕ) :
    (data.map fun p ↦ ((p.port.toNat * c / 65536 : ℕ) : ℤ)).count (b : ℤ)
      = bucketPackets data bucketCount b := by
  rw [bucketPackets, List.count, List.countP_map]
  refine List.countP_congr fun p _ ↦ ?_
  rw [Function.comp_apply, beq_iff_eq, decide_eq_true_iff, bucketIndex_eq hc hfew, Option.some_inj]

/-- **The buckets**, as long as no product overflows. -/
theorem uniformityBuckets_eq_some_iff (hc : bucketCount.toInt = c) (hpos : 0 < c)
    (hfew : c ≤ 32768) {buckets : List ℤ} : uniformityBuckets data bucketCount = some buckets
      ↔ (∀ b, bucketPackets data bucketCount b < 2 ^ 31)
        ∧ occurrences c (data.map fun p ↦ ((p.port.toNat * c / 65536 : ℕ) : ℤ)) = buckets := by
  rw [uniformityBuckets_eq hc hfew,
    tallyCounters_eq_some_iff_of_inBounds (inBounds_indices hpos data)]
  simp only [count_indices hc hfew]

/-! ## Equal buckets -/

/-- **When the buckets are equal.** Exactly up to 32768 buckets, with fewer than 2³¹ packets in
each. -/
theorem equalBuckets_iff (data : List PacketInfo) (bucketCount : Int32)
    (h₁ : 1 ≤ bucketCount.toInt) (h₂ : bucketCount.toInt ≤ 65536) :
    EqualBuckets data bucketCount
      ↔ bucketCount.toInt ≤ 32768 ∧ ∀ b, bucketPackets data bucketCount b < 2 ^ 31 := by
  obtain ⟨c, hc⟩ := Int.eq_ofNat_of_zero_le (show 0 ≤ bucketCount.toInt by omega)
  have hpos : 0 < c := by omega
  have hsize : bucketCount.toInt.toNat = c := by omega
  constructor
  · intro h
    obtain ⟨first, last, hrange⟩ := h.contiguous (c - 1) (by omega)
    have hfew := le_of_isBucketRange hc hrange
    obtain ⟨buckets, hbuckets, -⟩ := h.total
    exact ⟨by omega, ((uniformityBuckets_eq_some_iff hc hpos hfew).mp hbuckets).1⟩
  · rintro ⟨hle, hfits⟩
    have hfew : c ≤ 32768 := by omega
    refine ⟨fun p _ ↦ ?_, ?_, fun b hb ↦ ?_,
      fun a ha b hb first last first' last' hrange hrange' ↦ ?_⟩
    · refine ⟨_, bucketIndex_eq hc hfew p.port, Int.natCast_nonneg _, ?_⟩
      rw [hc]
      exact_mod_cast index_lt hpos p.port
    · refine ⟨_, (uniformityBuckets_eq_some_iff hc hpos hfew).mpr ⟨hfits, rfl⟩, ?_⟩
      rw [sum_occurrences (inBounds_indices hpos data), List.length_map]
    · exact ⟨_, _, isBucketRange_rangeStart hc hfew (hsize ▸ hb)⟩
    · obtain ⟨rfl, rfl⟩ := hrange.unique (isBucketRange_rangeStart hc hfew (hsize ▸ ha))
      obtain ⟨rfl, rfl⟩ := hrange'.unique (isBucketRange_rangeStart hc hfew (hsize ▸ hb))
      exact rangeStart_sub_le hpos a b

end

def lastPort : PacketInfo := ⟨65535, 0, 0⟩

/-- **With one bucket for each port the last port overflows.** -/
theorem lastPort_overflows : ¬∀ (data : List PacketInfo) (bucketCount : Int32),
    1 ≤ bucketCount.toInt → bucketCount.toInt ≤ 65536 → EqualBuckets data bucketCount := by
  intro h
  obtain ⟨i, hi, -⟩ := (h [lastPort] 65536 (by decide) (by decide)).index lastPort
    List.mem_cons_self
  have hnone : bucketIndex 65536 lastPort.port = none := by decide
  rw [hnone] at hi
  exact Option.some_ne_none i hi.symm

/-- The buckets of the analyzer's own test are equal. -/
theorem equalBuckets_iff_lastPort : EqualBuckets [lastPort] 256 := by
  refine (equalBuckets_iff [lastPort] 256 (by decide) (by decide)).mpr ⟨by decide, fun b ↦ ?_⟩
  exact List.countP_le_length.trans_lt (by decide)

end NatGhost
