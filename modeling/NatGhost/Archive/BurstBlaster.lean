import Mathlib.Data.Fin.VecNotation
import Mathlib.Data.Int.ConditionallyCompleteOrder
import Mathlib.Order.ConditionallyCompleteLattice.Indexed
import Mathlib.Order.WithBot
import NatGhost.Foundation.ExchangeSort
import NatGhost.Foundation.TopEntries

/-!
# Ranking the servers of `burst_blaster`

When its threads are joined, `main` sorts the table of servers in place by exchange and prints the
first five servers that have a round-trip time. A round-trip time of 0 stands for a server that has
none, and the comparison puts such servers last: it is the comparison of keys in which 0 is replaced
by infinity (`rankKey`), as long as no round-trip time is negative.
-/

namespace NatGhost

/-! ## The code -/

/-- `stun_server_t`. -/
structure StunServer where
  host : String
  port : UInt16
  rttMs : ℤ
  deriving DecidableEq

/-- The condition under which `main` exchanges `stun_servers[i]` and `stun_servers[j]`, of the later
entry and the earlier one. -/
def goesFirst (later earlier : StunServer) : Bool :=
  decide (later.rttMs > 0 ∧ (earlier.rttMs = 0 ∨ later.rttMs < earlier.rttMs))

section

variable {n : ℕ}

/-- The nested loops of `main`. -/
def sortServers (servers : Fin n → StunServer) : Fin n → StunServer :=
  exchangeSort goesFirst servers

def hasRtt (servers : Fin n → StunServer) (i : Fin n) : Bool := decide ((servers i).rttMs > 0)

/-- The places of the servers that `main` prints. -/
def printedPlaces (servers : Fin n → StunServer) : List (Fin n) :=
  takeWhere (hasRtt servers) 5 (List.finRange n)

/-- The servers that `main` prints. -/
def printedServers (servers : Fin n → StunServer) : List StunServer :=
  (printedPlaces servers).map servers

/-! ## The order -/

/-- The round-trip time, or infinity where there is none. -/
def rankKey (s : StunServer) : WithTop ℤ := if s.rttMs = 0 then ⊤ else s.rttMs

theorem rankKey_of_pos {s : StunServer} (h : 0 < s.rttMs) : rankKey s = s.rttMs := if_neg h.ne'

theorem goesFirst_iff {a b : StunServer} (ha : 0 ≤ a.rttMs) :
    goesFirst a b = true ↔ rankKey a < rankKey b := by
  rw [goesFirst, decide_eq_true_iff]
  rcases ha.eq_or_lt with hzero | hpos
  · have htop : rankKey a = ⊤ := if_pos hzero.symm
    rw [htop]
    exact iff_of_false (fun h ↦ h.1.ne hzero) not_top_lt
  · rw [rankKey_of_pos hpos, rankKey, and_iff_right hpos]
    split_ifs with hb
    · exact iff_of_true (Or.inl hb) (WithTop.coe_lt_top _)
    · rw [or_iff_right hb, WithTop.coe_lt_coe]

theorem comparesKeys_goesFirst {servers : Fin n → StunServer} (h : ∀ i, 0 ≤ (servers i).rttMs) :
    ComparesKeys rankKey goesFirst servers := fun i _ ↦ goesFirst_iff (h i)

/-- The servers with a round-trip time come first, fastest first, and the others last. -/
structure IsRanked (servers : Fin n → StunServer) : Prop where
  ascending : ∀ i j, i ≤ j → 0 < (servers i).rttMs → 0 < (servers j).rttMs →
    (servers i).rttMs ≤ (servers j).rttMs
  zerosLast : ∀ i j, i ≤ j → (servers i).rttMs = 0 → (servers j).rttMs = 0

theorem isRanked_of_rankKey_le {servers : Fin n → StunServer}
    (h : ∀ i j, i ≤ j → rankKey (servers i) ≤ rankKey (servers j)) : IsRanked servers where
  ascending i j hij hi hj := by
    have hle := h i j hij
    rwa [rankKey_of_pos hi, rankKey_of_pos hj, WithTop.coe_le_coe] at hle
  zerosLast i j hij hi := by
    have hle := h i j hij
    have htop : rankKey (servers i) = ⊤ := if_pos hi
    rw [htop, top_le_iff] at hle
    by_contra hj
    rw [rankKey, if_neg hj] at hle
    exact WithTop.coe_ne_top hle

theorem IsRanked.isTop {servers : Fin n → StunServer} (h : IsRanked servers) :
    IsTop (fun i ↦ (servers i).rttMs) 5 (places (hasRtt servers)) (printedPlaces servers) :=
  (isTop_takeWhere_iff (hasRtt servers)).mpr fun i j hij hi hj _ ↦
    h.ascending i j hij.le (of_decide_eq_true hi) (of_decide_eq_true hj)

/-- **The ranking.** If no round-trip time is negative, the loops rearrange the table so that it is
ranked, and the servers printed are the fastest of the table: as many as have a round-trip time, but
at most five. -/
theorem sortServers_ranks (servers : Fin n → StunServer) (h : ∀ i, 0 ≤ (servers i).rttMs) :
    (∃ σ : Equiv.Perm (Fin n), sortServers servers = servers ∘ σ) ∧
      IsRanked (sortServers servers) ∧
      ∃ listed, printedServers (sortServers servers) = listed.map servers ∧
        IsTop (fun i ↦ (servers i).rttMs) 5 (places (hasRtt servers)) listed := by
  obtain ⟨σ, hσ, hle⟩ := exchangeSort_sorts goesFirst (comparesKeys_goesFirst h)
  have hsorted : sortServers servers = servers ∘ σ := hσ
  have hranked : IsRanked (servers ∘ σ) := isRanked_of_rankKey_le hle
  rw [hsorted]
  refine ⟨⟨σ, rfl⟩, hranked, (printedPlaces (servers ∘ σ)).map σ, ?_, ?_⟩
  · rw [printedServers, List.map_map]
  · have htop : IsTop ((fun i ↦ (servers i).rttMs) ∘ σ) 5 (places (hasRtt servers ∘ σ))
      (printedPlaces (servers ∘ σ)) := hranked.isTop
    exact htop.map σ.injective (places_comp_perm (hasRtt servers) σ)

end

/-- Three servers, the second of which has not answered. -/
def threeServers : Fin 3 → StunServer := ![⟨"stun.1und1.de", 3478, 40⟩, ⟨"stun.gmx.net", 3478, 0⟩,
  ⟨"stun.sipnet.net", 3478, 20⟩]

theorem sortServers_ranks_threeServers :
    (∃ σ : Equiv.Perm (Fin 3), sortServers threeServers = threeServers ∘ σ) ∧
      IsRanked (sortServers threeServers) ∧
      ∃ listed, printedServers (sortServers threeServers) = listed.map threeServers ∧
        IsTop (fun i ↦ (threeServers i).rttMs) 5 (places (hasRtt threeServers)) listed :=
  sortServers_ranks threeServers (by decide)

end NatGhost
