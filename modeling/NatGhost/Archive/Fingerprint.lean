import Mathlib.Data.Int.Notation
import Mathlib.Data.List.GetD
import Mathlib.Data.List.Perm.Basic
import Mathlib.Data.Nat.Notation
import Mathlib.Logic.Basic
import Mathlib.Tactic.SplitIfs
import Mathlib.Tactic.TypeStar

/-!
# Guessing the type of a NAT

`test_nat_behavior` sends one probe for each port of a list and notes whether a reply came.
`interpret_results` turns the notes into a guess. Its four branches look at two numbers, how many
probes there were and how many passed, and in one place at the positions: a single passed probe is
taken for a symmetric NAT only if nothing behind the first probe passed.

So the guess depends on the order of the ports as soon as exactly one of several probes passed. And
with no probes at all, all of them passed.
-/

namespace NatGhost

/-! ## The code -/

abbrev ProbeResult := ℤ × Bool

/-- What `interpret_results` may return. -/
inductive NatGuess where
  | fullCone
  | symmetric
  | restricted
  | unknown
  deriving DecidableEq, Repr

def NatGuess.text : NatGuess → String
  | .fullCone => "Full Cone NAT"
  | .symmetric => "Symmetric NAT"
  | .restricted => "Restricted or Port Restricted NAT"
  | .unknown => "Unknown or Firewall Drop"

theorem NatGuess.text_injective : Function.Injective text := by
  intro a b h
  cases a <;> cases b <;> first | rfl | exact absurd h (by decide)

/-- `[r for _, r in results if r]`. -/
def passedProbes (results : List ProbeResult) : List Bool :=
  (results.filter fun e ↦ e.2).map Prod.snd

/-- `[r for _, r in results if not r]`. -/
def failedProbes (results : List ProbeResult) : List Bool :=
  (results.filter fun e ↦ !e.2).map Prod.snd

/-- `interpret_results`. -/
def interpretResults (results : List ProbeResult) : NatGuess :=
  let passed := passedProbes results
  let failed := failedProbes results
  if passed.length = results.length then .fullCone
  else if passed.length = 1 ∧ (results.drop 1).all (fun e ↦ !e.2) = true then .symmetric
  else if passed ≠ [] ∧ failed ≠ [] then .restricted
  else .unknown

/-- The `results` of `test_nat_behavior`: the replies arrive one after the other, and `replied i`
says whether `sr1` returned one for probe `i`. -/
def probeResults (portList : List ℤ) (replied : ℕ → Bool) : List ProbeResult :=
  portList.mapIdx fun i port ↦ if replied i then (port, true) else (port, false)

/-- The guess `test_nat_behavior` prints. -/
def testNatBehavior (portList : List ℤ) (replied : ℕ → Bool) : NatGuess :=
  interpretResults (probeResults portList replied)

/-! ## Counting -/

def countPassed (results : List ProbeResult) : ℕ := results.countP fun e ↦ e.2

section

variable {results results' : List ProbeResult}

theorem length_passedProbes (results : List ProbeResult) :
    (passedProbes results).length = countPassed results := by
  rw [passedProbes, List.length_map, countPassed, List.countP_eq_length_filter]

theorem length_passed_add_failed (results : List ProbeResult) :
    (passedProbes results).length + (failedProbes results).length = results.length := by
  have hsplit := List.length_eq_countP_add_countP (fun e : ProbeResult ↦ e.2) (l := results)
  simp only [Bool.not_eq_true, Bool.decide_eq_false] at hsplit
  rw [passedProbes, failedProbes, List.length_map, List.length_map, ← List.countP_eq_length_filter,
    ← List.countP_eq_length_filter, hsplit]

theorem countPassed_le_length (results : List ProbeResult) :
    countPassed results ≤ results.length := List.countP_le_length

theorem countPassed_eq_zero_iff : countPassed results = 0 ↔ ∀ e ∈ results, e.2 = false := by
  rw [countPassed, List.countP_eq_zero]
  simp only [Bool.not_eq_true]

theorem countPassed_eq_length_iff :
    countPassed results = results.length ↔ ∀ e ∈ results, e.2 = true := List.countP_eq_length

theorem passedProbes_ne_nil_iff : passedProbes results ≠ [] ↔ 0 < countPassed results := by
  rw [← length_passedProbes, List.length_pos_iff]

theorem failedProbes_ne_nil_iff :
    failedProbes results ≠ [] ↔ countPassed results < results.length := by
  have hlength := length_passed_add_failed results
  rw [← List.length_pos_iff, ← length_passedProbes]
  omega

/-! ## The four branches -/

/-- **The guess by the number of passed probes**, with the positional test where it matters. -/
theorem interpretResults_eq (results : List ProbeResult) : interpretResults results =
    if countPassed results = results.length then .fullCone
    else if countPassed results = 0 then .unknown
    else if countPassed results = 1 ∧ (results.drop 1).all (fun e ↦ !e.2) = true then .symmetric
    else .restricted := by
  have hle := countPassed_le_length results
  simp only [interpretResults, passedProbes_ne_nil_iff, failedProbes_ne_nil_iff,
    length_passedProbes]
  by_cases hall : countPassed results = results.length
  · rw [if_pos hall, if_pos hall]
  · rw [if_neg hall, if_neg hall]
    by_cases hzero : countPassed results = 0
    · rw [if_neg fun h ↦ by omega, if_neg fun h ↦ by omega, if_pos hzero]
    · rw [if_neg hzero, if_pos (show 0 < _ ∧ _ from by omega)]

theorem interpretResults_of_countPassed_ne_one
    (h : countPassed results ≠ 1 ∨ results.length = 1) : interpretResults results =
      if countPassed results = results.length then .fullCone
      else if countPassed results = 0 then .unknown
      else .restricted := by
  have hle := countPassed_le_length results
  rw [interpretResults_eq]
  split_ifs with hall hzero hone
  · rfl
  · rfl
  · omega
  · rfl

theorem interpretResults_passed_first {e : ProbeResult} {rest : List ProbeResult} (he : e.2 = true)
    (hrest : ∀ d ∈ rest, d.2 = false) (hne : rest ≠ []) :
    interpretResults (e :: rest) = .symmetric := by
  have hzero : rest.countP (fun d ↦ d.2) = 0 := countPassed_eq_zero_iff.mpr hrest
  have hone : countPassed (e :: rest) = 1 := by
    rw [countPassed, List.countP_cons_of_pos he, hzero]
  have hpos := List.length_pos_iff.mpr hne
  rw [interpretResults_eq, hone, List.length_cons, if_neg (by omega), if_neg Nat.one_ne_zero]
  refine if_pos ⟨rfl, List.all_eq_true.mpr fun d hd ↦ ?_⟩
  rw [hrest d hd]
  rfl

theorem interpretResults_passed_last {e : ProbeResult} {rest : List ProbeResult} (he : e.2 = true)
    (hrest : ∀ d ∈ rest, d.2 = false) (hne : rest ≠ []) :
    interpretResults (rest ++ [e]) = .restricted := by
  have hzero : rest.countP (fun d ↦ d.2) = 0 := countPassed_eq_zero_iff.mpr hrest
  have hone : countPassed (rest ++ [e]) = 1 := by
    rw [countPassed, List.countP_append, hzero, List.countP_singleton, if_pos he]
  have hpos := List.length_pos_iff.mpr hne
  rw [interpretResults_eq, hone, List.length_append, List.length_singleton, if_neg (by omega),
    if_neg Nat.one_ne_zero]
  refine if_neg fun h ↦ ?_
  have hmem : e ∈ (rest ++ [e]).drop 1 := by
    rw [List.drop_append_of_le_length hpos]
    exact List.mem_append_right _ List.mem_cons_self
  have hfailed := List.all_eq_true.mp h.2 e hmem
  rw [he] at hfailed
  cases hfailed

theorem exists_perm_of_countPassed_eq_one (h : countPassed results = 1) :
    ∃ e rest, results.Perm (e :: rest) ∧ e.2 = true ∧ ∀ d ∈ rest, d.2 = false := by
  obtain ⟨e, hmem, he⟩ := List.countP_pos_iff.mp (show 0 < countPassed results by omega)
  have hperm := List.perm_cons_erase hmem
  have hcount := hperm.countP_eq fun d ↦ d.2
  rw [List.countP_cons_of_pos he, ← countPassed, h] at hcount
  exact ⟨e, results.erase e, hperm, he, countPassed_eq_zero_iff.mp (Nat.succ.inj hcount).symm⟩

/-! ## What is guessed -/

/-- The guess says that nothing passed exactly if nothing did, says that everything passed only if
something was sent and everything passed, and does not depend on the order. -/
structure InterpretsProbes (results : List ProbeResult) : Prop where
  unknown_iff : interpretResults results = .unknown ↔ ∀ e ∈ results, e.2 = false
  fullCone : interpretResults results = .fullCone → results ≠ [] ∧ ∀ e ∈ results, e.2 = true
  reordered : ∀ results', results'.Perm results →
    interpretResults results' = interpretResults results

theorem InterpretsProbes.length_eq_one (h : InterpretsProbes results)
    (hone : countPassed results = 1) : results.length = 1 := by
  obtain ⟨e, rest, hperm, he, hrest⟩ := exists_perm_of_countPassed_eq_one hone
  rcases eq_or_ne rest [] with rfl | hne
  · exact hperm.length_eq
  · have hfirst := h.reordered _ hperm.symm
    have hlast := h.reordered _ ((List.perm_append_singleton e rest).trans hperm.symm)
    rw [interpretResults_passed_first he hrest hne] at hfirst
    rw [interpretResults_passed_last he hrest hne, ← hfirst] at hlast
    cases hlast

/-- **When the guess is right.** Exactly if there is a probe, and not exactly one of several
passed. -/
theorem interpretsProbes_iff (results : List ProbeResult) :
    InterpretsProbes results
      ↔ results ≠ [] ∧ (countPassed results ≠ 1 ∨ results.length = 1) := by
  constructor
  · intro h
    refine ⟨?_, ?_⟩
    · rintro rfl
      exact (h.fullCone rfl).1 rfl
    · by_cases hone : countPassed results = 1
      · exact Or.inr (h.length_eq_one hone)
      · exact Or.inl hone
  · rintro ⟨hne, hclear⟩
    have hpos := List.length_pos_iff.mpr hne
    have hguess := interpretResults_of_countPassed_ne_one hclear
    refine ⟨?_, fun hfull ↦ ⟨hne, ?_⟩, fun results' hperm ↦ ?_⟩
    · rw [hguess, ← countPassed_eq_zero_iff]
      split_ifs with hall hzero
      · exact iff_of_false (fun h ↦ nomatch h) (by omega)
      · exact iff_of_true rfl hzero
      · exact iff_of_false (fun h ↦ nomatch h) hzero
    · rw [hguess] at hfull
      split_ifs at hfull with hall
      exact countPassed_eq_length_iff.mp hall
    · have hcount : countPassed results' = countPassed results := hperm.countP_eq _
      rw [hguess, interpretResults_of_countPassed_ne_one (by rwa [hcount, hperm.length_eq]), hcount,
        hperm.length_eq]

theorem exists_probeResults (results : List ProbeResult) :
    ∃ portList replied, probeResults portList replied = results := by
  refine ⟨results.map Prod.fst, fun i ↦ (results.getD i (0, false)).2, ?_⟩
  refine List.ext_getElem ?_ fun i hi hi' ↦ ?_
  · rw [probeResults, List.length_mapIdx, List.length_map]
  · simp only [probeResults, List.getElem_mapIdx, List.getElem_map, List.getD_eq_getElem _ _ hi']
    split_ifs with hpassed
    · exact Prod.ext rfl hpassed.symm
    · exact Prod.ext rfl (Bool.eq_false_iff.mpr hpassed).symm

end

/-- **Without probes the NAT is a full cone.** -/
theorem noProbe_is_fullCone : ¬∀ results, InterpretsProbes results := fun h ↦
  ((h []).fullCone rfl).1 rfl

end NatGhost
