import Mathlib.Data.Fintype.Pi
import Mathlib.Data.List.FinRange
import NatGhost.NatAnalyzer.MappedAddress

/-!
# The verdict of the NAT analyzer

`analyze_nat_type` asks three servers from one local port and compares what they saw. Each query
that succeeds fills its own element of `results`; one that fails leaves it as it was, and `results`
is not initialised. The comparison is between elements 0 and 1, whichever queries have succeeded.

So the verdict is sound if queries 0 and 1 are among the successful ones and the third, if it
succeeds too, does not spoil their agreement; otherwise it depends on what the array happened to
contain, or calls a NAT a full cone that has shown the third server another port (`FirstTwoDecide`).

A `char ip[16]` is a list of bytes with its length as a field. The string in it ends at the first
NUL byte or, where an uninitialised array has none, at the end of the array.
-/

namespace NatGhost

/-! ## The code -/

/-- `INET_ADDRSTRLEN`. -/
def inetAddrstrlen : ℕ := 16

/-- `mapped_addr_t`. -/
structure MappedAddr where
  ip : List UInt8
  port : UInt16
  length_ip : ip.length = inetAddrstrlen

/-- The assignments to `result->port` and, by `inet_ntop`, to `result->ip`. -/
def MappedAddr.store (result : MappedAddr) (out : MappedOut) : MappedAddr where
  ip := snprintf inetAddrstrlen (utf8Bytes out.outIp.toList) result.ip
  port := out.outPort
  length_ip := length_snprintf (by decide) result.length_ip

/-- How a query goes. -/
inductive Query where
  /-- There is no socket, the port is not free, or the host has no address. -/
  | unsent
  /-- What `recvfrom` returns, and the receive buffer then. -/
  | received (len : ℤ) (buf : ℕ → UInt8)

/-- The address a query is told, if it succeeds. -/
def Query.mapping : Query → Option MappedOut
  | unsent => none
  | received len buf =>
    match ReadTree.run buf (decodeMappedAddress len ⟨"", 0⟩) with
    | (0, out) => some out
    | _ => none

/-- `get_mapped_address`: the return code and `*result`. -/
def getMappedAddress (query : Query) (result : MappedAddr) : ℤ × MappedAddr :=
  match query.mapping with
  | some out => (0, result.store out)
  | none => (-1, result)

/-- `strcmp(a, b) == 0`. -/
def strcmpEq (a b : List UInt8) : Bool := decide (a.takeWhile (· ≠ 0) = b.takeWhile (· ≠ 0))

inductive Verdict where
  /-- Not enough answers. -/
  | undetermined
  | fullCone
  | restricted
  | symmetric
  deriving DecidableEq

/-- The comparison of `results[0]` and `results[1]`. -/
def compareResults (a b : MappedAddr) : Verdict :=
  let sameIp := strcmpEq a.ip b.ip
  let samePort := decide (a.port = b.port)
  if sameIp && samePort then .fullCone
  else if sameIp && !samePort then .restricted
  else .symmetric

/-- `analyze_nat_type`, given how the queries go and what `results` contains before. -/
def analyzeNatType (queries : Fin 3 → Query) (results : Fin 3 → MappedAddr) : Verdict :=
  let answers := fun i ↦ getMappedAddress (queries i) (results i)
  let ok := (List.finRange 3).countP fun i ↦ decide ((answers i).1 = 0)
  if ok < 2 then .undetermined else compareResults (answers 0).2 (answers 1).2

/-! ## Stored addresses -/

section

variable {query : Query} {queries : Fin 3 → Query} {results : Fin 3 → MappedAddr}
  {result a b : MappedAddr} {out out' : MappedOut}

theorem exists_of_mapping (h : query.mapping = some out) :
    ∃ b₀ b₁ b₂ b₃, out.outIp = dottedQuad b₀ b₁ b₂ b₃ := by
  cases query with
  | unsent => exact nomatch h
  | received len buf =>
    rw [Query.mapping, decodeMappedAddress_eq] at h
    rcases firstPair_or_run_eq buf len 20 with ⟨p, -, hrun⟩ | ⟨-, hrun⟩
    · rw [hrun] at h
      rw [← Option.some_injective _ h]
      exact ⟨_, _, _, _, rfl⟩
    · rw [hrun] at h
      exact nomatch h

theorem utf8Bytes_dottedQuad (b₀ b₁ b₂ b₃ : UInt8) :
    0 ∉ utf8Bytes (dottedQuad b₀ b₁ b₂ b₃).toList ∧
      (utf8Bytes (dottedQuad b₀ b₁ b₂ b₃).toList).length < inetAddrstrlen ∧
      byteChars (utf8Bytes (dottedQuad b₀ b₁ b₂ b₃).toList) = (dottedQuad b₀ b₁ b₂ b₃).toList := by
  have hcode : ∀ c ∈ (dottedQuad b₀ b₁ b₂ b₃).toList, 0 < c.toNat ∧ c.toNat < 128 := by
    intro c hc
    rcases mem_toList_dottedQuad hc with hdigit | rfl
    · have hrange := isDigit_iff.mp hdigit
      omega
    · decide
  have hascii := fun c hc ↦ (hcode c hc).2
  refine ⟨zero_notMem_utf8Bytes hascii fun c hc ↦ (hcode c hc).1, ?_, byteChars_utf8Bytes hascii⟩
  rw [length_utf8Bytes hascii]
  exact Nat.lt_succ_of_le (length_toList_dottedQuad_le b₀ b₁ b₂ b₃)

theorem takeWhile_store (h : query.mapping = some out) (result : MappedAddr) :
    (result.store out).ip.takeWhile (· ≠ 0) = utf8Bytes out.outIp.toList := by
  obtain ⟨b₀, b₁, b₂, b₃, hip⟩ := exists_of_mapping h
  obtain ⟨hzero, hfits, -⟩ := utf8Bytes_dottedQuad b₀ b₁ b₂ b₃
  rw [← hip] at hzero hfits
  obtain ⟨hlength, htext⟩ := takeWhile_snprintf hzero hfits result.length_ip
  rwa [List.take_of_length_le hlength.le] at htext

/-- Stored addresses are compared as the addresses they are. -/
theorem strcmpEq_store_iff {query' : Query} (h : query.mapping = some out)
    (h' : query'.mapping = some out') (result result' : MappedAddr) :
    strcmpEq (result.store out).ip (result'.store out').ip = true ↔ out.outIp = out'.outIp := by
  rw [strcmpEq, decide_eq_true_iff, takeWhile_store h, takeWhile_store h']
  refine ⟨fun hbytes ↦ ?_, fun hip ↦ by rw [hip]⟩
  obtain ⟨b₀, b₁, b₂, b₃, hip⟩ := exists_of_mapping h
  obtain ⟨c₀, c₁, c₂, c₃, hip'⟩ := exists_of_mapping h'
  have hchars := congrArg byteChars hbytes
  rw [hip, hip', (utf8Bytes_dottedQuad _ _ _ _).2.2, (utf8Bytes_dottedQuad _ _ _ _).2.2] at hchars
  rw [hip, hip', String.toList_inj.mp hchars]

/-! ## The comparison -/

def classify (out out' : MappedOut) : Verdict :=
  if out = out' then .fullCone
  else if out.outIp = out'.outIp then .restricted
  else .symmetric

theorem compareResults_store {query' : Query} (h : query.mapping = some out)
    (h' : query'.mapping = some out') (result result' : MappedAddr) :
    compareResults (result.store out) (result'.store out') = classify out out' := by
  have hport : (result.store out).port = (result'.store out').port ↔ out.outPort = out'.outPort :=
    Iff.rfl
  have heq : out = out' ↔ out.outIp = out'.outIp ∧ out.outPort = out'.outPort :=
    iff_of_eq (MappedOut.mk.injEq _ _ _ _)
  rw [compareResults, classify]
  by_cases hip : out.outIp = out'.outIp
  · have hsame := (strcmpEq_store_iff h h' result result').mpr hip
    by_cases hports : out.outPort = out'.outPort
    · simp [hsame, hport, hports, hip, heq]
    · simp [hsame, hport, hports, hip, heq]
  · have hdiffer : strcmpEq (result.store out).ip (result'.store out').ip = false := by
      rw [← Bool.not_eq_true, strcmpEq_store_iff h h']
      exact hip
    simp [hdiffer, hip, heq]

theorem compareResults_of_sameIp (h : strcmpEq a.ip b.ip = true) :
    compareResults a b = .fullCone ↔ a.port = b.port := by
  rw [compareResults, h]
  by_cases hport : a.port = b.port
  · simp [hport]
  · simp [hport]

/-! ## Sound verdicts -/

def successes (queries : Fin 3 → Query) : ℕ :=
  (List.finRange 3).countP fun i ↦ (queries i).mapping.isSome

/-- What a verdict should be: determined by the addresses the queries are told, and a full cone only
if all of them are the same. -/
structure VerdictSound (queries : Fin 3 → Query) : Prop where
  determined : ∀ queries' results results', (∀ i, (queries' i).mapping = (queries i).mapping) →
    analyzeNatType queries' results' = analyzeNatType queries results
  equal : ∀ results, analyzeNatType queries results = .fullCone →
    ∀ i j out out', (queries i).mapping = some out → (queries j).mapping = some out' → out = out'
  ports : ∀ results i j out out', (queries i).mapping = some out → (queries j).mapping = some out' →
    out.outPort ≠ out'.outPort → analyzeNatType queries results ≠ .fullCone

/-- The first two queries succeed, and the third one, if it succeeds, confirms an agreement between
them. -/
def FirstTwoDecide (queries : Fin 3 → Query) : Prop :=
  ∃ out out', (queries 0).mapping = some out ∧ (queries 1).mapping = some out' ∧
    (out = out' → ∀ out'', (queries 2).mapping = some out'' → out'' = out)

theorem analyzeNatType_eq (h : 2 ≤ successes queries) (results : Fin 3 → MappedAddr) :
    analyzeNatType queries results
      = compareResults (getMappedAddress (queries 0) (results 0)).2
          (getMappedAddress (queries 1) (results 1)).2 := by
  have hcode : ∀ i, decide ((getMappedAddress (queries i) (results i)).1 = 0)
      = (queries i).mapping.isSome := by
    intro i
    rw [getMappedAddress]
    cases (queries i).mapping with
    | none => rfl
    | some out => rfl
  have hok : ¬(List.finRange 3).countP
      (fun i ↦ decide ((getMappedAddress (queries i) (results i)).1 = 0))
      < 2 := by
    simp only [hcode]
    exact Nat.not_lt.mpr h
  rw [analyzeNatType, if_neg hok]

theorem exists_mapping_of_failed (h : 2 ≤ successes queries) {i j : Fin 3} (hij : i ≠ j)
    (hfail : (queries i).mapping = none) : ∃ out, (queries j).mapping = some out := by
  have hcount : ∀ p : Fin 3 → Bool, 2 ≤ (List.finRange 3).countP p →
      ∀ i j, i ≠ j → p i = false → p j = true := by decide
  refine Option.isSome_iff_exists.mp (hcount _ h i j hij ?_)
  rw [hfail, Option.isSome_none]

theorem exists_lookalikes (h : query.mapping = some out) :
    ∃ same other : MappedAddr, ∀ result : MappedAddr,
      (compareResults same (result.store out) = .fullCone ∧
        compareResults (result.store out) same = .fullCone) ∧
      compareResults other (result.store out) ≠ .fullCone ∧
        compareResults (result.store out) other ≠ .fullCone := by
  let blank : MappedAddr := ⟨List.replicate inetAddrstrlen 0, 0, List.length_replicate⟩
  let same := blank.store out
  let other : MappedAddr := { same with port := out.outPort + 1 }
  have hip := fun result result' ↦ (strcmpEq_store_iff h h result result').mpr rfl
  have hport : out.outPort + 1 ≠ out.outPort := by
    rw [ne_eq, UInt16.add_eq_left]
    decide
  refine ⟨same, other, fun result ↦ ⟨⟨?_, ?_⟩, fun hcone ↦ ?_, fun hcone ↦ ?_⟩⟩
  · exact (compareResults_of_sameIp (hip blank result)).mpr rfl
  · exact (compareResults_of_sameIp (hip result blank)).mpr rfl
  · have hother : strcmpEq other.ip (result.store out).ip = true := hip blank result
    exact hport ((compareResults_of_sameIp hother).mp hcone)
  · have hother : strcmpEq (result.store out).ip other.ip = true := hip result blank
    exact hport ((compareResults_of_sameIp hother).mp hcone).symm

theorem analyzeNatType_of_mapped (h : 2 ≤ successes queries) (h₀ : (queries 0).mapping = some out)
    (h₁ : (queries 1).mapping = some out') :
    analyzeNatType queries results = classify out out' := by
  rw [analyzeNatType_eq h, getMappedAddress, h₀, getMappedAddress, h₁]
  exact compareResults_store h₀ h₁ _ _

theorem FirstTwoDecide.sound (h : 2 ≤ successes queries) (hdecide : FirstTwoDecide queries) :
    VerdictSound queries := by
  obtain ⟨out, out', h₀, h₁, h₂⟩ := hdecide
  -- a full cone means that every successful query was told the same
  have hequal : ∀ results, analyzeNatType queries results = .fullCone →
      ∀ i x, (queries i).mapping = some x → x = out := by
    intro results hcone i x hx
    have hsame : out = out' := by
      rw [analyzeNatType_of_mapped h h₀ h₁, classify] at hcone
      by_contra hne
      rw [if_neg hne] at hcone
      split_ifs at hcone
    match i, hx with
    | 0, hx => exact Option.some_injective _ (hx.symm.trans h₀)
    | 1, hx => exact (Option.some_injective _ (hx.symm.trans h₁)).trans hsame.symm
    | 2, hx => exact h₂ hsame x hx
  refine ⟨fun queries' results results' hmapping ↦ ?_, fun results hcone i j x y hx hy ↦ ?_,
    fun results i j x y hx hy hports hcone ↦ ?_⟩
  · have h' : 2 ≤ successes queries' := by
      simp only [successes, hmapping]
      exact h
    rw [analyzeNatType_of_mapped h h₀ h₁,
      analyzeNatType_of_mapped h' ((hmapping 0).trans h₀) ((hmapping 1).trans h₁)]
  · rw [hequal results hcone i x hx, hequal results hcone j y hy]
  · rw [hequal results hcone i x hx, hequal results hcone j y hy] at hports
    exact hports rfl

theorem VerdictSound.firstTwoDecide (h : 2 ≤ successes queries) (hsound : VerdictSound queries) :
    FirstTwoDecide queries := by
  have hdetermined : ∀ results results',
      analyzeNatType queries results' = analyzeNatType queries results :=
    fun results results' ↦ hsound.determined queries results results' fun _ ↦ rfl
  cases h₀ : (queries 0).mapping with
  | none =>
    -- element 0 is whatever the array contained
    obtain ⟨out, h₁⟩ := exists_mapping_of_failed h (by decide : (0 : Fin 3) ≠ 1) h₀
    obtain ⟨same, other, hlook⟩ := exists_lookalikes h₁
    have hcone := hdetermined (fun _ ↦ same) fun _ ↦ other
    rw [analyzeNatType_eq h, analyzeNatType_eq h, getMappedAddress, h₀, getMappedAddress, h₁,
      getMappedAddress, h₀, getMappedAddress, h₁] at hcone
    exact absurd (hcone.trans (hlook same).1.1) (hlook other).2.1
  | some out =>
    cases h₁ : (queries 1).mapping with
    | none =>
      obtain ⟨same, other, hlook⟩ := exists_lookalikes h₀
      have hcone := hdetermined (fun _ ↦ same) fun _ ↦ other
      rw [analyzeNatType_eq h, analyzeNatType_eq h, getMappedAddress, h₀, getMappedAddress, h₁,
        getMappedAddress, h₀, getMappedAddress, h₁] at hcone
      exact absurd (hcone.trans (hlook same).1.2) (hlook other).2.2
    | some out' =>
      refine ⟨out, out', h₀, h₁, fun hsame out'' h₂ ↦ ?_⟩
      obtain ⟨same, -, -⟩ := exists_lookalikes h₀
      have hcone : analyzeNatType queries (fun _ ↦ same) = .fullCone := by
        rw [analyzeNatType_of_mapped h h₀ h₁, classify, if_pos hsame]
      exact hsound.equal _ hcone 2 0 out'' out h₂ h₀

end

/-- **When the verdict is sound.** With at least two successful queries it is exactly if the first
two are among them and the third, where it succeeds, does not contradict an agreement between
them. -/
theorem verdictSound_iff (queries : Fin 3 → Query) (h : 2 ≤ successes queries) :
    VerdictSound queries ↔ FirstTwoDecide queries :=
  ⟨fun hsound ↦ hsound.firstTwoDecide h, fun hdecide ↦ hdecide.sound h⟩

def Query.answered (a : Attribute) : Query :=
  .received (datagram (Vector.replicate 20 0) [a]).length
    (overlay 0 (datagram (Vector.replicate 20 0) [a]) fun _ ↦ 0)

theorem verdictSound_three_answers :
    VerdictSound fun _ ↦ .answered mappedAttribute :=
  (verdictSound_iff (fun _ ↦ .answered mappedAttribute) (by decide +kernel)).mpr
    ⟨⟨"192.0.2.33", 0x2107⟩, ⟨"192.0.2.33", 0x2107⟩, by decide +kernel, by decide +kernel,
      fun _ out h ↦ (Option.some_injective _ (h.symm.trans (by decide +kernel)))⟩

/-- The first server does not answer, the other two say the same. -/
def firstFailed : Fin 3 → Query := fun i ↦ if i = 0 then .unsent else .answered mappedAttribute

/-- The verdict is then one on an element that was never written. -/
theorem firstFailed_verdict_unsound : ¬VerdictSound firstFailed := by
  intro hsound
  obtain ⟨out, -, h₀, -⟩ := hsound.firstTwoDecide (by decide +kernel)
  exact nomatch h₀

end NatGhost
