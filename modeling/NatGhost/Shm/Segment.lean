import NatGhost.Foundation.CText
import NatGhost.Stun.Ranking

/-!
# The shared segment

The discovery program leaves its result in the POSIX shared memory object `/natghost_shm`, and the
Python tools read it there. A run that chooses a server writes `ip:port` into the segment; a run
that finds none leaves the segment alone. The object outlives the processes, so it is state over a
whole sequence of runs.

The reader takes the text up to the first NUL byte and splits it at the colon; an empty text, or
`:0`, is its sign for "nothing there". Nobody ever writes that sign: once an address is in the
segment, it stays until another one replaces it. What is read is the result of the last run that
found a server (`readIpPort_afterRuns`), which is the result of the last run only if that run found
one.

System calls are taken to succeed, as the program itself takes them to.
-/

namespace NatGhost

/-- `SHM_SIZE`. -/
def shmSize : ℕ := 64

/-- The shared memory object: its bytes, if it exists. -/
abbrev Segment := Option (List UInt8)

/-! ## The writer -/

/-- `ftruncate`: cut off, or extended with zeros. -/
def ftruncate (size : ℕ) (content : List UInt8) : List UInt8 :=
  (content ++ List.replicate size 0).take size

/-- The format `"%s:%d"`. -/
def ipPortText (publicIp : String) (publicPort : UInt16) : List Char :=
  publicIp.toList ++ ':' :: Nat.toDigits 10 publicPort.toNat

variable {n : ℕ}

/-- `write_shared_memory`. -/
def writeSharedMemory (stunList : StunList n) (best : Fin n) (segment : Segment) : Segment :=
  let mem := ftruncate shmSize (segment.getD [])
  some (snprintf shmSize
    (utf8Bytes (ipPortText (stunList best).publicIp (stunList best).publicPort)) mem)

/-- The end of `main`: a server that was found is written to the segment. -/
def Run.publish (R : Run n) (segment : Segment) : Segment :=
  match R.best with
  | some best => writeSharedMemory R.table best segment
  | none => segment

/-! ## The reader -/

/-- The exceptions `read_ip_port` lets through. -/
inductive ReadError
  /-- There is no segment. -/
  | fileNotFound
  /-- The segment is shorter than the mapping. -/
  | mmapLength
  /-- The text is not UTF-8. -/
  | unicodeDecode

/-- `read_ip_port`. -/
def readIpPort (segment : Segment) : Except ReadError (String × ℤ) :=
  match segment with
  | none => .error .fileNotFound
  | some content =>
    if content.length < shmSize then .error .mmapLength
    else match pyDecode ((content.take shmSize).takeWhile (· ≠ 0)) with
      | none => .error .unicodeDecode
      | some raw =>
        if ':' ∈ raw then
          let parts := pySplit ':' raw
          .ok (String.ofList parts.1, (pyInt parts.2).getD 0)
        else .ok ("", 0)

/-! ## What is written is read -/

theorem length_ftruncate (size : ℕ) (content : List UInt8) :
    (ftruncate size content).length = size := by
  rw [ftruncate, List.length_take, List.length_append, List.length_replicate]
  omega

private theorem mem_ipPortText {b₀ b₁ b₂ b₃ : UInt8} {port : UInt16} {c : Char}
    (h : c ∈ ipPortText (dottedQuad b₀ b₁ b₂ b₃) port) :
    c.isDigit = true ∨ c = '.' ∨ c = ':' := by
  rw [ipPortText, List.mem_append, List.mem_cons] at h
  rcases h with h | h | h
  · rcases mem_toList_dottedQuad h with hdigit | hdot
    · exact Or.inl hdigit
    · exact Or.inr (Or.inl hdot)
  · exact Or.inr (Or.inr h)
  · exact Or.inl (Nat.isDigit_of_mem_toDigits (by decide) (by decide) h)

private theorem toNat_ipPortText {b₀ b₁ b₂ b₃ : UInt8} {port : UInt16} {c : Char}
    (h : c ∈ ipPortText (dottedQuad b₀ b₁ b₂ b₃) port) : 0 < c.toNat ∧ c.toNat < 128 := by
  rcases mem_ipPortText h with hdigit | rfl | rfl
  · have := isDigit_iff.mp hdigit
    omega
  · decide
  · decide

private theorem length_ipPortText_lt (b₀ b₁ b₂ b₃ : UInt8) (port : UInt16) :
    (ipPortText (dottedQuad b₀ b₁ b₂ b₃) port).length < shmSize := by
  have hip := length_toList_dottedQuad_le b₀ b₁ b₂ b₃
  have hport : (Nat.toDigits 10 port.toNat).length ≤ 5 :=
    length_toDigits_le (by decide) (Nat.lt_of_lt_of_le port.toNat_lt (by decide))
  rw [ipPortText, List.length_append, List.length_cons, shmSize]
  omega

private theorem readIpPort_snprintf (b₀ b₁ b₂ b₃ : UInt8) (port : UInt16) {mem : List UInt8}
    (hmem : mem.length = shmSize) :
    readIpPort (some (snprintf shmSize (utf8Bytes (ipPortText (dottedQuad b₀ b₁ b₂ b₃) port)) mem))
      = .ok (dottedQuad b₀ b₁ b₂ b₃, (port.toNat : ℤ)) := by
  have hascii : ∀ c ∈ ipPortText (dottedQuad b₀ b₁ b₂ b₃) port, c.toNat < 128 := fun c hc ↦
    (toNat_ipPortText hc).2
  have hlength : (utf8Bytes (ipPortText (dottedQuad b₀ b₁ b₂ b₃) port)).length < shmSize := by
    rw [utf8Bytes_of_ascii hascii, List.length_map]
    exact length_ipPortText_lt b₀ b₁ b₂ b₃ port
  obtain ⟨hsize, htext⟩ := takeWhile_snprintf
    (zero_notMem_utf8Bytes hascii fun c hc ↦ (toNat_ipPortText hc).1) hlength hmem
  have hcolon : ':' ∉ (dottedQuad b₀ b₁ b₂ b₃).toList := by
    intro h
    rcases mem_toList_dottedQuad h with hdigit | hdot
    · exact absurd hdigit (by decide)
    · exact absurd hdot (by decide)
  have hin : ':' ∈ ipPortText (dottedQuad b₀ b₁ b₂ b₃) port :=
    List.mem_append_right _ List.mem_cons_self
  rw [readIpPort]
  simp only [hsize, lt_irrefl, if_false, htext, pyDecode_utf8Bytes, hin, if_true]
  rw [ipPortText, pySplit_append hcolon, String.ofList_toList, pyInt_toDigits]
  rfl

/-- **Round trip through the segment**, for a printed IPv4 address, whatever was there before. -/
theorem readIpPort_write {stunList : StunList n} {best : Fin n} {b₀ b₁ b₂ b₃ : UInt8}
    (hip : (stunList best).publicIp = dottedQuad b₀ b₁ b₂ b₃) (segment : Segment) :
    readIpPort (writeSharedMemory stunList best segment)
      = .ok ((stunList best).publicIp, ((stunList best).publicPort.toNat : ℤ)) := by
  rw [writeSharedMemory, hip]
  exact readIpPort_snprintf b₀ b₁ b₂ b₃ _ (length_ftruncate shmSize _)

/-- **What a write leaves in the segment** and what is read from it, for every address, every port
and every earlier content. The text and its NUL fit, the bytes behind the NUL are the old ones, and
they do not matter. -/
theorem segment_roundTrip {stunList : StunList n} {best : Fin n} {b₀ b₁ b₂ b₃ : UInt8}
    {port : UInt16} (hip : (stunList best).publicIp = dottedQuad b₀ b₁ b₂ b₃)
    (hport : (stunList best).publicPort = port) (segment : Segment) :
    readIpPort (writeSharedMemory stunList best segment)
        = .ok (dottedQuad b₀ b₁ b₂ b₃, (port.toNat : ℤ)) ∧
      (utf8Bytes (ipPortText (dottedQuad b₀ b₁ b₂ b₃) port)).length + 1 ≤ shmSize ∧
      writeSharedMemory stunList best segment
        = some (utf8Bytes (ipPortText (dottedQuad b₀ b₁ b₂ b₃) port) ++ 0 ::
          (ftruncate shmSize (segment.getD [])).drop
            ((utf8Bytes (ipPortText (dottedQuad b₀ b₁ b₂ b₃) port)).length + 1)) := by
  have hascii : ∀ c ∈ ipPortText (dottedQuad b₀ b₁ b₂ b₃) port, c.toNat < 128 := fun c hc ↦
    (toNat_ipPortText hc).2
  have hfits : (utf8Bytes (ipPortText (dottedQuad b₀ b₁ b₂ b₃) port)).length < shmSize := by
    rw [length_utf8Bytes hascii]
    exact length_ipPortText_lt b₀ b₁ b₂ b₃ port
  refine ⟨?_, hfits, ?_⟩
  · rw [readIpPort_write hip, hip, hport]
  · rw [writeSharedMemory, hip, hport, snprintf_of_lt hfits]

def oneMapped (publicIp : String) (publicPort : UInt16) : StunList 1 := fun _ ↦
  { host := "stun.example", ipStr := "192.0.2.1", port := 3478, addr := ⟨3478, 0⟩,
    transactionId := Vector.replicate 12 0, sendTime := .reading 0 0, rttMs := 5,
    publicIp := publicIp, publicPort := publicPort }

/-- A short address written over a longer one. -/
theorem segment_roundTrip_shorter :
    readIpPort (writeSharedMemory (oneMapped "8.8.8.8" 53) 0
      (writeSharedMemory (oneMapped "198.51.100.107" 65535) 0 none)) = .ok ("8.8.8.8", 53) :=
  have hip : (oneMapped "8.8.8.8" 53 0).publicIp = dottedQuad 8 8 8 8 := by decide +kernel
  (segment_roundTrip hip rfl _).1

/-! ## A sequence of runs -/

abbrev AnyRun := (n : ℕ) × Run n

def afterRuns (runs : List AnyRun) (segment : Segment) : Segment :=
  runs.foldl (fun segment R ↦ R.2.publish segment) segment

/-- The public address a run discovered: that of the server it chose. -/
def AnyRun.found (R : AnyRun) : Option MappedOut := R.2.best.map fun best ↦ (R.2.table best).mapped

def resultTuple : Option MappedOut → String × ℤ
  | some out => (out.outIp, out.outPort.toNat)
  | none => ("", 0)

/-- After these runs, the last of them is the one that is read. -/
def ReadsLastRun (earlier : List AnyRun) (last : AnyRun) (segment : Segment) : Prop :=
  readIpPort (afterRuns (earlier ++ [last]) segment) = .ok (resultTuple last.found)

theorem readIpPort_publish_of_found {R : AnyRun} {out : MappedOut} (h : R.found = some out)
    (segment : Segment) : readIpPort (R.2.publish segment) = .ok (resultTuple (some out)) := by
  obtain ⟨best, hbest, rfl⟩ := Option.map_eq_some_iff.mp h
  have hvalid := R.2.isValidStun_of_best hbest
  obtain ⟨b₀, b₁, b₂, b₃, hip⟩ := (R.2.tableInv best).printed.resolve_left hvalid.1
  rw [Run.publish, hbest]
  exact readIpPort_write hip segment

theorem publish_of_not_found {R : AnyRun} (h : R.found = none) (segment : Segment) :
    R.2.publish segment = segment := by
  rw [Run.publish, Option.map_eq_none_iff.mp h]

theorem readIpPort_afterRuns_of_found {last : AnyRun} {out : MappedOut} (h : last.found = some out)
    (earlier : List AnyRun) (segment : Segment) :
    readIpPort (afterRuns (earlier ++ [last]) segment) = .ok (resultTuple (some out)) := by
  rw [afterRuns, List.foldl_append]
  exact readIpPort_publish_of_found h _

theorem afterRuns_of_not_found {last : AnyRun} (h : last.found = none) (earlier : List AnyRun)
    (segment : Segment) : afterRuns (earlier ++ [last]) segment = afterRuns earlier segment := by
  rw [afterRuns, List.foldl_append, List.foldl_cons, List.foldl_nil, publish_of_not_found h]
  rfl

/-- **What is read after any runs**: the last result there was, or else what was there at first. -/
theorem readIpPort_afterRuns (runs : List AnyRun) (segment : Segment) :
    readIpPort (afterRuns runs segment)
      = match (runs.filterMap AnyRun.found).getLast? with
        | some out => .ok (resultTuple (some out))
        | none => readIpPort segment := by
  -- by induction from the end, since only the last result counts
  induction runs using List.reverseRecOn with
  | nil => rfl
  | append_singleton runs R ih =>
    rw [List.filterMap_append]
    cases hfound : R.found with
    | none =>
      have hlast : [R].filterMap AnyRun.found = [] := by simp [hfound]
      rw [hlast, List.append_nil, afterRuns_of_not_found hfound, ih]
    | some out =>
      have hlast : [R].filterMap AnyRun.found = [out] := by simp [hfound]
      rw [hlast, List.getLast?_append, List.getLast?_singleton, Option.some_or]
      exact readIpPort_afterRuns_of_found hfound _ _

theorem outIp_ne_of_found {R : AnyRun} {out : MappedOut} (h : R.found = some out) :
    out.outIp ≠ "" := by
  obtain ⟨best, hbest, rfl⟩ := Option.map_eq_some_iff.mp h
  exact (R.2.isValidStun_of_best hbest).1

theorem filterMap_found_eq_nil_iff {runs : List AnyRun} :
    runs.filterMap AnyRun.found = [] ↔ ∀ R ∈ runs, R.found = none := List.filterMap_eq_nil_iff

theorem readIpPort_afterRuns_eq_empty_iff {runs : List AnyRun} {segment : Segment} :
    readIpPort (afterRuns runs segment) = .ok ("", 0) ↔
      (∀ R ∈ runs, R.found = none) ∧ readIpPort segment = .ok ("", 0) := by
  have hread := readIpPort_afterRuns runs segment
  cases hruns : (runs.filterMap AnyRun.found).getLast? with
  | none =>
    rw [hruns] at hread
    have hnone := filterMap_found_eq_nil_iff.mp (List.getLast?_eq_none_iff.mp hruns)
    rw [hread]
    exact (and_iff_right hnone).symm
  | some out =>
    rw [hruns] at hread
    obtain ⟨R, hR, hfound⟩ := List.mem_filterMap.mp (List.mem_of_getLast? hruns)
    constructor
    · intro h
      -- an address is read, and it is not the empty one
      have htuple := Except.ok.inj (hread.symm.trans h)
      exact absurd (congrArg Prod.fst htuple) (outIp_ne_of_found hfound)
    · rintro ⟨hnone, -⟩
      exact absurd (hfound.symm.trans (hnone R hR)) (Option.some_ne_none out)

/-- **When the reader sees the last run**: if that run found a server; otherwise only if no run
before it did either and the segment was there from the start, reading as empty. In all other cases
where runs have written to the segment, the reader returns the address of an earlier run. -/
theorem readsLastRun_iff (earlier : List AnyRun) (last : AnyRun) (segment : Segment) :
    (ReadsLastRun earlier last segment ↔
      last.found ≠ none ∨
        (∀ R ∈ earlier, R.found = none) ∧ readIpPort segment = .ok ("", 0)) ∧
      ∀ out, last.found = none → (earlier.filterMap AnyRun.found).getLast? = some out →
        readIpPort (afterRuns (earlier ++ [last]) segment)
          = .ok (out.outIp, (out.outPort.toNat : ℤ)) := by
  cases hlast : last.found with
  | some out =>
    refine ⟨⟨fun _ ↦ Or.inl (Option.some_ne_none out), fun _ ↦ ?_⟩, fun _ h ↦ by cases h⟩
    rw [ReadsLastRun, hlast]
    exact readIpPort_afterRuns_of_found hlast _ _
  | none =>
    rw [ReadsLastRun, hlast, afterRuns_of_not_found hlast]
    refine ⟨readIpPort_afterRuns_eq_empty_iff.trans (or_iff_right fun h ↦ h rfl).symm, ?_⟩
    intro out _ hout
    rw [readIpPort_afterRuns, hout]
    rfl

/-! ## An address left over -/

/-- A burst with one request, at 10 s. -/
private def oneRequest (wakeups : List Wakeup) : BurstInput 1 where
  transactionIds := fun _ ↦ Vector.replicate 12 9
  sendTimes := fun _ ↦ .reading 10 0
  start := .reading 10 0
  wakeups := wakeups
  stale := fun _ ↦ 0

private theorem sortedBy_one (table : Fin 1 → StunCtx) : SortedBy cmpRtt table := fun i j _ ↦ by
  rw [Subsingleton.elim i j]
  exact consistent_cmpRtt.refl _

/-- A run whose server answers after 5 ms with the address 198.51.100.7:4660. -/
def answeredRun : Run 1 where
  servers := fun _ ↦ ⟨"stun.example", "192.0.2.1", ⟨3478, 0⟩⟩
  first := oneRequest
    [{ msgs := [[0x01, 0x01, 0x00, 0x0C, 0x21, 0x12, 0xA4, 0x42, 9, 9, 9, 9, 9, 9, 9, 9, 9, 9, 9, 9,
        0x00, 0x20, 0x00, 0x08, 0x00, 0x01, 0x33, 0x26, 0xE7, 0x21, 0xC0, 0x45]]
       now := .reading 10 5000000, cur := .reading 10 100000000 }]
  second := oneRequest []
  count_le := one_le_maxStun
  clock := by
    unfold ClockOrdered
    decide +kernel
  order := Equiv.refl _
  sorted := sortedBy_one _

def silentRun : Run 1 where
  servers := fun _ ↦ ⟨"stun.example", "192.0.2.1", ⟨3478, 0⟩⟩
  first := oneRequest
    [.idle (.reading 10 0) (.reading 10 100000000)]
  second := oneRequest []
  count_le := one_le_maxStun
  clock := by
    unfold ClockOrdered
    decide +kernel
  order := Equiv.refl _
  sorted := sortedBy_one _

/-- After the first run finds a server and the second does not, the reader still gets the
address. -/
theorem silentRun_leaves_address :
    AnyRun.found ⟨1, silentRun⟩ = none ∧
      readIpPort (afterRuns ([⟨1, answeredRun⟩] ++ [⟨1, silentRun⟩]) none)
        = .ok ("198.51.100.7", 4660) ∧
      ¬ReadsLastRun [⟨1, answeredRun⟩] ⟨1, silentRun⟩ none := by
  have hanswered : AnyRun.found ⟨1, answeredRun⟩ = some ⟨"198.51.100.7", 4660⟩ := by
    decide +kernel
  have hsilent : AnyRun.found ⟨1, silentRun⟩ = none := by decide +kernel
  have hread : readIpPort (afterRuns ([⟨1, answeredRun⟩] ++ [⟨1, silentRun⟩]) none)
      = .ok ("198.51.100.7", 4660) := by
    rw [readIpPort_afterRuns]
    simp [hanswered, hsilent, resultTuple]
  refine ⟨hsilent, hread, fun h ↦ ?_⟩
  rw [ReadsLastRun, hread, hsilent] at h
  exact absurd (congrArg Prod.fst (Except.ok.inj h)) (by decide)

end NatGhost
