import NatGhost.Foundation.Memory
import NatGhost.Foundation.ReadTree
import NatGhost.Stun.Wire

/-!
# Decoding XOR-MAPPED-ADDRESS

`parse_xor_mapped_address` walks over the attributes behind the header with a cursor `attr` and a
counter `remain`, and stops at the first IPv4 XOR-MAPPED-ADDRESS. It is a program over raw memory:
`buf` is an address, and what the loop reads is whatever the memory holds there, inside the datagram
or not. Modelling it as a `ReadTree` keeps both questions one asks about it, what it returns and
which bytes it looked at, questions about the same definition.

## The scan as a chain of positions

`Scanned mem stop attr p` says that the cursor starting at `attr` arrives at `p`. Both halves of
the analysis are stated over this chain:

* on a datagram whose attributes are encoded one after another, the chain is the list of attribute
  boundaries, so the result is that of the first usable attribute;
* on arbitrary bytes, the loop guard covers only the four bytes of an attribute header, and the
  chain says at which headers the body goes on to read past the end.
-/

namespace NatGhost

open ReadTree

/-! ## The parser -/

/-- `int skip = 4 + alen`, rounded up to a multiple of four. -/
def skipLength (alen : UInt16) : ℕ :=
  4 + alen.toNat + (if alen.toNat % 4 ≠ 0 then 4 - alen.toNat % 4 else 0)

/-- The branch that stores a result: port and address, with the cookie XOR undone. -/
def storeMapped (attr : ℕ) : ReadTree ℕ UInt8 (ℤ × MappedOut) := do
  let xorPort := be16 (← cell (attr + 6)) (← cell (attr + 7))
  let outPort := xorPort ^^^ (magicCookie >>> 16).toUInt16
  let xorIp := le32 (← cell (attr + 8)) (← cell (attr + 9)) (← cell (attr + 10))
    (← cell (attr + 11))
  pure (0, { outIp := inetNtop (xorIp ^^^ htonl magicCookie), outPort := outPort })

/-- The `while` loop. The cursor only moves forward, so `remain` bounds the number of turns. -/
def scanAttributes (attr : ℕ) (remain : ℤ) (out : MappedOut) : ReadTree ℕ UInt8 (ℤ × MappedOut) :=
  if remain ≥ 4 then do
    let type := be16 (← cell attr) (← cell (attr + 1))
    let alen := be16 (← cell (attr + 2)) (← cell (attr + 3))
    if type = 0x0020 ∧ alen ≥ 8 then do
      let family ← cell (attr + 5)
      if family = 0x01 then
        storeMapped attr
      else
        scanAttributes (attr + skipLength alen) (remain - skipLength alen) out
    else
      scanAttributes (attr + skipLength alen) (remain - skipLength alen) out
  else
    pure (-1, out)
termination_by remain.toNat
decreasing_by all_goals (simp only [skipLength]; omega)

/-- `parse_xor_mapped_address`. The result is the return code together with what `out_ip` and
`*out_port` hold afterwards. -/
def parseXorMappedAddress (buf : ℕ) (len : ℤ) (out : MappedOut) :
    ReadTree ℕ UInt8 (ℤ × MappedOut) :=
  if len < stunPktLen then pure (-1, out) else scanAttributes (buf + 20) (len - 20) out

/-! ## One turn of the loop

The fields a turn reads, and what the turn does with them. Everything after this section uses these
lemmas and never unfolds the loop. -/

section Turn

variable (mem : ℕ → UInt8) (attr : ℕ)

/-- The type field of the attribute header at `attr`. -/
def typeAt : UInt16 := be16 (mem attr) (mem (attr + 1))

def alenAt : UInt16 := be16 (mem (attr + 2)) (mem (attr + 3))

/-- The header announces a XOR-MAPPED-ADDRESS long enough for IPv4. -/
def AnnouncesAddress : Prop := typeAt mem attr = 0x0020 ∧ 8 ≤ alenAt mem attr

/-- The condition under which the loop stops with a result. -/
def MappedAt : Prop := AnnouncesAddress mem attr ∧ mem (attr + 5) = 0x01

def addressAt : MappedOut where
  outIp := dottedQuad (mem (attr + 8) ^^^ 0x21) (mem (attr + 9) ^^^ 0x12)
    (mem (attr + 10) ^^^ 0xA4) (mem (attr + 11) ^^^ 0x42)
  outPort := be16 (mem (attr + 6)) (mem (attr + 7)) ^^^ 0x2112

def nextAttr : ℕ := attr + skipLength (alenAt mem attr)

instance : Decidable (AnnouncesAddress mem attr) := inferInstanceAs (Decidable (_ ∧ _))

instance : Decidable (MappedAt mem attr) := inferInstanceAs (Decidable (_ ∧ _))

end Turn

section

variable {mem mem' : ℕ → UInt8} {attr p : ℕ} {remain stop : ℤ} {out : MappedOut}

theorem four_le_skipLength (alen : UInt16) : 4 ≤ skipLength alen := by
  rw [skipLength]
  omega

theorem twelve_le_skipLength {alen : UInt16} (h : 8 ≤ alen) : 12 ≤ skipLength alen := by
  have hnat : 8 ≤ alen.toNat := UInt16.le_iff_toNat_le.mp h
  rw [skipLength]
  omega

theorem add_four_le_nextAttr (mem : ℕ → UInt8) (attr : ℕ) : attr + 4 ≤ nextAttr mem attr :=
  Nat.add_le_add_left (four_le_skipLength _) attr

theorem add_twelve_le_nextAttr (h : AnnouncesAddress mem attr) : attr + 12 ≤ nextAttr mem attr :=
  Nat.add_le_add_left (twelve_le_skipLength h.2) attr

theorem htonl_magicCookie : htonl magicCookie = le32 0x21 0x12 0xA4 0x42 := by decide

@[simp] theorem run_storeMapped (mem : ℕ → UInt8) (attr : ℕ) :
    run mem (storeMapped attr) = (0, addressAt mem attr) := by
  simp only [storeMapped, run_bind, run_cell, run_pure, addressAt, htonl_magicCookie, le32_xor,
    inetNtop_le32]
  rfl

@[simp] theorem reads_storeMapped (mem : ℕ → UInt8) (attr : ℕ) :
    reads mem (storeMapped attr)
      = [attr + 6, attr + 7, attr + 8, attr + 9, attr + 10, attr + 11] := by
  simp [storeMapped]

theorem run_scan_stop (h : remain < 4) : run mem (scanAttributes attr remain out) = (-1, out) := by
  rw [scanAttributes, if_neg (by omega), run_pure]

/-- The result of one turn, with the loop test written as the two conditions above. -/
private theorem run_scan_turn (hremain : 4 ≤ remain) :
    run mem (scanAttributes attr remain out)
      = if AnnouncesAddress mem attr then
          if mem (attr + 5) = 0x01 then run mem (storeMapped attr)
          else run mem
            (scanAttributes (nextAttr mem attr) (remain - skipLength (alenAt mem attr)) out)
        else run mem
          (scanAttributes (nextAttr mem attr) (remain - skipLength (alenAt mem attr)) out) := by
  rw [scanAttributes, if_pos hremain]
  by_cases htest : AnnouncesAddress mem attr
  · have htest' : be16 (mem attr) (mem (attr + 1)) = 0x0020
        ∧ be16 (mem (attr + 2)) (mem (attr + 3)) ≥ 8 := htest
    by_cases hfamily : mem (attr + 5) = 0x01
    · simp [htest, htest', hfamily]
    · simp [htest, htest', hfamily, nextAttr, alenAt]
  · have htest' : ¬(be16 (mem attr) (mem (attr + 1)) = 0x0020
        ∧ be16 (mem (attr + 2)) (mem (attr + 3)) ≥ 8) := htest
    simp [htest, htest', nextAttr, alenAt]

theorem reads_scan_turn (hremain : 4 ≤ remain) :
    reads mem (scanAttributes attr remain out)
      = [attr, attr + 1, attr + 2, attr + 3]
        ++ ((if AnnouncesAddress mem attr then [attr + 5] else [])
        ++ (if MappedAt mem attr then
            [attr + 6, attr + 7, attr + 8, attr + 9, attr + 10, attr + 11]
          else reads mem
            (scanAttributes (nextAttr mem attr) (remain - skipLength (alenAt mem attr)) out))) := by
  rw [scanAttributes, if_pos hremain]
  by_cases htest : AnnouncesAddress mem attr
  · have htest' : be16 (mem attr) (mem (attr + 1)) = 0x0020
        ∧ be16 (mem (attr + 2)) (mem (attr + 3)) ≥ 8 := htest
    by_cases hfamily : mem (attr + 5) = 0x01
    · simp [MappedAt, htest, htest', hfamily]
    · simp [MappedAt, htest, htest', hfamily, nextAttr, alenAt]
  · have htest' : ¬(be16 (mem attr) (mem (attr + 1)) = 0x0020
        ∧ be16 (mem (attr + 2)) (mem (attr + 3)) ≥ 8) := htest
    simp [MappedAt, htest, htest', nextAttr, alenAt]

theorem run_scan_mapped (hremain : 4 ≤ remain) (h : MappedAt mem attr) :
    run mem (scanAttributes attr remain out) = (0, addressAt mem attr) := by
  rw [run_scan_turn hremain, if_pos h.1, if_pos h.2, run_storeMapped]

theorem run_scan_skip (hremain : 4 ≤ remain) (h : ¬MappedAt mem attr) :
    run mem (scanAttributes attr remain out)
      = run mem
        (scanAttributes (nextAttr mem attr) (remain - skipLength (alenAt mem attr)) out) := by
  rw [run_scan_turn hremain]
  split_ifs with htest hfamily
  · exact absurd ⟨htest, hfamily⟩ h
  · rfl
  · rfl

theorem reads_scan_stop (h : remain < 4) : reads mem (scanAttributes attr remain out) = [] := by
  rw [scanAttributes, if_neg (by omega), reads_pure]

theorem scan_induction {motive : ℕ → Prop} (mem : ℕ → UInt8) (stop : ℤ)
    (done : ∀ attr : ℕ, stop - attr < 4 → motive attr)
    (step : ∀ attr : ℕ, 4 ≤ stop - attr → motive (nextAttr mem attr) → motive attr) (attr : ℕ) :
    motive attr := by
  induction hn : (stop - attr).toNat using Nat.strong_induction_on generalizing attr with
  | _ n ih =>
    rcases Int.lt_or_le (stop - attr) 4 with hstop | hgo
    · exact done attr hstop
    · have hnext := add_four_le_nextAttr mem attr
      exact step attr hgo (ih _ (by omega) (nextAttr mem attr) rfl)

/-! ## The chain of positions -/

/-- The cursor starting at `attr` arrives at a position: it has passed only attributes whose header
lies before `stop` and which are not usable addresses. -/
inductive Scanned (mem : ℕ → UInt8) (stop : ℤ) : ℕ → ℕ → Prop
  | refl (attr : ℕ) : Scanned mem stop attr attr
  | skip {attr p : ℕ} (hremain : 4 ≤ stop - attr) (h : ¬MappedAt mem attr)
      (next : Scanned mem stop (nextAttr mem attr) p) : Scanned mem stop attr p

theorem Scanned.le (h : Scanned mem stop attr p) : attr ≤ p := by
  induction h with
  | refl attr => exact le_rfl
  | @skip attr p _ _ _ ih =>
    have := add_four_le_nextAttr mem attr
    omega

theorem Scanned.congr (h : Scanned mem stop attr p)
    (hmem : ∀ a, attr ≤ a → a < p → mem' a = mem a) :
    Scanned mem' stop attr p := by
  induction h with
  | refl attr => exact .refl attr
  | @skip attr p hremain hmapped next ih =>
    have hle := next.le
    have hfour := add_four_le_nextAttr mem attr
    -- the header of the passed attribute lies before `p`
    have htype : typeAt mem' attr = typeAt mem attr := by
      rw [typeAt, typeAt, hmem attr (by omega) (by omega), hmem (attr + 1) (by omega) (by omega)]
    have halen : alenAt mem' attr = alenAt mem attr := by
      rw [alenAt, alenAt, hmem (attr + 2) (by omega) (by omega),
        hmem (attr + 3) (by omega) (by omega)]
    have hnext : nextAttr mem' attr = nextAttr mem attr := by rw [nextAttr, nextAttr, halen]
    refine .skip hremain ?_ (hnext ▸ ih fun a ha hap ↦ hmem a (by omega) hap)
    rintro ⟨⟨htype', halen'⟩, hfamily⟩
    rw [htype] at htype'
    rw [halen] at halen'
    -- and so does its family byte, if it is looked at
    have htwelve := add_twelve_le_nextAttr ⟨htype', halen'⟩
    rw [hmem (attr + 5) (by omega) (by omega)] at hfamily
    exact hmapped ⟨⟨htype', halen'⟩, hfamily⟩

theorem run_scan_of_scanned (h : Scanned mem stop attr p) :
    run mem (scanAttributes attr (stop - attr) out)
      = run mem (scanAttributes p (stop - p) out) := by
  induction h with
  | refl attr => rfl
  | @skip attr p hremain hmapped next ih =>
    rw [run_scan_skip hremain hmapped, ← ih]
    congr 2
    rw [nextAttr]
    omega

/-! ## The attribute that is used -/

/-- The attribute the parser takes its result from, in a message of `len` bytes at `buf`. -/
def UsesAttr (mem : ℕ → UInt8) (buf len p : ℕ) : Prop :=
  Scanned mem (buf + len) (buf + 20) p ∧ p + 4 ≤ buf + len ∧ MappedAt mem p

theorem exists_scanned_or_run_eq (mem : ℕ → UInt8) (stop : ℤ) (attr : ℕ) :
    (∃ p, Scanned mem stop attr p ∧ 4 ≤ stop - p ∧ MappedAt mem p) ∨
      ∀ out, run mem (scanAttributes attr (stop - attr) out) = (-1, out) := by
  induction attr using scan_induction mem stop with
  | done attr hstop => exact Or.inr fun out ↦ run_scan_stop hstop
  | step attr hremain ih =>
    by_cases hmapped : MappedAt mem attr
    · exact Or.inl ⟨attr, .refl attr, hremain, hmapped⟩
    · rcases ih with ⟨p, hp, hin⟩ | hnone
      · exact Or.inl ⟨p, .skip hremain hmapped hp, hin⟩
      · refine Or.inr fun out ↦ ?_
        rw [run_scan_of_scanned (.skip hremain hmapped (.refl _)), hnone]

theorem Scanned.eq_of_mapped {q : ℕ} (hp : Scanned mem stop attr p) (hq : Scanned mem stop attr q)
    (hmapped : MappedAt mem p) (hmapped' : MappedAt mem q) : p = q := by
  induction hp with
  | refl attr =>
    cases hq with
    | refl => rfl
    | skip _ hnot _ => exact absurd hmapped hnot
  | skip _ hnot _ ih =>
    cases hq with
    | refl => exact absurd hmapped' hnot
    | skip _ _ next => exact ih next hmapped

theorem UsesAttr.unique {buf len q : ℕ} (hp : UsesAttr mem buf len p)
    (hq : UsesAttr mem buf len q) :
    p = q := hp.1.eq_of_mapped hq.1 hp.2.2 hq.2.2

theorem parse_eq_scan {buf : ℕ} {len : ℤ} (h : (stunPktLen : ℤ) ≤ len) :
    parseXorMappedAddress buf len out
      = scanAttributes (buf + 20) ((buf + len) - (buf + 20 : ℕ)) out := by
  have hremain : len - 20 = (buf + len) - (buf + 20 : ℕ) := by omega
  rw [parseXorMappedAddress, if_neg (Int.not_lt.mpr h), hremain]

theorem UsesAttr.run_parse {buf len : ℕ} (h : UsesAttr mem buf len p) :
    run mem (parseXorMappedAddress buf len out) = (0, addressAt mem p) := by
  obtain ⟨hscanned, hin, hmapped⟩ := h
  have hle := hscanned.le
  rw [parse_eq_scan (by rw [stunPktLen]; omega), run_scan_of_scanned hscanned,
    run_scan_mapped (by omega) hmapped]

/-- **The parser's verdict**: it takes its result from an attribute, or fails and leaves the outputs
alone. -/
theorem usesAttr_or_run_parse_eq (mem : ℕ → UInt8) (buf len : ℕ) :
    (∃ p, UsesAttr mem buf len p) ∨
      ∀ out, run mem (parseXorMappedAddress buf len out) = (-1, out) := by
  by_cases hshort : (len : ℤ) < stunPktLen
  · refine Or.inr fun out ↦ ?_
    rw [parseXorMappedAddress, if_pos hshort, run_pure]
  · rcases exists_scanned_or_run_eq mem (buf + len) (buf + 20) with ⟨p, hp, hin, hmapped⟩ | hnone
    · exact Or.inl ⟨p, hp, by omega, hmapped⟩
    · refine Or.inr fun out ↦ ?_
      rw [parse_eq_scan (Int.not_lt.mp hshort), hnone]

/-! ## Well-formed attribute lists

On an encoded attribute the fields a turn reads are the fields of the attribute, and the cursor
moves by exactly the length of the encoding. The walk over a list is then an induction over the
list. -/

section Encoded

variable {a : Attribute}

theorem typeAt_of_holds (h : Holds mem attr a.encode) : typeAt mem attr = a.type := by
  have h0 := h.getD (i := 0) (by rw [a.length_encode]; omega) 0
  have h1 := h.getD (i := 1) (by rw [a.length_encode]; omega) 0
  rw [typeAt, ← Nat.add_zero attr, Nat.add_assoc, h0, h1]
  exact be16_bytesBe16 a.type

theorem alenAt_of_holds (h : Holds mem attr a.encode) : alenAt mem attr = a.alen := by
  have h2 := h.getD (i := 2) (by rw [a.length_encode]; omega) 0
  have h3 := h.getD (i := 3) (by rw [a.length_encode]; omega) 0
  rw [alenAt, h2, h3]
  exact be16_bytesBe16 a.alen

theorem value_of_holds (h : Holds mem attr a.encode) {i : ℕ} (hi : i < a.value.length) :
    mem (attr + 4 + i) = a.value.getD i 0 :=
  (holds_append_iff.mp (holds_append_iff.mp h).1).2.getD hi 0

theorem skipLength_alen (a : Attribute) : skipLength a.alen = a.encode.length := by
  rw [skipLength, a.toNat_alen, a.length_encode]
  split_ifs with h <;> omega

theorem announcesAddress_iff_of_holds (h : Holds mem attr a.encode) :
    AnnouncesAddress mem attr ↔ a.type = 0x0020 ∧ 8 ≤ a.value.length := by
  rw [AnnouncesAddress, typeAt_of_holds h, alenAt_of_holds h, UInt16.le_iff_toNat_le, a.toNat_alen]
  rfl

theorem mappedAt_iff_of_holds (h : Holds mem attr a.encode) :
    MappedAt mem attr ↔ a.IsXorMapped := by
  rw [MappedAt, announcesAddress_iff_of_holds h, Attribute.IsXorMapped, and_assoc]
  refine and_congr_right fun _ ↦ and_congr_right fun hlen ↦ ?_
  rw [← value_of_holds h (i := 1) (by omega)]

theorem addressAt_of_holds (h : Holds mem attr a.encode) (hlen : 8 ≤ a.value.length) :
    addressAt mem attr = a.address := by
  have hv : ∀ i < 8, mem (attr + 4 + i) = a.value.getD i 0 := fun i hi ↦
    value_of_holds h (by omega)
  rw [addressAt, Attribute.address, ← hv 2 (by omega), ← hv 3 (by omega), ← hv 4 (by omega),
    ← hv 5 (by omega), ← hv 6 (by omega), ← hv 7 (by omega)]

/-- What the parser should make of an attribute list: the first usable address, or nothing. -/
def firstAddress (attrs : List Attribute) (out : MappedOut) : ℤ × MappedOut :=
  match attrs.find? fun a ↦ decide a.IsXorMapped with
  | some a => (0, a.address)
  | none => (-1, out)

theorem firstAddress_cons_of_mapped {attrs : List Attribute} (h : a.IsXorMapped) :
    firstAddress (a :: attrs) out = (0, a.address) := by
  simp [firstAddress, h]

theorem firstAddress_cons_of_not {attrs : List Attribute} (h : ¬a.IsXorMapped) :
    firstAddress (a :: attrs) out = firstAddress attrs out := by
  simp [firstAddress, h]

theorem firstAddress_of_forall_not {attrs : List Attribute} (h : ∀ b ∈ attrs, ¬b.IsXorMapped) :
    firstAddress attrs out = (-1, out) := by
  induction attrs with
  | nil => rfl
  | cons b attrs ih =>
    rw [firstAddress_cons_of_not (h b List.mem_cons_self)]
    exact ih fun c hc ↦ h c (List.mem_cons_of_mem b hc)

theorem firstAddress_append_cons {pre post : List Attribute} (hpre : ∀ b ∈ pre, ¬b.IsXorMapped)
    (h : a.IsXorMapped) : firstAddress (pre ++ a :: post) out = (0, a.address) := by
  induction pre with
  | nil => exact firstAddress_cons_of_mapped h
  | cons b pre ih =>
    rw [List.cons_append, firstAddress_cons_of_not (hpre b List.mem_cons_self)]
    exact ih fun c hc ↦ hpre c (List.mem_cons_of_mem b hc)

theorem firstAddress_fst_eq_zero_iff {attrs : List Attribute} :
    (firstAddress attrs out).1 = 0 ↔ ∃ b ∈ attrs, b.IsXorMapped := by
  induction attrs with
  | nil => simp [firstAddress]
  | cons b attrs ih =>
    by_cases hb : b.IsXorMapped
    · simp [firstAddress_cons_of_mapped hb, hb]
    · simp [firstAddress_cons_of_not hb, hb, ih]

theorem run_scan_encoded (attrs : List Attribute)
    (h : Holds mem attr (attrs.flatMap Attribute.encode)) :
    run mem (scanAttributes attr (attrs.flatMap Attribute.encode).length out)
      = firstAddress attrs out := by
  induction attrs generalizing attr with
  | nil => exact run_scan_stop (by simp)
  | cons a attrs ih =>
    rw [List.flatMap_cons, holds_append_iff] at h
    obtain ⟨ha, hrest⟩ := h
    have hlength := a.length_encode
    have hremain : (4 : ℤ) ≤ ((a :: attrs).flatMap Attribute.encode).length := by
      rw [List.flatMap_cons, List.length_append]
      omega
    by_cases hmapped : a.IsXorMapped
    · rw [run_scan_mapped hremain ((mappedAt_iff_of_holds ha).mpr hmapped),
        addressAt_of_holds ha hmapped.2.1, firstAddress_cons_of_mapped hmapped]
    · rw [run_scan_skip hremain (mt (mappedAt_iff_of_holds ha).mp hmapped), nextAttr,
        alenAt_of_holds ha, skipLength_alen, firstAddress_cons_of_not hmapped, ← ih hrest,
        List.flatMap_cons, List.length_append]
      congr 2
      omega

end Encoded

/-- **The parser on a well-formed datagram**, followed in memory by anything. -/
theorem run_parse_datagram (header : Vector UInt8 20) (attrs : List Attribute) (buf : ℕ)
    (stale : ℕ → UInt8) (out : MappedOut) :
    run (overlay buf (datagram header attrs) stale)
        (parseXorMappedAddress buf (datagram header attrs).length out)
      = firstAddress attrs out := by
  have hholds := holds_overlay buf (datagram header attrs) stale
  have hattrs := (holds_append_iff.mp hholds).2
  have hlength := length_datagram header attrs
  rw [Vector.length_toList] at hattrs
  rw [parseXorMappedAddress, if_neg (by rw [stunPktLen]; omega), ← run_scan_encoded attrs hattrs]
  congr 2
  omega

/-- **Decoding is exact on well-formed datagrams.** Success means that some attribute is a usable
IPv4 XOR-MAPPED-ADDRESS; the result is then the first of them, in particular the address that was
encoded; and on failure the outputs are left alone. -/
theorem parseXorMappedAddress_exact (header : Vector UInt8 20) (attrs : List Attribute) (buf : ℕ)
    (stale : ℕ → UInt8) (out : MappedOut) :
    let bytes := datagram header attrs
    let result := run (overlay buf bytes stale) (parseXorMappedAddress buf bytes.length out)
    (result.1 = 0 ↔ ∃ a ∈ attrs, a.IsXorMapped) ∧
      (∀ pre a post, attrs = pre ++ a :: post → (∀ b ∈ pre, ¬b.IsXorMapped) → a.IsXorMapped →
        result = (0, a.address)) ∧
      (∀ pre a post reserved ip port extra, attrs = pre ++ a :: post →
        (∀ b ∈ pre, ¬b.IsXorMapped) → a.type = 0x0020 →
        a.value = Attribute.xorMappedValue reserved ip port extra →
        result = (0, { outIp := dottedQuad (ip.get 0) (ip.get 1) (ip.get 2) (ip.get 3)
                       outPort := port })) ∧
      ((∀ a ∈ attrs, ¬a.IsXorMapped) → result = (-1, out)) := by
  intro bytes result
  have hresult : result = firstAddress attrs out := run_parse_datagram header attrs buf stale out
  rw [hresult]
  refine ⟨firstAddress_fst_eq_zero_iff, ?_, ?_, firstAddress_of_forall_not⟩
  · rintro pre a post rfl hpre ha
    exact firstAddress_append_cons hpre ha
  · rintro pre a post reserved ip port extra rfl hpre htype hvalue
    rw [firstAddress_append_cons hpre (Attribute.isXorMapped_of_value htype hvalue),
      Attribute.address_of_value hvalue]

end

end NatGhost
