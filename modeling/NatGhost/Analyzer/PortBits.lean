import NatGhost.Analyzer.PortHints
import NatGhost.Foundation.Checked
import NatGhost.Foundation.MsbBits

/-!
# Ports as bits, and back

`main` of the analyzer writes the ports of the log as one stream of bits, sixteen for each, most
significant first. What the predictor makes of the stream is cut into groups of sixteen again, and
each group shifted into a `uint16_t`. The packing loop runs while `i + 15` is an index, so it stops
in front of an incomplete group.

Both directions go through `packPorts_append`: the loop on the bits of some ports with fewer than
sixteen bits behind them gives these ports. Every vector of bits is of that form (`exists_ports`).
-/

namespace NatGhost

open Checked

/-! ## The code -/

/-- `for (int i = 15; i >= 0; --i) bitstream.push_back((p.port >> i) & 1);` -/
def portBits (port : UInt16) : List ℕ := (List.range 16).reverse.map fun i ↦ port.toNat >>> i &&& 1

/-- `bitstream`. -/
def bitstream (data : List PacketInfo) : List ℕ := data.flatMap fun p ↦ portBits p.port

/-- `port = (port << 1) | bit`, computed in `int` and cut to sixteen bits. -/
def pushBit (port : UInt16) (bit : ℕ) : UInt16 := UInt16.ofNat (port.toNat <<< 1 ||| bit)

/-- The port at index `i`: the inner loop. -/
def packPort (predictedBits : List ℕ) (i : ℕ) : Checked UInt16 :=
  (List.range' 0 16).foldlM (fun port (j : ℕ) ↦ do
    let bit ← readAt predictedBits ((i + j : ℕ) : ℤ)
    pure (pushBit port bit)) 0

/-- The outer loop from index `i` on. -/
def packLoop (predictedBits : List ℕ) (i : ℕ) (predictedPorts : List UInt16) :
    Checked (List UInt16) :=
  if i + 15 < predictedBits.length then do
    let port ← packPort predictedBits i
    packLoop predictedBits (i + 16) (predictedPorts ++ [port])
  else pure predictedPorts
termination_by predictedBits.length - i

/-- The packing of `main`. -/
def packPorts (predictedBits : List ℕ) : Checked (List UInt16) := packLoop predictedBits 0 []

/-! ## One port -/

theorem portBits_eq (port : UInt16) : portBits port = bitsMsb 16 port.toNat := rfl

theorem toNat_pushBit (port : UInt16) {bit : ℕ} (h : bit < 2) :
    (pushBit port bit).toNat = (2 * port.toNat + bit) % 65536 := by
  have hor : port.toNat <<< 1 ||| bit = 2 * port.toNat + bit := by
    rw [← Nat.shiftLeft_add_eq_or_of_lt (show bit < 2 ^ 1 from h), Nat.shiftLeft_eq, Nat.mul_comm,
      Nat.pow_one]
  rw [pushBit, hor]
  exact UInt16.toNat_ofNat

theorem toNat_foldl_pushBit {bits : List ℕ} (h : ∀ b ∈ bits, b < 2) :
    (bits.foldl pushBit 0).toNat = ofBitsMsb bits % 65536 := by
  induction bits using List.reverseRecOn with
  | nil => rfl
  | append_singleton bits b ih =>
    have hb : b < 2 := h b (List.mem_append_right _ (List.mem_singleton_self b))
    rw [List.foldl_append, List.foldl_cons, List.foldl_nil, toNat_pushBit _ hb,
      ih fun c hc ↦ h c (List.mem_append_left _ hc), ofBitsMsb_concat]
    omega

/-- **The bits of a port are packed into that port.** -/
theorem foldl_pushBit_portBits (port : UInt16) : (portBits port).foldl pushBit 0 = port := by
  apply UInt16.toNat_inj.mp
  rw [portBits_eq, toNat_foldl_pushBit fun b hb ↦ lt_two_of_mem_bitsMsb hb,
    ofBitsMsb_bitsMsb port.toNat_lt]
  exact Nat.mod_eq_of_lt port.toNat_lt

/-- **Sixteen bits are those of the port they are packed into.** -/
theorem portBits_foldl_pushBit {bits : List ℕ} (h : ∀ b ∈ bits, b < 2)
    (hlength : bits.length = 16) :
    portBits (bits.foldl pushBit 0) = bits := by
  have hlt : ofBitsMsb bits < 65536 := by
    have hbound := ofBitsMsb_lt h
    rwa [hlength] at hbound
  have hbits := bitsMsb_ofBitsMsb h
  rw [hlength] at hbits
  rwa [portBits_eq, toNat_foldl_pushBit h, Nat.mod_eq_of_lt hlt]

/-! ## The loops -/

section

variable {bits rest : List ℕ} {i : ℕ}

theorem packPort_eq (h : i + 16 ≤ bits.length) :
    packPort bits i = pure (((bits.drop i).take 16).foldl pushBit 0) := by
  have hloop := safe_foldlM_range' (fun (port : UInt16) (j : ℕ) ↦ (do
      let bit ← readAt bits ((i + j : ℕ) : ℤ)
      pure (pushBit port bit) : Checked UInt16))
    (fun j port ↦ port = ((bits.drop i).take j).foldl pushBit 0) (a := 0) 0 16 rfl
    fun j port _ hj hport ↦ ?_
  · exact eq_pure hloop.1.ok hloop.1.runs hloop.2
  · have hin : i + j < bits.length := by omega
    refine ⟨?_, ?_⟩
    · exact (Safe.readAt (Int.natCast_nonneg _) (by exact_mod_cast hin)).bind (Safe.pure _)
    · have hdrop : j < (bits.drop i).length := by
        rw [List.length_drop]
        omega
      rw [val_bind, val_readAt_natCast, val_pure, hport, List.take_succ_eq_append_getElem hdrop,
        List.foldl_append, List.foldl_cons, List.foldl_nil, List.getElem_drop,
        List.getD_eq_getElem _ _ hin]

/-- **The outer loop** on the bits of some ports, with an incomplete group behind them. -/
theorem packLoop_eq (ps done : List UInt16) (before : List ℕ) (hrest : rest.length < 16) :
    packLoop (before ++ (ps.flatMap portBits ++ rest)) before.length done = pure (done ++ ps) := by
  induction ps generalizing before done with
  | nil =>
    rw [packLoop, if_neg, List.append_nil]
    rw [List.flatMap_nil, List.nil_append, List.length_append]
    omega
  | cons p ps ih =>
    have hlength : (portBits p).length = 16 := length_bitsMsb 16 p.toNat
    have hguard : before.length + 16
        ≤ (before ++ ((p :: ps).flatMap portBits ++ rest)).length := by
      rw [List.flatMap_cons, List.length_append, List.length_append, List.length_append, hlength]
      omega
    have hgroup : ((before ++ ((p :: ps).flatMap portBits ++ rest)).drop before.length).take 16
        = portBits p := by
      rw [List.drop_left, List.flatMap_cons, List.append_assoc, ← hlength, List.take_left]
    have hnext : before ++ ((p :: ps).flatMap portBits ++ rest)
        = (before ++ portBits p) ++ (ps.flatMap portBits ++ rest) := by
      rw [List.flatMap_cons, List.append_assoc, List.append_assoc]
    rw [packLoop, if_pos (Nat.lt_of_succ_le hguard), packPort_eq hguard, hgroup,
      foldl_pushBit_portBits, hnext]
    have hstep := ih (done ++ [p]) (before ++ portBits p)
    rw [List.length_append, hlength] at hstep
    rw [Checked.pure_bind, hstep, List.append_assoc, List.singleton_append]

/-- **Every vector of bits** is the bits of some ports and an incomplete group. -/
theorem exists_ports (h : ∀ b ∈ bits, b < 2) :
    ∃ (ps : List UInt16) (rest : List ℕ), bits = ps.flatMap portBits ++ rest ∧
      rest.length < 16 := by
  induction hn : bits.length using Nat.strongRecOn generalizing bits with
  | ind n ih =>
    rcases Nat.lt_or_ge bits.length 16 with hshort | hlong
    · exact ⟨[], bits, rfl, hshort⟩
    · have hgroup : (bits.take 16).length = 16 := by rw [List.length_take, min_eq_left hlong]
      have hfirst := portBits_foldl_pushBit (fun b hb ↦ h b (List.mem_of_mem_take hb)) hgroup
      obtain ⟨ps, rest, hsplit, hrest⟩ := ih (bits.drop 16).length (by rw [List.length_drop]; omega)
        (fun b hb ↦ h b (List.mem_of_mem_drop hb)) rfl
      refine ⟨(bits.take 16).foldl pushBit 0 :: ps, rest, ?_, hrest⟩
      rw [List.flatMap_cons, hfirst, List.append_assoc, ← hsplit, List.take_append_drop]

theorem length_flatMap_portBits (ps : List UInt16) :
    (ps.flatMap portBits).length = 16 * ps.length := by
  induction ps with
  | nil => rfl
  | cons p ps ih =>
    rw [List.flatMap_cons, List.length_append, ih, portBits_eq, length_bitsMsb, List.length_cons]
    omega

theorem packPorts_append (ps : List UInt16) (hrest : rest.length < 16) :
    packPorts (ps.flatMap portBits ++ rest) = pure ps := packLoop_eq ps [] [] hrest

theorem bitstream_eq (data : List PacketInfo) : bitstream data = (ports data).flatMap portBits := by
  rw [bitstream, ports, List.flatMap_map]

end

/-- **Packing undoes unpacking**, for the ports of every log, and unpacking undoes packing, for the
complete groups of every vector of bits. No index is outside the vector. -/
theorem packPorts_bitstream :
    (∀ data : List PacketInfo, packPorts (bitstream data) = ⟨ports data, true, true⟩) ∧
      ∀ bits : List ℕ, (∀ b ∈ bits, b < 2) →
        (packPorts bits).ok = true ∧ (packPorts bits).val.length = bits.length / 16 ∧
          (packPorts bits).val.flatMap portBits = bits.take (16 * (bits.length / 16)) := by
  constructor
  · intro data
    have h := packPorts_append (ports data) (show ([] : List ℕ).length < 16 by decide)
    rwa [List.append_nil, ← bitstream_eq] at h
  · intro bits hbits
    obtain ⟨ps, rest, rfl, hrest⟩ := exists_ports hbits
    have hlength : (ps.flatMap portBits ++ rest).length / 16 = ps.length := by
      rw [List.length_append, length_flatMap_portBits]
      omega
    rw [packPorts_append ps hrest, hlength, ← length_flatMap_portBits, List.take_left]
    exact ⟨rfl, rfl, rfl⟩

/-- Thirty-three ones are two ports, and one bit is left over. -/
theorem packPorts_bitstream_ones :
    (packPorts (List.replicate 33 1)).ok = true ∧ (packPorts (List.replicate 33 1)).val.length = 2 ∧
      (packPorts (List.replicate 33 1)).val.flatMap portBits = List.replicate 32 1 :=
  packPorts_bitstream.2 (List.replicate 33 1) (by decide)

end NatGhost
