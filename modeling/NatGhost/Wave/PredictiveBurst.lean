import NatGhost.Foundation.CheckedCounters
import NatGhost.Stun.Context

/-!
# The predictive burst

`burst_predictive` sends one datagram to each port on its command line. The arguments go through
`stoi`, which accepts any `int`, and from there through a cast to `uint16_t`, which keeps the low
sixteen bits. So an argument that is not a port number is sent to the port it is congruent to, with
the bytes of that port in the payload.

What `inet_pton` makes of the address is a parameter, and so is which ports the kernel refuses to
send to; Linux refuses port 0. A refusal is printed, and the loop goes on. The socket is taken to be
created.
-/

namespace NatGhost

/-! ## `stoi` -/

/-- There is a number at the start of the text, after white space and a sign. -/
def hasNumber (text : List Char) : Bool :=
  match text.dropWhile isCSpace with
  | '-' :: digits => digits.head?.any Char.isDigit
  | '+' :: digits => digits.head?.any Char.isDigit
  | digits => digits.head?.any Char.isDigit

/-- `std::stoi`; `none` for its two exceptions. -/
def stoi (text : List Char) : Option ℤ := if hasNumber text then checkInt (atoi text) else none

/-! ## The code -/

/-- `payload` before the loop: `PAYLOAD`, and zeros up to `PAYLOAD_SIZE`. -/
def predictivePayload : List UInt8 := [0x50, 0x52, 0x45, 0x44, 0, 0, 0, 0]

section

variable (refused : UInt16 → Bool)

/-- One turn of the loop of `send_burst`, with the datagrams sent so far. -/
def sendBurstStep (sinAddr : UInt32) (s : List UInt8 × List Sent) (port : UInt16) :
    List UInt8 × List Sent :=
  let payload := (s.1.set 4 ((port >>> 8) &&& 0xFF).toUInt8).set 5 (port &&& 0xFF).toUInt8
  let datagram := { pkt := payload, addr := { sinPort := htons port, sinAddr := sinAddr } }
  (payload, if refused port then s.2 else s.2 ++ [datagram])

/-- `send_burst`: the datagrams that `sendto` sends. -/
def sendBurst (sinAddr : UInt32) (ports : List UInt16) : List Sent :=
  (ports.foldl (sendBurstStep refused sinAddr) (predictivePayload, [])).2

/-- How `main` ends. -/
inductive PredictiveRun where
  /-- The usage text, and 1. -/
  | usage
  /-- An exception of `stoi` that nobody catches. -/
  | terminated
  | complete (sent : List Sent)

def PredictiveRun.sent : PredictiveRun → List Sent
  | .complete sent => sent
  | _ => []

/-- `main` of `burst_predictive`. -/
def burstPredictive (inetPton : List Char → UInt32) (argv : List (List Char)) : PredictiveRun :=
  match argv with
  | _ :: targetIp :: arg :: args =>
    match (arg :: args).mapM stoi with
    | none => .terminated
    | some values => .complete (sendBurst refused (inetPton targetIp) (values.map UInt16.ofInt))
  | _ => .usage

end

/-! ## What is sent -/

def Sent.port (d : Sent) : UInt16 := ntohs d.addr.sinPort

def predictiveDatagram (sinAddr : UInt32) (port : UInt16) : Sent where
  pkt := [0x50, 0x52, 0x45, 0x44, (port >>> 8).toUInt8, port.toUInt8, 0, 0]
  addr := { sinPort := htons port, sinAddr := sinAddr }

theorem toUInt8_and_255 (x : UInt16) : (x &&& 0xFF).toUInt8 = x.toUInt8 := by
  rw [UInt16.toUInt8_and]
  exact UInt8.and_neg_one

variable (refused : UInt16 → Bool)

theorem foldl_sendBurstStep (sinAddr : UInt32) (ports : List UInt16) (b₄ b₅ : UInt8)
    (sent : List Sent) :
    (ports.foldl (sendBurstStep refused sinAddr) ([0x50, 0x52, 0x45, 0x44, b₄, b₅, 0, 0], sent)).2
      = sent ++ (ports.filter (!refused ·)).map (predictiveDatagram sinAddr) := by
  induction ports generalizing b₄ b₅ sent with
  | nil => exact (List.append_nil sent).symm
  | cons port ports ih =>
    have hstep : sendBurstStep refused sinAddr ([0x50, 0x52, 0x45, 0x44, b₄, b₅, 0, 0], sent) port
        = ((predictiveDatagram sinAddr port).pkt,
            if refused port then sent else sent ++ [predictiveDatagram sinAddr port]) := by
      simp only [sendBurstStep, toUInt8_and_255]
      rfl
    rw [List.foldl_cons, hstep, predictiveDatagram, ih]
    cases hport : refused port with
    | false =>
      rw [List.filter_cons_of_pos (by rw [hport]; rfl), List.map_cons, if_neg Bool.false_ne_true,
        List.append_assoc, List.singleton_append]
      rfl
    | true => rw [List.filter_cons_of_neg (by rw [hport]; decide), if_pos rfl]

/-- **One datagram for each port** that is not refused, in order. -/
theorem sendBurst_eq (sinAddr : UInt32) (ports : List UInt16) :
    sendBurst refused sinAddr ports
      = (ports.filter (!refused ·)).map (predictiveDatagram sinAddr) :=
  foldl_sendBurstStep refused sinAddr ports 0 0 []

theorem mapM_eq_some_of_map_eq {α β : Type} {f : α → Option β} {xs : List α} {ys : List β}
    (h : xs.map f = ys.map some) : xs.mapM f = some ys := by
  induction xs generalizing ys with
  | nil =>
    obtain rfl := List.map_eq_nil_iff.mp h.symm
    rfl
  | cons x xs ih =>
    obtain ⟨y, ys, rfl, hy, hys⟩ := List.map_eq_cons_iff.mp h.symm
    rw [List.mapM_cons, ← hy, ih hys.symm]
    rfl

theorem sent_burstPredictive (inetPton : List Char → UInt32) (program targetIp : List Char)
    {args : List (List Char)} {values : List ℤ} (h : args.map stoi = values.map some) :
    (burstPredictive refused inetPton (program :: targetIp :: args)).sent
      = (values.filter fun v ↦ !refused (UInt16.ofInt v)).map fun v ↦
          predictiveDatagram (inetPton targetIp) (UInt16.ofInt v) := by
  cases args with
  | nil =>
    obtain rfl := List.map_eq_nil_iff.mp h.symm
    rfl
  | cons arg args =>
    rw [burstPredictive, mapM_eq_some_of_map_eq h]
    change sendBurst refused (inetPton targetIp) (values.map UInt16.ofInt) = _
    rw [sendBurst_eq, List.filter_map, List.map_map]
    rfl

/-! ## Port numbers -/

def IsPort (v : ℤ) : Prop := 0 ≤ v ∧ v ≤ 65535

instance (v : ℤ) : Decidable (IsPort v) := inferInstanceAs (Decidable (_ ∧ _))

theorem toNat_ofInt_of_isPort {v : ℤ} (h : IsPort v) : ((UInt16.ofInt v).toNat : ℤ) = v := by
  obtain ⟨k, rfl⟩ := Int.eq_ofNat_of_zero_le h.1
  have hk : k < 65536 := by have := h.2; omega
  have hmod : ((k : ℤ) % 2 ^ 16).toNat = k := by omega
  rw [UInt16.ofInt, hmod, UInt16.toNat_ofNat_of_lt' hk]

/-- One datagram was sent for each port number among the values, in order and to that port, with its
high and its low byte in the payload, and none for the others. -/
structure SendsToPorts (values : List ℤ) (sent : List Sent) : Prop where
  ports : (sent.map fun d ↦ (d.port.toNat : ℤ)) = values.filter fun v ↦ decide (IsPort v)
  highByte : ∀ d ∈ sent, d.pkt[4]? = some (d.port >>> 8).toUInt8
  lowByte : ∀ d ∈ sent, d.pkt[5]? = some d.port.toUInt8

section

variable {refused} {values : List ℤ} {sinAddr : UInt32}

theorem port_predictiveDatagram (sinAddr : UInt32) (port : UInt16) :
    (predictiveDatagram sinAddr port).port = port := ntohs_htons port

theorem isPort_iff_of_map_eq
    (h : ((values.filter fun v ↦ !refused (UInt16.ofInt v)).map fun v ↦
        ((UInt16.ofInt v).toNat : ℤ)) = values.filter fun v ↦ decide (IsPort v))
    {v : ℤ} (hv : v ∈ values) : IsPort v ↔ refused (UInt16.ofInt v) = false := by
  -- a port number among the arguments is sent to, and by the same token accepted
  have haccepted : ∀ v ∈ values, IsPort v → refused (UInt16.ofInt v) = false := by
    intro v hv hport
    have hsent : v ∈ values.filter fun v ↦ decide (IsPort v) :=
      List.mem_filter.mpr ⟨hv, decide_eq_true hport⟩
    rw [← h] at hsent
    obtain ⟨w, hw, hvalue⟩ := List.mem_map.mp hsent
    have hsame : UInt16.ofInt w = UInt16.ofInt v := by
      rw [← UInt16.toNat_inj, ← Nat.cast_inj (R := ℤ), hvalue, toNat_ofInt_of_isPort hport]
    rw [← hsame]
    exact (Bool.not_eq_true' _).mp (List.mem_filter.mp hw).2
  refine ⟨haccepted v hv, fun hv' ↦ ?_⟩
  -- so there are as many port numbers as arguments that are accepted
  have hfilter : ((values.filter fun v ↦ !refused (UInt16.ofInt v)).filter fun v ↦
      decide (IsPort v)) = values.filter fun v ↦ decide (IsPort v) := by
    rw [List.filter_filter]
    refine List.filter_congr fun w hw ↦ ?_
    by_cases hport : IsPort w
    · rw [haccepted w hw hport, Bool.not_false, Bool.and_true]
    · rw [decide_eq_false hport, Bool.false_and]
  have hlength := congrArg List.length h
  rw [List.length_map, ← hfilter, eq_comm, List.length_filter_eq_length_iff] at hlength
  exact of_decide_eq_true (hlength v (List.mem_filter.mpr ⟨hv, by rw [hv']; rfl⟩))

theorem map_eq_of_isPort_iff
    (h : ∀ v ∈ values, IsPort v ↔ refused (UInt16.ofInt v) = false) :
    ((values.filter fun v ↦ !refused (UInt16.ofInt v)).map fun v ↦
        ((UInt16.ofInt v).toNat : ℤ)) = values.filter fun v ↦ decide (IsPort v) := by
  have hsame : (values.filter fun v ↦ !refused (UInt16.ofInt v))
      = values.filter fun v ↦ decide (IsPort v) := by
    refine List.filter_congr fun v hv ↦ ?_
    rw [Bool.eq_iff_iff, Bool.not_eq_true', decide_eq_true_iff]
    exact (h v hv).symm
  rw [hsame]
  refine (List.map_congr_left fun v hv ↦ ?_).trans (List.map_id _)
  exact toNat_ofInt_of_isPort (of_decide_eq_true (List.mem_filter.mp hv).2)

end

/-- **When the burst goes to the ports of the arguments.** Exactly if of the arguments those are
port numbers whose lower sixteen bits are a port that is not refused. -/
theorem sendsToPorts_iff (refused : UInt16 → Bool) (inetPton : List Char → UInt32)
    (program targetIp : List Char) (args : List (List Char)) (values : List ℤ)
    (h : args.map stoi = values.map some) :
    SendsToPorts values (burstPredictive refused inetPton (program :: targetIp :: args)).sent
      ↔ ∀ v ∈ values, IsPort v ↔ refused (UInt16.ofInt v) = false := by
  rw [sent_burstPredictive refused inetPton program targetIp h]
  constructor
  · intro hsends v hv
    have hports := hsends.ports
    rw [List.map_map] at hports
    simp only [Function.comp_def, port_predictiveDatagram] at hports
    exact isPort_iff_of_map_eq hports hv
  · intro hall
    refine ⟨?_, fun d hd ↦ ?_, fun d hd ↦ ?_⟩
    · rw [List.map_map]
      simp only [Function.comp_def, port_predictiveDatagram]
      exact map_eq_of_isPort_iff hall
    · obtain ⟨v, -, rfl⟩ := List.mem_map.mp hd
      rw [port_predictiveDatagram]
      rfl
    · obtain ⟨v, -, rfl⟩ := List.mem_map.mp hd
      rw [port_predictiveDatagram]
      rfl

/-- **65616 is sent to port 80.** -/
theorem largeArgument_sent : ¬∀ (inetPton : List Char → UInt32) (program targetIp : List Char)
    (args : List (List Char)) (values : List ℤ), args.map stoi = values.map some →
      SendsToPorts values
        (burstPredictive (· == 0) inetPton (program :: targetIp :: args)).sent := by
  intro h
  have hsends := h (fun _ ↦ 0) [] [] ["65616".toList] [65616] (by decide)
  exact absurd hsends.ports (by decide)

/-- Two arguments on a system that refuses port 0. -/
theorem sendsToPorts_iff_dns :
    SendsToPorts [53, 65535] (burstPredictive (· == 0) (fun _ ↦ 0x01020304)
        ["burst_predictive".toList, "1.2.3.4".toList, "53".toList, "65535".toList]).sent :=
  (sendsToPorts_iff (· == 0) (fun _ ↦ 0x01020304) "burst_predictive".toList "1.2.3.4".toList
    ["53".toList, "65535".toList] [53, 65535] (by decide)).mpr (by decide)

end NatGhost
