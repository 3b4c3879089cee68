import NatGhost.Foundation.Grouping
import NatGhost.Scan.AdaptiveProbe

/-!
# The passive analyzer

`nat_sniffer.py` classifies each packet it sees, notes an action for its source and destination, and
prints a summary. `classify_packet` is called packet by packet with a dictionary that is kept from
run to run, so the summary of a run is about all packets so far (`runSniffer_prints`).

The action of a TCP packet is made from its flags. The eight combinations that `adaptive_probe`
sends get eight different actions (`flagAction_injOn`), so the summary shows its traffic as it is:
with all combinations, for each address as often as there are ports (`sniffer_sees_probe`).

Scapy is not part of the repository. A packet is what `classify_packet` looks at: its layers with
their fields. The flags of a TCP layer are of any type `F`; how they are compared with a text and
how they are printed are parameters.
-/

namespace NatGhost.NatSniffer

/-! ## The code -/

/-- A packet, with type and code of its ICMP layer, the ports of its UDP layer, and flags and ports
of its TCP layer. -/
structure Packet (F : Type) where
  ip : Option (String × String)
  icmp : Option (ℕ × ℕ)
  udp : Option (ℤ × ℤ)
  tcp : Option (F × ℤ × ℤ)

/-- A key of `responses`. -/
structure Flow where
  src : String
  dst : String
  deriving DecidableEq

/-- What `classify_packet` notes and logs about a packet. -/
structure Note where
  flow : Flow
  action : String
  message : String

section

variable {F : Type} (equals : F → String → Bool) (format : F → String)

/-- The action of a TCP packet; `equals flags text` is `flags == text`, and `format flags` what
`flags` is in a formatted text. -/
def tcpAction (flags : F) : String :=
  if equals flags "R" then "TCP_RST"
  else if equals flags "RA" then "TCP_RST_ACK"
  else if equals flags "SA" then "TCP_SYN_ACK"
  else "TCP_" ++ format flags

/-- What is logged about a TCP packet behind its summary. -/
def tcpRemark (flags : F) : String :=
  if equals flags "R" then " [RST] → Forge SYN cevabı olabilir"
  else if equals flags "RA" then " [RST, ACK]"
  else if equals flags "SA" then " [SYN-ACK]"
  else ""

/-- `classify_packet`. -/
def classifyPacket (pkt : Packet F) : Option Note :=
  match pkt.ip with
  | none => none
  | some (src, dst) =>
    match pkt.icmp, pkt.udp, pkt.tcp with
    | some (icmpType, icmpCode), _, _ =>
      if icmpType = 3 ∧ icmpCode = 3 then
        some
          { flow := ⟨src, dst⟩
            action := "ICMP_PORT_UNREACHABLE"
            message := "ICMP Destination Unreachable from " ++ src
              ++ " → UDP hedefi muhtemelen ulaştı" }
      else none
    | none, some (sport, dport), _ =>
      some
        { flow := ⟨src, dst⟩
          action := "UDP_RESPONSE"
          message := "UDP packet from " ++ src ++ ":" ++ toString sport ++ " → " ++ dst ++ ":"
            ++ toString dport }
    | none, none, some (flags, sport, dport) =>
      some
        { flow := ⟨src, dst⟩
          action := tcpAction equals format flags
          message := "TCP " ++ format flags ++ " from " ++ src ++ ":" ++ toString sport ++ " → "
            ++ dst ++ ":" ++ toString dport ++ tcpRemark equals flags }
    | none, none, none => none

/-- `responses`. -/
abbrev Responses : Type := Grouping Flow String

/-- The effect of `classify_packet`: a line is logged, an action appended. -/
def handle (s : Responses × List String) (pkt : Packet F) : Responses × List String :=
  match classifyPacket equals format pkt with
  | some note => (s.1.append note.flow note.action, s.2 ++ [note.message])
  | none => s

def summaryLines (responses : Responses) : List String :=
  responses.entries.flatMap fun e ↦
    (e.1.src ++ " → " ++ e.1.dst ++ ":") :: e.2.map fun act ↦ "   - " ++ act

/-- `run_sniffer` for the packets that `sniff` hands over: what is then in `responses`, and the
lines that are logged and printed. -/
def runSniffer (responses : Responses) (timeout : ℤ) (pkts : List (Packet F)) :
    Responses × List String :=
  let s := pkts.foldl (handle equals format) (responses,
    ["NATGhost Passive Analyzer listening for " ++ toString timeout ++ " seconds..."])
  (s.1, s.2 ++ ["\n====== Summary ======"] ++ summaryLines s.1 ++ ["=====================\n"])

/-! ## The summary -/

def notes (pkts : List (Packet F)) : List Note := pkts.filterMap (classifyPacket equals format)

def actions (pkts : List (Packet F)) : List (Flow × String) :=
  (notes equals format pkts).map fun note ↦ (note.flow, note.action)

theorem actions_append (pkts pkts' : List (Packet F)) :
    actions equals format (pkts ++ pkts')
      = actions equals format pkts ++ actions equals format pkts' := by
  rw [actions, notes, List.filterMap_append, List.map_append]
  rfl

theorem foldl_handle (pkts : List (Packet F)) (s : Responses × List String) :
    pkts.foldl (handle equals format) s
      = (.appendAll (actions equals format pkts) s.1,
          s.2 ++ (notes equals format pkts).map Note.message) := by
  induction pkts generalizing s with
  | nil => exact Prod.ext rfl (List.append_nil _).symm
  | cons pkt pkts ih =>
    rw [List.foldl_cons, ih, actions, actions, notes, notes, List.filterMap_cons, handle]
    cases classifyPacket equals format pkt with
    | none => rfl
    | some note =>
      refine Prod.ext rfl ?_
      simp only [List.map_cons, List.append_assoc, List.singleton_append]

theorem foldl_runSniffer (runs : List (ℤ × List (Packet F))) :
    runs.foldl (fun responses r ↦ (runSniffer equals format responses r.1 r.2).1) .empty
      = .appendAll (actions equals format (runs.flatMap Prod.snd)) .empty := by
  induction runs using List.reverseRecOn with
  | nil => rfl
  | append_singleton runs r ih =>
    rw [List.foldl_append, ih, List.flatMap_append, List.flatMap_singleton, actions_append]
    simp only [List.foldl_cons, List.foldl_nil, runSniffer, foldl_handle]
    rw [Grouping.appendAll_append]

/-- **What a run prints.** After any runs before it, a run logs a line for each packet it
classifies; its summary has the flows of all packets so far in the order in which they appeared
first, each once, with the actions of its packets in order. -/
theorem runSniffer_prints (earlier : List (ℤ × List (Packet F))) (timeout : ℤ)
    (pkts : List (Packet F)) :
    let responses :=
      earlier.foldl (fun responses r ↦ (runSniffer equals format responses r.1 r.2).1) .empty
    let seen := notes equals format (earlier.flatMap Prod.snd ++ pkts)
    (runSniffer equals format responses timeout pkts).2
      = ("NATGhost Passive Analyzer listening for " ++ toString timeout ++ " seconds...")
        :: (notes equals format pkts).map Note.message
        ++ ["\n====== Summary ======"]
        ++ ((seen.map Note.flow).eraseDups.flatMap fun flow ↦
            (flow.src ++ " → " ++ flow.dst ++ ":")
              :: (seen.filter fun note ↦ decide (note.flow = flow)).map fun note ↦
                "   - " ++ note.action)
        ++ ["=====================\n"] := by
  intro responses seen
  have hentries : (Grouping.appendAll (actions equals format pkts) responses).entries
      = (seen.map Note.flow).eraseDups.map fun flow ↦
        (flow, (seen.filter fun note ↦ decide (note.flow = flow)).map Note.action) := by
    have hall : Grouping.appendAll (actions equals format pkts) responses
        = .appendAll (actions equals format (earlier.flatMap Prod.snd ++ pkts)) .empty := by
      rw [actions_append, Grouping.appendAll_append]
      exact congrArg (Grouping.appendAll (actions equals format pkts))
        (foldl_runSniffer equals format earlier)
    have hvalues (flow : Flow) :
        Grouping.values (actions equals format (earlier.flatMap Prod.snd ++ pkts)) flow
          = (seen.filter fun note ↦ decide (note.flow = flow)).map Note.action := by
      rw [Grouping.values, actions, List.filter_map, List.map_map]
      rfl
    have hflows : (actions equals format (earlier.flatMap Prod.snd ++ pkts)).map Prod.fst
        = seen.map Note.flow := by
      rw [actions, List.map_map]
      rfl
    simp only [hall, Grouping.entries_appendAll, hvalues, hflows]
  rw [runSniffer]
  simp only [foldl_handle, summaryLines, hentries, List.flatMap_map, List.map_map]
  rfl

end

/-! ## The traffic of the probe -/

open AdaptiveProbe

/-- The action for a combination of flags that `adaptive_probe` sends. -/
def flagAction (flag : String) : String :=
  if flag = "R" then "TCP_RST"
  else if flag = "RA" then "TCP_RST_ACK"
  else if flag = "SA" then "TCP_SYN_ACK"
  else "TCP_" ++ flag

theorem flagAction_injOn : ∀ flag ∈ flagsSet, ∀ flag' ∈ flagsSet,
    flagAction flag = flagAction flag' → flag = flag' := by
  decide +kernel

def probeAction (pkt : TcpPacket) : Flow × String := (⟨pkt.src, pkt.dst⟩, flagAction pkt.flags)

section

variable {F : Type}

/-- What scapy does with the eight combinations, `parse text` being the flags of a packet that was
made with `flags=text`: they equal the text they were made from and no other of the eight, and are
printed as that text. -/
structure KeepsFlags (parse : String → F) (equals : F → String → Bool) (format : F → String) :
    Prop where
  equals_iff : ∀ flag ∈ flagsSet, ∀ text ∈ flagsSet, equals (parse flag) text = true ↔ flag = text
  format_eq : ∀ flag ∈ flagsSet, format (parse flag) = flag

/-- A forged packet is seen with its addresses, ports and flags, and without other layers. -/
def SeenAsSent (parse : String → F) (wire : TcpPacket → Packet F) : Prop :=
  ∀ pkt, wire pkt =
    { ip := some (pkt.src, pkt.dst)
      icmp := none
      udp := none
      tcp := some (parse pkt.flags, pkt.sport, pkt.dport) }

variable {parse : String → F} {equals : F → String → Bool} {format : F → String}
  {wire : TcpPacket → Packet F}

theorem KeepsFlags.tcpAction_eq (h : KeepsFlags parse equals format) {flag : String}
    (hflag : flag ∈ flagsSet) : tcpAction equals format (parse flag) = flagAction flag := by
  rw [tcpAction, flagAction, h.format_eq flag hflag]
  exact if_congr (h.equals_iff flag hflag _ (by decide)) rfl
    (if_congr (h.equals_iff flag hflag _ (by decide)) rfl
      (if_congr (h.equals_iff flag hflag _ (by decide)) rfl rfl))

theorem actions_map_wire (hflags : KeepsFlags parse equals format) (hwire : SeenAsSent parse wire)
    {pkts : List TcpPacket} (hpkts : ∀ pkt ∈ pkts, pkt.flags ∈ flagsSet) :
    actions equals format (pkts.map wire) = pkts.map probeAction := by
  induction pkts with
  | nil => rfl
  | cons pkt pkts ih =>
    obtain ⟨hpkt, hpkts⟩ := List.forall_mem_cons.mp hpkts
    have hone : actions equals format [wire pkt] = [probeAction pkt] := by
      rw [hwire, probeAction, ← hflags.tcpAction_eq hpkt]
      rfl
    rw [List.map_cons, List.map_cons, ← ih hpkts, ← List.singleton_append, actions_append, hone,
      List.singleton_append]

end

theorem countP_flatMap_of_single {α β : Type} [DecidableEq α] {f : α → List β} {q : β → Bool}
    {a : α} {n : ℕ} (hf : ∀ x, (f x).countP q = if x = a then n else 0) (xs : List α) :
    (xs.flatMap f).countP q = xs.count a * n := by
  induction xs with
  | nil => exact (Nat.zero_mul n).symm
  | cons x xs ih =>
    rw [List.flatMap_cons, List.countP_append, ih, hf, List.count_cons]
    by_cases hx : x = a
    · rw [if_pos hx, if_pos (beq_iff_eq.mpr hx), Nat.add_one_mul, Nat.add_comm]
    · rw [if_neg hx, if_neg (mt beq_iff_eq.mp hx), Nat.zero_add, Nat.add_zero]

theorem countP_packets {dstIp : String} {dstPort : ℤ} {spoofedIps : Option (List String)}
    {srcPorts : Option (List ℤ)} (p : TcpPacket → Bool) (ip : String) {flag : String}
    (hflag : flag ∈ flagsSet) :
    (packets dstIp dstPort spoofedIps srcPorts).countP (fun pkt ↦
        decide (pkt.src = ip ∧ pkt.flags = flag) && p pkt)
      = (ipsOf spoofedIps).count ip * (portsOf srcPorts).countP fun srcPort ↦
        p ⟨ip, dstIp, srcPort, dstPort, flag⟩ := by
  have hports (flag' ip' : String) :
      ((portsOf srcPorts).map fun srcPort ↦
        (⟨ip', dstIp, srcPort, dstPort, flag'⟩ : TcpPacket)).countP (fun pkt ↦
          decide (pkt.src = ip ∧ pkt.flags = flag) && p pkt)
        = if ip' = ip then if flag' = flag then (portsOf srcPorts).countP fun srcPort ↦
            p ⟨ip, dstIp, srcPort, dstPort, flag⟩ else 0 else 0 := by
    rw [List.countP_map]
    split_ifs with hip hflag'
    · subst hip hflag'
      exact List.countP_congr fun srcPort _ ↦ by simp
    · exact List.countP_eq_zero.mpr fun srcPort _ ↦ by simp [hflag']
    · exact List.countP_eq_zero.mpr fun srcPort _ ↦ by simp [hip]
  have hips (flag' : String) := countP_flatMap_of_single (hports flag') (ipsOf spoofedIps)
  have hone : flagsSet.count flag = 1 := List.count_eq_one_of_mem (by decide) hflag
  rw [packets, countP_flatMap_of_single (a := flag) (n := (ipsOf spoofedIps).count ip
    * (portsOf srcPorts).countP fun srcPort ↦ p ⟨ip, dstIp, srcPort, dstPort, flag⟩), hone,
    Nat.one_mul]
  intro flag'
  rw [hips flag']
  split_ifs
  · rfl
  · exact Nat.mul_zero _

theorem fields_of_mem_packets {dstIp : String} {dstPort : ℤ}
    {spoofedIps : Option (List String)} {srcPorts : Option (List ℤ)} {pkt : TcpPacket}
    (h : pkt ∈ packets dstIp dstPort spoofedIps srcPorts) :
    pkt.flags ∈ flagsSet ∧ pkt.src ∈ ipsOf spoofedIps ∧ pkt.dst = dstIp := by
  obtain ⟨flag, hflag, h⟩ := List.mem_flatMap.mp h
  obtain ⟨srcIp, hsrc, h⟩ := List.mem_flatMap.mp h
  obtain ⟨srcPort, -, rfl⟩ := List.mem_map.mp h
  exact ⟨hflag, hsrc, rfl⟩

/-- **The probe in the summary.** Let scapy keep the eight combinations of flags apart and show the
packets as they were sent. Whatever the schedule of the threads of the probe, when it has come to
its end and the analyzer sees what it has sent, in any order, then its summary has for each address,
towards the target, each of the eight actions as often as the address was given, times the ports
with which the packet could be sent; and no other actions. -/
theorem sniffer_sees_probe {F : Type} (parse : String → F) (equals : F → String → Bool)
    (format : F → String) (hflags : KeepsFlags parse equals format)
    (wire : TcpPacket → Packet F) (hwire : SeenAsSent parse wire)
    (raises : TcpPacket → Bool) (dstIp : String) (dstPort : ℤ)
    (spoofedIps : Option (List String)) (srcPorts : Option (List ℤ)) (timeout : ℤ) :
    let pkts := packets dstIp dstPort spoofedIps srcPorts
    ∀ s, Reaches raises pkts s → s.todo = [] →
      ∀ seen : List (Packet F), seen.Perm ((sentPackets s.log).map wire) →
        (∀ ip, ∀ flag ∈ flagsSet,
          ((runSniffer equals format .empty timeout seen).1.get ⟨ip, dstIp⟩).count
              (flagAction flag)
            = (ipsOf spoofedIps).count ip * (portsOf srcPorts).countP fun srcPort ↦
                !raises ⟨ip, dstIp, srcPort, dstPort, flag⟩) ∧
        ∀ flow, ∀ action ∈ (runSniffer equals format .empty timeout seen).1.get flow,
          flow.dst = dstIp ∧ flow.src ∈ ipsOf spoofedIps ∧
            ∃ flag ∈ flagsSet, action = flagAction flag := by
  intro pkts s h htodo seen hseen
  have hactions : (actions equals format seen).Perm
      ((pkts.filter fun pkt ↦ !raises pkt).map probeAction) := by
    have hsent := (sentPackets_perm h htodo).map wire
    rw [← actions_map_wire hflags hwire fun pkt hpkt ↦
      (fields_of_mem_packets (List.mem_of_mem_filter hpkt)).1]
    exact ((hseen.trans hsent).filterMap (classifyPacket equals format)).map _
  have hget (flow : Flow) : (runSniffer equals format .empty timeout seen).1.get flow
      = Grouping.values (actions equals format seen) flow := by
    rw [runSniffer]
    simp only [foldl_handle, Grouping.get_appendAll]
  refine ⟨fun ip flag hflag ↦ ?_, fun flow action haction ↦ ?_⟩
  · rw [hget, Grouping.count_values, hactions.count_eq, List.count, List.countP_map,
      List.countP_filter, ← countP_packets (fun pkt ↦ !raises pkt) ip hflag]
    refine List.countP_congr fun pkt hpkt ↦ ?_
    obtain ⟨hmem, -, hdst⟩ := fields_of_mem_packets hpkt
    rw [Bool.and_eq_true, Bool.and_eq_true, Function.comp_apply, beq_iff_eq, decide_eq_true_iff,
      probeAction, Prod.mk.injEq, Flow.mk.injEq, hdst]
    refine and_congr_left fun _ ↦ ⟨fun heq ↦ ⟨heq.1.1, ?_⟩, fun heq ↦ ⟨⟨heq.1, rfl⟩, by rw [heq.2]⟩⟩
    exact flagAction_injOn _ hmem _ hflag heq.2
  · rw [hget, ← List.count_pos_iff, Grouping.count_values, List.count_pos_iff,
      hactions.mem_iff] at haction
    obtain ⟨pkt, hpkt, hprobe⟩ := List.mem_map.mp haction
    obtain ⟨hmem, hsrc, hdst⟩ := fields_of_mem_packets (List.mem_of_mem_filter hpkt)
    obtain ⟨rfl, rfl⟩ := Prod.mk.inj hprobe
    exact ⟨hdst, hsrc, _, hmem, rfl⟩

/-- The SYN-ACK packets of a probe with the default addresses and ports, where flags are their
letters. -/
theorem sniffer_sees_probe_default : ∃ seen : List (Packet String),
    ((runSniffer (fun flags text ↦ flags == text) id .empty 20 seen).1.get
      ⟨"192.168.1.101", "203.0.113.9"⟩).count "TCP_SYN_ACK" = 3 := by
  have hflags : KeepsFlags id (fun flags text ↦ flags == text) id :=
    ⟨fun _ _ _ _ ↦ beq_iff_eq, fun _ _ ↦ rfl⟩
  have hstart : Reaches (fun _ ↦ false) (packets "203.0.113.9" 80 none none)
      (TaskSystem.initial (Script.program _)) := .refl
  obtain ⟨s, hsteps, htodo⟩ := Script.exists_returned _ hstart
  exact ⟨_, (sniffer_sees_probe id (fun flags text ↦ flags == text) id hflags
    (fun pkt ↦ ⟨some (pkt.src, pkt.dst), none, none, some (pkt.flags, pkt.sport, pkt.dport)⟩)
    (fun _ ↦ rfl) (fun _ ↦ false) "203.0.113.9" 80 none none 20 s hsteps htodo
    _ (List.Perm.refl _)).1 "192.168.1.101" "SA" (by decide)⟩

end NatGhost.NatSniffer
