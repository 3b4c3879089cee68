import NatGhost.Foundation.Scripts

/-!
# The threads of the adaptive probe

`adaptive_probe` starts a thread for each combination of TCP flags, spoofed address and source port.
A thread sends one forged packet and reports it, unless `send` raises an exception, which ends the
thread and nothing else. The threads are joined before the completion is printed.

So the packets that have left when it is printed are known, whatever the schedule, and at no time
has a packet been reported more often than it has been sent. Scapy is not part of the repository:
that `send` raises an exception for a packet is a parameter.
-/

namespace NatGhost.AdaptiveProbe

/-- `IP(src=src_ip, dst=dst_ip)/TCP(sport=src_port, dport=dst_port, flags=flags)`. -/
structure TcpPacket where
  src : String
  dst : String
  sport : ℤ
  dport : ℤ
  flags : String
  deriving DecidableEq

/-- What a thread does: a packet is sent, a line is printed for it. -/
inductive Event
  | sent (pkt : TcpPacket)
  | printed (pkt : TcpPacket)

/-- The two statements of `forge_and_send` that act on the packet. -/
inductive Call
  | send (pkt : TcpPacket)
  | print (pkt : TcpPacket)

def flagsSet : List String := ["S", "F", "A", "R", "SA", "FA", "PA", "RA"]

/-- `forge_and_send`. -/
def forgeAndSend (pkt : TcpPacket) : List Call := [.send pkt, .print pkt]

/-- `spoofed_ips`, or its default for `None`. -/
def ipsOf (spoofedIps : Option (List String)) : List String :=
  spoofedIps.getD ["192.168.1.101", "192.168.1.102", "192.168.1.103"]

/-- `src_ports`, or its default for `None`. -/
def portsOf (srcPorts : Option (List ℤ)) : List ℤ := srcPorts.getD [4444, 5555, 6666]

def packets (dstIp : String) (dstPort : ℤ) (spoofedIps : Option (List String))
    (srcPorts : Option (List ℤ)) : List TcpPacket :=
  flagsSet.flatMap fun flag ↦ (ipsOf spoofedIps).flatMap fun srcIp ↦
    (portsOf srcPorts).map fun srcPort ↦ ⟨srcIp, dstIp, srcPort, dstPort, flag⟩

section

variable (raises : TcpPacket → Bool)

/-- What a statement does; `none` if it raises an exception. -/
def act : Call → Option (List Event)
  | .send pkt => if raises pkt then none else some [.sent pkt]
  | .print pkt => some [.printed pkt]

abbrev threads (pkts : List TcpPacket) :
    TaskSystem (Fin (pkts.map forgeAndSend).length) (Script Call Event) Event :=
  Script.tasks (act raises) (pkts.map forgeAndSend)

/-- `adaptive_probe` and its threads. -/
abbrev Reaches (pkts : List TcpPacket)
    (s : TaskState (Fin (pkts.map forgeAndSend).length) (Script Call Event) Event) : Prop :=
  (threads raises pkts).Reaches (Script.program (pkts.map forgeAndSend)) s

end

def Event.sent? : Event → Option TcpPacket
  | .sent pkt => some pkt
  | .printed _ => none

def Event.printed? : Event → Option TcpPacket
  | .sent _ => none
  | .printed pkt => some pkt

def sentPackets {ι : Type} (log : List (ι × Event)) : List TcpPacket :=
  (log.map Prod.snd).filterMap Event.sent?

def printedPackets {ι : Type} (log : List (ι × Event)) : List TcpPacket :=
  (log.map Prod.snd).filterMap Event.printed?

section

variable {raises : TcpPacket → Bool} {pkts : List TcpPacket}

theorem output_forgeAndSend (pkt : TcpPacket) : Script.output (act raises) (forgeAndSend pkt)
    = if raises pkt then [] else [.sent pkt, .printed pkt] := by
  rw [forgeAndSend, Script.output, act]
  split_ifs <;> rfl

theorem filterMap_output (mark : Event → Option TcpPacket)
    (hmark : ∀ pkt, [Event.sent pkt, .printed pkt].filterMap mark = [pkt]) :
    ((pkts.map forgeAndSend).flatMap (Script.output (act raises))).filterMap mark
      = pkts.filter fun pkt ↦ !raises pkt := by
  induction pkts with
  | nil => rfl
  | cons pkt pkts ih =>
    rw [List.map_cons, List.flatMap_cons, List.filterMap_append, ih, output_forgeAndSend,
      List.filter_cons]
    cases raises pkt with
    | true => rfl
    | false => exact congrArg (· ++ _) (hmark pkt)

theorem nodup_flatMap_of_key {α β : Type} {keys : List α} {f : α → List β} (key : β → α)
    (hkeys : keys.Nodup) (hf : ∀ a ∈ keys, (f a).Nodup) (hkey : ∀ a, ∀ b ∈ f a, key b = a) :
    (keys.flatMap f).Nodup := by
  refine List.nodup_flatMap.mpr ⟨hf, hkeys.imp fun {a a'} hne b hb hb' ↦ hne ?_⟩
  rw [← hkey a b hb, hkey a' b hb']

theorem nodup_packets (dstIp : String) (dstPort : ℤ) {spoofedIps : Option (List String)}
    {srcPorts : Option (List ℤ)} (hips : (ipsOf spoofedIps).Nodup)
    (hports : (portsOf srcPorts).Nodup) :
    (packets dstIp dstPort spoofedIps srcPorts).Nodup := by
  refine nodup_flatMap_of_key TcpPacket.flags (by decide) (fun flag _ ↦ ?_) fun flag pkt hpkt ↦ ?_
  · refine nodup_flatMap_of_key TcpPacket.src hips (fun srcIp _ ↦ ?_) fun srcIp pkt hpkt ↦ ?_
    · exact hports.map fun _ _ heq ↦ congrArg TcpPacket.sport heq
    · obtain ⟨srcPort, -, rfl⟩ := List.mem_map.mp hpkt
      rfl
  · obtain ⟨srcIp, -, hpkt⟩ := List.mem_flatMap.mp hpkt
    obtain ⟨srcPort, -, rfl⟩ := List.mem_map.mp hpkt
    rfl

theorem count_printed_le_of_prefix {events : List Event} {own pkt : TcpPacket}
    (h : events <+: [.sent own, .printed own]) :
    (events.filterMap Event.printed?).count pkt ≤ (events.filterMap Event.sent?).count pkt := by
  rcases List.prefix_cons_iff.mp h with rfl | ⟨rest, rfl, hrest⟩
  · exact le_rfl
  · rcases List.prefix_cons_iff.mp hrest with rfl | ⟨rest, rfl, hnil⟩
    · exact Nat.zero_le _
    · rw [List.prefix_nil.mp hnil]
      exact le_rfl

variable {s : TaskState (Fin (pkts.map forgeAndSend).length) (Script Call Event) Event}

theorem count_filterMap {mark : Event → Option TcpPacket} (pkt : TcpPacket) :
    ((s.log.map Prod.snd).filterMap mark).count pkt
      = ((List.finRange (pkts.map forgeAndSend).length).map fun i ↦
          ((proj i s.log).filterMap mark).count pkt).sum := by
  have hperm := (map_snd_perm (List.nodup_finRange _) List.mem_finRange s.log).filterMap mark
  rw [hperm.count_eq, List.filterMap_flatMap, List.count_flatMap]
  rfl

/-- **No packet is reported before it is sent.** -/
theorem count_printed_le (h : Reaches raises pkts s) (pkt : TcpPacket) :
    (printedPackets s.log).count pkt ≤ (sentPackets s.log).count pkt := by
  have hgood := TaskSystem.Good.of_reaches (Script.isProgram _) h
  rw [printedPackets, sentPackets, count_filterMap, count_filterMap]
  refine List.sum_le_sum fun i _ ↦ ?_
  have hprefix := hgood.proj_prefix (Script.fixed (act raises) _) i
  obtain ⟨own, -, hown⟩ := List.mem_map.mp (List.get_mem (pkts.map forgeAndSend) i)
  rw [← hown, output_forgeAndSend] at hprefix
  split_ifs at hprefix
  · rw [List.prefix_nil.mp hprefix]
    exact le_rfl
  · exact count_printed_le_of_prefix hprefix

theorem sentPackets_perm (h : Reaches raises pkts s) (htodo : s.todo = []) :
    (sentPackets s.log).Perm (pkts.filter fun pkt ↦ !raises pkt) := by
  rw [← filterMap_output Event.sent? fun _ ↦ rfl]
  exact (Script.log_perm h htodo).filterMap Event.sent?

/-- **What the probe sends.** Whatever the schedule, `adaptive_probe` comes to its end. When it
prints its completion, each packet for which `send` raises no exception has been sent and reported,
once for each thread it has, and nothing else has been; a packet has more than one thread only if an
address or a port is given twice. At no time has a packet been reported more often than it has been
sent. -/
theorem adaptiveProbe_sends (raises : TcpPacket → Bool) (dstIp : String) (dstPort : ℤ)
    (spoofedIps : Option (List String)) (srcPorts : Option (List ℤ)) :
    let pkts := packets dstIp dstPort spoofedIps srcPorts
    (∀ s, Reaches raises pkts s →
        ∃ t, Relation.ReflTransGen (threads raises pkts).Step s t ∧ t.todo = []) ∧
      (¬∃ run : ℕ → TaskState _ _ _,
        run 0 = TaskSystem.initial (Script.program (pkts.map forgeAndSend)) ∧
          ∀ k, (threads raises pkts).Step (run k) (run (k + 1))) ∧
      ∀ s, Reaches raises pkts s →
        (∀ pkt, (printedPackets s.log).count pkt ≤ (sentPackets s.log).count pkt) ∧
        (s.todo = [] → (sentPackets s.log).Perm (pkts.filter fun pkt ↦ !raises pkt) ∧
          (printedPackets s.log).Perm (pkts.filter fun pkt ↦ !raises pkt) ∧
          ((ipsOf spoofedIps).Nodup → (portsOf srcPorts).Nodup → (sentPackets s.log).Nodup)) := by
  intro pkts
  refine ⟨fun s h ↦ Script.exists_returned _ h, Script.not_endless _ _,
    fun s h ↦ ⟨count_printed_le h, fun htodo ↦ ?_⟩⟩
  have hsent := sentPackets_perm h htodo
  refine ⟨hsent, ?_, fun hips hports ↦ ?_⟩
  · rw [← filterMap_output Event.printed? fun _ ↦ rfl]
    exact (Script.log_perm h htodo).filterMap Event.printed?
  · exact hsent.nodup_iff.mpr ((nodup_packets dstIp dstPort hips hports).filter _)

end

end NatGhost.AdaptiveProbe
