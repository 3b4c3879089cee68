import NatGhost.Discoverer.Processes
import NatGhost.Foundation.Scripts

/-!
# The two scanners of the name system

`DynamicStunScanner.py` starts four processes for each of fifteen domains,
`parallel_dns_discoverer.py` three for one domain. Each process makes its queries one after the
other and appends what it finds to a list that a `Manager` keeps for all of them; when all have been
joined, the list is returned.

## What is lost

The processes share nothing but the list, so they are the tasks of a `Script`. The first program
catches `DNSException` only: any other exception ends the process, with the queries it has still to
make, and nothing else. The second one catches everything. So what is returned is known, whatever
the schedule: for the first program up to the order, and without repetitions as it returns a set;
for the second one the order is known within each type of record.

The resolver is not part of the repository. Every query is made once in a run, so it is no
restriction that its answers are given by functions.
-/

namespace NatGhost

/-- What `dns.resolver.resolve` may raise. -/
inductive LookupError
  | dnsException
  | other

/-- `str(rdata.target)` and `rdata.port`. -/
structure SrvRecord where
  target : String
  port : ℕ

/-- `dns.resolver.resolve`, with `rdata.address` of the records of the last two types. -/
structure Resolver where
  srv : String → Except LookupError (List SrvRecord)
  a : String → Except LookupError (List String)
  aaaa : String → Except LookupError (List String)

/-! ## The dynamic scanner -/

namespace DynamicStunScanner

def commonDomains : List String :=
  ["google.com", "cloudflare.com", "twilio.com", "stunprotocol.org", "voipbuster.com",
    "sipnet.ru", "netgsm.com.tr", "zoiper.com", "ekiga.net", "linphone.org",
    "voipcheap.com", "justvoip.com", "gmx.net", "1und1.de", "stun.freeswitch.org"]

def commonSubdomains : List String :=
  ["stun", "turn", "media", "relay", "ice", "sip", "sip1", "sip2"]

/-- A call of one of the three functions with a query. -/
inductive Call
  | resolveSrv (domain : String)
  | resolveA (domain : String)
  | resolveAaaa (domain : String)

/-- `try: ... except dns.exception.DNSException: pass`, with `f` appended for each record. -/
def caught {ρ : Type} (answers : Except LookupError (List ρ)) (f : ρ → String × ℕ) :
    Option (List (String × ℕ)) :=
  match answers with
  | .ok records => some (records.map f)
  | .error .dnsException => some []
  | .error .other => none

/-- What a call appends to `found`; `none` if its exception is not caught. -/
def answer (env : Resolver) : Call → Option (List (String × ℕ))
  | .resolveSrv domain =>
    caught (env.srv ("_stun._udp." ++ domain)) fun rdata ↦
      (Discoverer.rstripDots rdata.target, rdata.port)
  | .resolveA domain => caught (env.a domain) fun _ ↦ (domain, 3478)
  | .resolveAaaa domain => caught (env.aaaa domain) fun _ ↦ (domain, 3478)

/-- The calls of `reverse_brute`. -/
def reverseBrute (domain : String) : List Call :=
  commonSubdomains.flatMap fun sub ↦
    let full := sub ++ "." ++ domain
    [.resolveA full, .resolveAaaa full, .resolveSrv full]

/-- The processes of `run_all`. -/
def jobs : List (List Call) :=
  commonDomains.flatMap fun domain ↦
    [[.resolveSrv domain], [.resolveA domain], [.resolveAaaa domain], reverseBrute domain]

/-- A state of `run_all` and its processes. -/
abbrev State : Type := TaskState (Fin jobs.length) (Script Call (String × ℕ)) (String × ℕ)

/-- `run_all` and its processes. -/
abbrev Reaches (env : Resolver) (s : State) : Prop :=
  (Script.tasks (answer env) jobs).Reaches (Script.program jobs) s

/-- `list(set(found))`, in any order. -/
def IsListOfSet {α : Type} (servers found : List α) : Prop :=
  servers.Nodup ∧ ∀ server, server ∈ servers ↔ server ∈ found

/-- The names that are asked for: the domains and their subdomains. -/
def names : List String :=
  commonDomains ++ commonDomains.flatMap fun domain ↦
    commonSubdomains.map fun sub ↦ sub ++ "." ++ domain

def callsFor (name : String) : List Call := [.resolveSrv name, .resolveA name, .resolveAaaa name]

def Answers (env : Resolver) (call : Call) (server : String × ℕ) : Prop :=
  ∃ items, answer env call = some items ∧ server ∈ items

/-- A server is found for a name: an SRV record says so, or the name has an address. -/
def FoundFor (env : Resolver) (name : String) (server : String × ℕ) : Prop :=
  (∃ records, env.srv ("_stun._udp." ++ name) = .ok records ∧
      ∃ rdata ∈ records, server = (Discoverer.rstripDots rdata.target, rdata.port)) ∨
    server = (name, 3478) ∧ ((∃ records, env.a name = .ok records ∧ records ≠ []) ∨
      ∃ records, env.aaaa name = .ok records ∧ records ≠ [])

section

variable {env : Resolver} {server : String × ℕ}

theorem mem_caught {ρ : Type} {answers : Except LookupError (List ρ)} {f : ρ → String × ℕ} :
    (∃ items, caught answers f = some items ∧ server ∈ items) ↔
      ∃ records, answers = .ok records ∧ ∃ rdata ∈ records, server = f rdata := by
  constructor
  · rintro ⟨items, hitems, hmem⟩
    match answers, hitems with
    | .ok records, hitems =>
      obtain rfl := Option.some.inj hitems
      obtain ⟨rdata, hrdata, rfl⟩ := List.mem_map.mp hmem
      exact ⟨records, rfl, rdata, hrdata, rfl⟩
    | .error .dnsException, hitems =>
      obtain rfl := Option.some.inj hitems
      exact absurd hmem List.not_mem_nil
  · rintro ⟨records, rfl, rdata, hrdata, rfl⟩
    exact ⟨_, rfl, List.mem_map_of_mem hrdata⟩

theorem mem_caught_const {ρ : Type} {answers : Except LookupError (List ρ)} {a : String × ℕ} :
    (∃ items, caught answers (fun _ ↦ a) = some items ∧ server ∈ items) ↔
      server = a ∧ ∃ records, answers = .ok records ∧ records ≠ [] := by
  rw [mem_caught]
  constructor
  · rintro ⟨records, hok, rdata, hrdata, rfl⟩
    exact ⟨rfl, records, hok, List.ne_nil_of_mem hrdata⟩
  · rintro ⟨rfl, records, hok, hne⟩
    obtain ⟨rdata, hrdata⟩ := List.exists_mem_of_ne_nil records hne
    exact ⟨records, hok, rdata, hrdata, rfl⟩

theorem mem_reverseBrute {domain : String} {call : Call} :
    call ∈ reverseBrute domain ↔
      ∃ sub ∈ commonSubdomains, call ∈ callsFor (sub ++ "." ++ domain) := by
  rw [reverseBrute, List.mem_flatMap]
  refine exists_congr fun sub ↦ and_congr_right fun _ ↦ ?_
  simp only [callsFor, List.mem_cons, List.not_mem_nil, or_false]
  rw [← or_assoc, or_comm]

theorem exists_process_iff {domain : String} {call : Call} :
    (∃ job ∈ [[.resolveSrv domain], [.resolveA domain], [.resolveAaaa domain],
      reverseBrute domain], call ∈ job) ↔
      call ∈ callsFor domain ∨
        ∃ sub ∈ commonSubdomains, call ∈ callsFor (sub ++ "." ++ domain) := by
  simp only [List.mem_cons, List.not_mem_nil, or_false, or_and_right, exists_or, exists_eq_left,
    mem_reverseBrute, callsFor, or_assoc]

/-- **The processes make the calls for the names.** -/
theorem exists_job_iff {call : Call} :
    (∃ job ∈ jobs, call ∈ job) ↔ ∃ name ∈ names, call ∈ callsFor name := by
  constructor
  · rintro ⟨job, hjob, hcall⟩
    obtain ⟨domain, hdomain, hjob⟩ := List.mem_flatMap.mp hjob
    rcases exists_process_iff.mp ⟨job, hjob, hcall⟩ with hown | ⟨sub, hsub, hcall⟩
    · exact ⟨domain, List.mem_append_left _ hdomain, hown⟩
    · exact ⟨_, List.mem_append_right _ (List.mem_flatMap.mpr ⟨domain, hdomain,
        List.mem_map_of_mem hsub⟩), hcall⟩
  · rintro ⟨name, hname, hcall⟩
    have hprocess : ∃ domain ∈ commonDomains, call ∈ callsFor domain ∨
        ∃ sub ∈ commonSubdomains, call ∈ callsFor (sub ++ "." ++ domain) := by
      rcases List.mem_append.mp hname with hdomain | hname
      · exact ⟨name, hdomain, Or.inl hcall⟩
      · obtain ⟨domain, hdomain, hname⟩ := List.mem_flatMap.mp hname
        obtain ⟨sub, hsub, rfl⟩ := List.mem_map.mp hname
        exact ⟨domain, hdomain, Or.inr ⟨sub, hsub, hcall⟩⟩
    obtain ⟨domain, hdomain, hcall⟩ := hprocess
    obtain ⟨job, hjob, hcall⟩ := exists_process_iff.mpr hcall
    exact ⟨job, List.mem_flatMap.mpr ⟨domain, hdomain, hjob⟩, hcall⟩

theorem exists_callsFor_iff {name : String} :
    (∃ call ∈ callsFor name, Answers env call server) ↔ FoundFor env name server := by
  simp only [callsFor, List.exists_mem_cons_iff, List.not_mem_nil, false_and, exists_false,
    or_false]
  rw [FoundFor, and_or_left]
  exact or_congr mem_caught (or_congr mem_caught_const mem_caught_const)

theorem mem_found {s : State} (h : Reaches env s) (htodo : s.todo = []) :
    server ∈ s.log.map Prod.snd ↔
      ∃ job ∈ jobs, ∃ call, Script.Made (answer env) job call ∧ Answers env call server := by
  rw [(Script.log_perm h htodo).mem_iff, List.mem_flatMap]
  exact exists_congr fun job ↦ and_congr_right fun _ ↦ Script.mem_output

/-- **What the scanner returns.** Whatever the schedule, `run_all` comes to its end, and returns no
server twice. A server is returned if and only if it is in the answer to a call before which no
other call of its process has raised an exception that is not caught; if there are no such
exceptions, if and only if it is found for one of the 135 names. -/
theorem runAll_exact (env : Resolver) :
    (∀ s, Reaches env s → ∃ t,
        Relation.ReflTransGen (Script.tasks (answer env) jobs).Step s t ∧ t.todo = []) ∧
      (¬∃ run : ℕ → State, run 0 = TaskSystem.initial (Script.program jobs) ∧
        ∀ k, (Script.tasks (answer env) jobs).Step (run k) (run (k + 1))) ∧
      ∀ s, Reaches env s → s.todo = [] → ∀ servers, IsListOfSet servers (s.log.map Prod.snd) →
        (∀ server, server ∈ servers ↔
          ∃ job ∈ jobs, ∃ call, Script.Made (answer env) job call ∧ Answers env call server) ∧
        ((∀ job ∈ jobs, ∀ call ∈ job, answer env call ≠ none) →
          ∀ server, server ∈ servers ↔ ∃ name ∈ names, FoundFor env name server) := by
  refine ⟨fun s h ↦ Script.exists_returned _ h, Script.not_endless _ jobs,
    fun s h htodo servers hservers ↦ ?_⟩
  have hmem (server : String × ℕ) : server ∈ servers ↔
      ∃ job ∈ jobs, ∃ call, Script.Made (answer env) job call ∧ Answers env call server :=
    (hservers.2 server).trans (mem_found h htodo)
  refine ⟨hmem, fun hcaught server ↦ (hmem server).trans ?_⟩
  constructor
  · rintro ⟨job, hjob, call, hmade, hanswers⟩
    have hcall := (Script.made_iff_mem (hcaught job hjob)).mp hmade
    obtain ⟨name, hname, hcall⟩ := exists_job_iff.mp ⟨job, hjob, hcall⟩
    exact ⟨name, hname, exists_callsFor_iff.mp ⟨call, hcall, hanswers⟩⟩
  · rintro ⟨name, hname, hfound⟩
    obtain ⟨call, hcall, hanswers⟩ := exists_callsFor_iff.mpr hfound
    obtain ⟨job, hjob, hcall⟩ := exists_job_iff.mpr ⟨name, hname, hcall⟩
    exact ⟨job, hjob, call, (Script.made_iff_mem (hcaught job hjob)).mpr hcall, hanswers⟩

end

end DynamicStunScanner

/-! ## The parallel discoverer -/

namespace ParallelDns

/-- An element of `output`: address, port, protocol and record type. -/
structure Server where
  addr : String
  port : ℕ
  proto : String
  record : String
  deriving DecidableEq

/-- `srv_types`. -/
def srvTypes : List (String × String) :=
  [("_stun._udp.", "UDP"), ("_stuns._tcp.", "TCP (TLS)"), ("_stun._tcp.", "TCP")]

/-- `targets`. -/
def targets (domain : String) : List String := ["stun." ++ domain, domain]

/-- A pass of one of the three loops. -/
inductive Query
  | srv (fullName proto : String)
  | a (name : String)
  | aaaa (name : String)

/-- `try: ... except: continue`, with `f` appended for each record. -/
def caught {ρ : Type} (answers : Except LookupError (List ρ)) (f : ρ → Server) : List Server :=
  match answers with
  | .ok records => records.map f
  | .error _ => []

/-- What a pass appends to `output`. -/
def found (env : Resolver) : Query → List Server
  | .srv fullName proto =>
    caught (env.srv fullName) fun rdata ↦
      ⟨Discoverer.rstripDots rdata.target, rdata.port, proto, "SRV"⟩
  | .a name => caught (env.a name) fun address ↦ ⟨address, 3478, "UDP", "A"⟩
  | .aaaa name => caught (env.aaaa name) fun address ↦ ⟨address, 3478, "UDP", "AAAA"⟩

/-- `query_srv`. -/
def querySrv (domain : String) : List Query := srvTypes.map fun t ↦ .srv (t.1 ++ domain) t.2

/-- `query_a`. -/
def queryA (domain : String) : List Query := (targets domain).map .a

/-- `query_aaaa`. -/
def queryAaaa (domain : String) : List Query := (targets domain).map .aaaa

/-- The processes of `parallel_dns_discover`. -/
def jobs (domain : String) : List (List Query) :=
  [querySrv domain, queryA domain, queryAaaa domain]

/-- `parallel_dns_discover` and its processes. -/
abbrev tasks (env : Resolver) (domain : String) :
    TaskSystem (Fin (jobs domain).length) (Script Query Server) Server :=
  Script.tasks (fun q ↦ some (found env q)) (jobs domain)

def recordType : Query → String
  | .srv _ _ => "SRV"
  | .a _ => "A"
  | .aaaa _ => "AAAA"

section

variable {env : Resolver} {domain : String}

theorem exists_of_mem_caught {ρ : Type} {answers : Except LookupError (List ρ)} {f : ρ → Server}
    {server : Server} (h : server ∈ caught answers f) : ∃ rdata, server = f rdata := by
  cases answers with
  | ok records =>
    obtain ⟨rdata, -, rfl⟩ := List.mem_map.mp h
    exact ⟨rdata, rfl⟩
  | error => exact absurd h List.not_mem_nil

theorem record_of_mem {q : Query} {server : Server} (h : server ∈ found env q) :
    server.record = recordType q := by
  cases q with
  | srv =>
    obtain ⟨rdata, rfl⟩ := exists_of_mem_caught h
    rfl
  | a =>
    obtain ⟨rdata, rfl⟩ := exists_of_mem_caught h
    rfl
  | aaaa =>
    obtain ⟨rdata, rfl⟩ := exists_of_mem_caught h
    rfl

theorem recordType_iff {record : String} {i : Fin (jobs domain).length}
    (hi : (["SRV", "A", "AAAA"] : List String).get i = record) (j : Fin (jobs domain).length)
    {q : Query} (hq : q ∈ (jobs domain).get j) : recordType q = record ↔ j = i := by
  have hj : recordType q = (["SRV", "A", "AAAA"] : List String).get j := by
    match j, hq with
    | ⟨0, _⟩, hq =>
      obtain ⟨_, -, rfl⟩ := List.mem_map.mp hq
      rfl
    | ⟨1, _⟩, hq =>
      obtain ⟨_, -, rfl⟩ := List.mem_map.mp hq
      rfl
    | ⟨2, _⟩, hq =>
      obtain ⟨_, -, rfl⟩ := List.mem_map.mp hq
      rfl
  rw [hj, ← hi]
  exact (List.nodup_iff_injective_get.mp (by decide)).eq_iff

variable {s : TaskState (Fin (jobs domain).length) (Script Query Server) Server}

theorem proj_log (h : (tasks env domain).Reaches (Script.program (jobs domain)) s)
    (htodo : s.todo = []) (i : Fin (jobs domain).length) :
    proj i s.log = ((jobs domain).get i).flatMap (found env) := by
  rw [Script.proj_eq_output h htodo i, Script.output_eq_flatMap fun _ _ ↦ rfl]

theorem filter_log (h : (tasks env domain).Reaches (Script.program (jobs domain)) s)
    (htodo : s.todo = []) {record : String} {i : Fin (jobs domain).length}
    (hi : (["SRV", "A", "AAAA"] : List String).get i = record) :
    (s.log.map Prod.snd).filter (fun server ↦ decide (server.record = record))
      = ((jobs domain).get i).flatMap (found env) := by
  rw [← proj_log h htodo i]
  refine filter_map_snd fun e he ↦ decide_eq_decide.mpr ?_
  have hmem : e.2 ∈ proj e.1 s.log := mem_proj.mpr he
  rw [proj_log h htodo] at hmem
  obtain ⟨q, hq, hserver⟩ := List.mem_flatMap.mp hmem
  rw [record_of_mem hserver]
  exact recordType_iff hi e.1 hq

/-- **What the discoverer returns.** Whatever the schedule and whatever exceptions the resolver
raises, `parallel_dns_discover` comes to its end, and its list is a permutation of what has been
answered to the seven queries, repetitions included; within each type of record it has the order of
the queries and of their answers. -/
theorem parallelDnsDiscover_exact (env : Resolver) (domain : String) :
    (∀ s, (tasks env domain).Reaches (Script.program (jobs domain)) s → ∃ t,
        Relation.ReflTransGen (tasks env domain).Step s t ∧ t.todo = []) ∧
      (¬∃ run : ℕ → TaskState _ _ _,
        run 0 = TaskSystem.initial (Script.program (jobs domain)) ∧
          ∀ k, (tasks env domain).Step (run k) (run (k + 1))) ∧
      ∀ s, (tasks env domain).Reaches (Script.program (jobs domain)) s → s.todo = [] →
        let output := s.log.map Prod.snd
        output.Perm ((querySrv domain ++ queryA domain ++ queryAaaa domain).flatMap (found env)) ∧
          output.filter (fun server ↦ decide (server.record = "SRV"))
            = (querySrv domain).flatMap (found env) ∧
          output.filter (fun server ↦ decide (server.record = "A"))
            = (queryA domain).flatMap (found env) ∧
          output.filter (fun server ↦ decide (server.record = "AAAA"))
            = (queryAaaa domain).flatMap (found env) := by
  refine ⟨fun s h ↦ Script.exists_returned _ h, Script.not_endless _ (jobs domain),
    fun s h htodo ↦ ⟨?_, ?_, ?_, ?_⟩⟩
  · have hperm := Script.log_perm h htodo
    have houtput : Script.output (fun q ↦ some (found env q))
        = fun queries ↦ queries.flatMap (found env) :=
      funext fun queries ↦ Script.output_eq_flatMap fun _ _ ↦ rfl
    have hjobs : ((jobs domain).flatMap fun queries ↦ queries.flatMap (found env))
        = (querySrv domain ++ queryA domain ++ queryAaaa domain).flatMap (found env) := by
      rw [jobs, List.flatMap_cons, List.flatMap_cons, List.flatMap_singleton,
        List.flatMap_append, List.flatMap_append, List.append_assoc]
    rwa [houtput, hjobs] at hperm
  · exact filter_log h htodo (i := ⟨0, Nat.succ_pos 2⟩) rfl
  · exact filter_log h htodo (i := ⟨1, Nat.succ_lt_succ (Nat.succ_pos 1)⟩) rfl
  · exact filter_log h htodo (i := ⟨2, Nat.lt_succ_self 2⟩) rfl

end

end ParallelDns

end NatGhost
