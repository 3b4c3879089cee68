import Mathlib.Algebra.Order.BigOperators.Group.Finset
import Mathlib.Data.Fin.VecNotation
import Mathlib.Data.Multiset.Count
import NatGhost.Foundation.ForkJoin
import NatGhost.Foundation.Interleaving

/-!
# The first process of the server discovery

`stundiscoverer.py` starts three processes. Each of them has its own copy of the module globals
`dynamic_found` and `results`. This file is about the first one, P1: its function
`process1_static_threader` starts four threads over overlapping parts of `stun_servers` and joins
them. A thread skips the hosts in `dynamic_found` and sends a binding request to every other one;
`forgeStunPacket` appends to `results` if the reply is acceptable.

## Steps

The threads share P1's globals. A step of a thread is the check of one host under the lock or one
`forgeStunPacket`, whose only effect on what is shared is the `append` at its end. What the socket
calls lead to is input: `exchange i k` for the request of thread `i` to the target at position `k`.

## What is proved

Nobody writes P1's `dynamic_found`, so no host is skipped, and when the threads are joined P1's
`results` are exactly the measurements of all acceptable replies
(`Network.P1Good.results_of_exited`). The parts overlap: a server that answers every request is
measured by two threads at least (`Network.two_le_count_measurements`).
-/

namespace NatGhost.Discoverer

abbrev Server := String × ℕ

def stunServers : List Server :=
  [("stun.1und1.de", 3478), ("stun.gmx.net", 3478), ("stun.stunprotocol.org", 3478),
   ("stun.sipnet.net", 3478), ("stun.sipnet.ru", 3478), ("stun.12connect.com", 3478),
   ("stun.12voip.com", 3478), ("stun.3cx.com", 3478), ("stun.acrobits.cz", 3478),
   ("stun.actionvoip.com", 3478), ("stun.advfn.com", 3478), ("stun.altar.com.pl", 3478),
   ("stun.antisip.com", 3478), ("stun.avigora.fr", 3478), ("stun.bluesip.net", 3478),
   ("stun.cablenet-as.net", 3478), ("stun.callromania.ro", 3478), ("stun.callwithus.com", 3478),
   ("stun.cheapvoip.com", 3478), ("stun.cloopen.com", 3478), ("stun.commpeak.com", 3478),
   ("stun.cope.es", 3478), ("stun.counterpath.com", 3478), ("stun.counterpath.net", 3478),
   ("stun.dcalling.de", 3478), ("stun.demos.ru", 3478), ("stun.dus.net", 3478),
   ("stun.easycall.pl", 3478), ("stun.easyvoip.com", 3478), ("stun.ekiga.net", 3478),
   ("stun.epygi.com", 3478), ("stun.etoilediese.fr", 3478), ("stun.faktortel.com.au", 3478),
   ("stun.freecall.com", 3478), ("stun.freeswitch.org", 3478), ("stun.freevoipdeal.com", 3478),
   ("stun.gmx.de", 3478), ("stun.gradwell.com", 3478), ("stun.halonet.pl", 3478),
   ("stun.hellonanu.com", 3478), ("stun.hoiio.com", 3478), ("stun.hosteurope.de", 3478),
   ("stun.ideasip.com", 3478), ("stun.infra.net", 3478), ("stun.internetcalls.com", 3478),
   ("stun.intervoip.com", 3478), ("stun.ipcomms.net", 3478), ("stun.ipfire.org", 3478),
   ("stun.ippi.fr", 3478), ("stun.ipshka.com", 3478), ("stun.irian.at", 3478),
   ("stun.it1.hr", 3478), ("stun.ivao.aero", 3478), ("stun.jumblo.com", 3478),
   ("stun.justvoip.com", 3478), ("stun.linphone.org", 3478), ("stun.liveo.fr", 3478),
   ("stun.lowratevoip.com", 3478), ("stun.lundimatin.fr", 3478), ("stun.mit.de", 3478),
   ("stun.miwifi.com", 3478), ("stun.modulus.gr", 3478), ("stun.myvoiptraffic.com", 3478),
   ("stun.netappel.com", 3478), ("stun.netgsm.com.tr", 3478), ("stun.nfon.net", 3478),
   ("stun.nonoh.net", 3478), ("stun.nottingham.ac.uk", 3478), ("stun.ooma.com", 3478),
   ("stun.ozekiphone.com", 3478), ("stun.pjsip.org", 3478), ("stun.poivy.com", 3478),
   ("stun.powervoip.com", 3478), ("stun.ppdi.com", 3478), ("stun.qq.com", 3478),
   ("stun.rackco.com", 3478), ("stun.rockenstein.de", 3478), ("stun.rolmail.net", 3478),
   ("stun.roundsapp.com", 3478), ("stun.rynga.com", 3478), ("stun.schlund.de", 3478),
   ("stun.sipdiscount.com", 3478), ("stun.sipgate.net", 3478), ("stun.sipgate.net", 10000),
   ("stun.siplogin.de", 3478), ("stun.sipnet.net", 3478), ("stun.sipnet.ru", 3478),
   ("stun.sippeer.dk", 3478), ("stun.sipphone.com", 3478), ("stun.siptraffic.com", 3478),
   ("stun.smartvoip.com", 3478), ("stun.smsdiscount.com", 3478), ("stun.snafu.de", 3478),
   ("stun.softjoys.com", 3478), ("stun.solcon.nl", 3478), ("stun.sonetel.com", 3478),
   ("stun.sonetel.net", 3478), ("stun.sovtest.ru", 3478), ("stun.speedy.com.ar", 3478),
   ("stun.spokn.com", 3478), ("stun.srce.hr", 3478), ("stun.stunprotocol.org", 3478),
   ("stun.symform.com", 3478), ("stun.symplicity.com", 3478), ("stun.sysadminman.net", 3478),
   ("stun.t-online.de", 3478), ("stun.tiscali.com", 3478), ("stun.tng.de", 3478),
   ("stun.twt.it", 3478), ("stun.u-blox.com", 3478), ("stun.ucallweconn.net", 3478),
   ("stun.ucsb.edu", 3478), ("stun.ucw.cz", 3478), ("stun.ulsan.ac.kr", 3478),
   ("stun.unseen.is", 3478), ("stun.usfamily.net", 3478), ("stun.viva.gr", 3478),
   ("stun.vivox.com", 3478), ("stun.vo.lu", 3478), ("stun.vodafone.ro", 3478),
   ("stun.voicetrading.com", 3478), ("stun.voip.aebc.com", 3478),
   ("stun.voip.blackberry.com", 3478), ("stun.voip.eutelia.it", 3478),
   ("stun.voiparound.com", 3478), ("stun.voipbuster.com", 3478), ("stun.voipbusterpro.com", 3478),
   ("stun.voipcheap.co.uk", 3478), ("stun.voipcheap.com", 3478), ("stun.voipfibre.com", 3478),
   ("stun.voipgate.com", 3478), ("stun.voipinfocenter.com", 3478), ("stun.voipplanet.nl", 3478),
   ("stun.voippro.com", 3478), ("stun.voipraider.com", 3478), ("stun.voipstunt.com", 3478),
   ("stun.voipwise.com", 3478), ("stun.voipzoom.com", 3478), ("stun.vopium.com", 3478),
   ("stun.voys.nl", 3478), ("stun.voztele.com", 3478), ("stun.webcalldirect.com", 3478),
   ("stun.wifirst.net", 3478), ("stun.wirefree.in", 3478), ("stun.wirelessmoves.com", 3478),
   ("stun.xs4all.nl", 3478), ("stun.zadarma.com", 3478), ("stun.zadv.com", 3478),
   ("stun.zoiper.com", 3478)]

/-- An entry of `results`. Times are of type `τ`. -/
structure Measurement (τ : Type) where
  ip : String
  port : ℕ
  rtt : τ
  timestamp : τ

def Measurement.server {τ : Type} (m : Measurement τ) : Server := (m.ip, m.port)

/-- The globals of the module that its functions write. -/
structure Globals (τ : Type) where
  dynamicFound : Finset String
  results : List (Measurement τ)

def Globals.initial {τ : Type} : Globals τ := ⟨∅, []⟩

/-! ## One request -/

/-- What the socket calls of one request lead to. -/
inductive Exchange (τ : Type)
  | timeout
  | error
  | received (data : List UInt8) (startTime endTime : τ)

/-- `data[a:b]`. -/
def slice {α : Type} (a b : ℕ) (data : List α) : List α := (data.take b).drop a

/-- The reply `forgeStunPacket` asks for: a binding success response with the magic cookie. -/
def acceptable (data : List UInt8) : Bool :=
  slice 0 2 data == [0x01, 0x01] && slice 4 8 data == [0x21, 0x12, 0xA4, 0x42]

section

variable {τ : Type} (rtt : τ → τ → τ)

/-- `forgeStunPacket`, as the change to `results`. `rtt` is the rounded difference of two times. -/
def forgeStunPacket (ip : String) (port : ℕ) (x : Exchange τ) (results : List (Measurement τ)) :
    List (Measurement τ) :=
  match x with
  | .timeout => results
  | .error => results
  | .received data startTime endTime =>
    if acceptable data then results ++ [⟨ip, port, rtt startTime endTime, endTime⟩] else results

def Exchange.accepted : Exchange τ → Bool
  | .timeout => false
  | .error => false
  | .received data _ _ => acceptable data

theorem forgeStunPacket_eq_append (ip : String) (port : ℕ) (x : Exchange τ)
    (results : List (Measurement τ)) :
    forgeStunPacket rtt ip port x results = results ++ forgeStunPacket rtt ip port x [] := by
  cases x with
  | timeout => exact (List.append_nil results).symm
  | error => exact (List.append_nil results).symm
  | received data startTime endTime =>
    rw [forgeStunPacket, forgeStunPacket]
    split_ifs
    · rfl
    · exact (List.append_nil results).symm

theorem map_server_forgeStunPacket (ip : String) (port : ℕ) (x : Exchange τ) :
    (forgeStunPacket rtt ip port x []).map Measurement.server =
      if x.accepted then [(ip, port)] else [] := by
  cases x with
  | timeout => rfl
  | error => rfl
  | received data startTime endTime =>
    rw [forgeStunPacket, Exchange.accepted]
    split_ifs <;> rfl

end

/-! ## The threads -/

/-- `ranges`: the targets of the four threads. -/
def ranges (servers : List Server) : Fin 4 → List Server :=
  let n := servers.length
  ![slice 0 (n / 2) servers, slice (n / 2) n servers, servers.reverse,
    slice (n / 4) (3 * n / 4) servers]

/-- The input of P1: the servers, how each request goes, and the computation of `rtt`. -/
structure Network (τ : Type) where
  stunServers : List Server
  exchange : Fin 4 → ℕ → Exchange τ
  rtt : τ → τ → τ

/-- A running `thread_worker`: the position of the current target and whether the check of its host
is already done. -/
structure Worker where
  position : ℕ
  asking : Bool

/-- The first process. `threads i` is `none` before `t.start()`. -/
structure P1 (τ : Type) where
  globals : Globals τ
  todo : List (ForkStmt (Fin 4) Empty)
  threads : Fin 4 → Option Worker

/-- The two loops of `process1_static_threader`. -/
def process1StaticThreader : List (ForkStmt (Fin 4) Empty) :=
  (List.finRange 4).map ForkStmt.start ++ (List.finRange 4).map ForkStmt.join

def P1.spawn {τ : Type} (g : Globals τ) : P1 τ := ⟨g, process1StaticThreader, fun _ ↦ none⟩

/-- `run_p1` has returned. -/
def P1.exited {τ : Type} (p : P1 τ) : Bool := p.todo.isEmpty

section

variable {τ : Type} (net : Network τ)

/-- The target of thread `i` at position `k`. -/
def Network.target (i : Fin 4) (k : ℕ) : Option Server := (ranges net.stunServers i)[k]?

/-- A thread has been started and its loop is done. -/
def Network.returned (i : Fin 4) : Option Worker → Bool
  | none => false
  | some w => (net.target i w.position).isNone

/-- The next step of `thread_worker` in thread `i`. -/
def Network.threadWorker (i : Fin 4) (p : P1 τ) : Option (P1 τ) :=
  match p.threads i with
  | none => none
  | some w =>
    match net.target i w.position with
    | none => none
    | some (host, port) =>
      if w.asking then
        some { p with
          globals.results := forgeStunPacket net.rtt host port (net.exchange i w.position)
            p.globals.results
          threads := Function.update p.threads i (some ⟨w.position + 1, false⟩) }
      else if host ∈ p.globals.dynamicFound then
        some { p with threads := Function.update p.threads i (some ⟨w.position + 1, false⟩) }
      else
        some { p with threads := Function.update p.threads i (some ⟨w.position, true⟩) }

/-- The next statement of `process1_static_threader`. -/
def Network.forkJoin (p : P1 τ) : Option (P1 τ) :=
  match p.todo with
  | [] => none
  | .start i :: todo =>
    if (p.threads i).isSome then none
    else some { p with todo, threads := Function.update p.threads i (some ⟨0, false⟩) }
  | .join i :: todo => if net.returned i (p.threads i) then some { p with todo } else none

def Network.P1Step (p p' : P1 τ) : Prop :=
  net.forkJoin p = some p' ∨ ∃ i, net.threadWorker i p = some p'

inductive Network.P1Move : P1 τ → P1 τ → Prop
  | start {p : P1 τ} {i : Fin 4} {todo : List (ForkStmt (Fin 4) Empty)}
      (htodo : p.todo = .start i :: todo) (hthread : p.threads i = none) :
      P1Move p { p with todo, threads := Function.update p.threads i (some ⟨0, false⟩) }
  | join {p : P1 τ} {i : Fin 4} {todo : List (ForkStmt (Fin 4) Empty)}
      (htodo : p.todo = .join i :: todo) (hreturned : net.returned i (p.threads i) = true) :
      P1Move p { p with todo }
  | forge {p : P1 τ} {i : Fin 4} {w : Worker} {server : Server} (hthread : p.threads i = some w)
      (htarget : net.target i w.position = some server) :
      P1Move p { p with
        globals.results := p.globals.results ++
          forgeStunPacket net.rtt server.1 server.2 (net.exchange i w.position) []
        threads := Function.update p.threads i (some ⟨w.position + 1, false⟩) }
  | skip {p : P1 τ} {i : Fin 4} {w : Worker} {server : Server} (hthread : p.threads i = some w)
      (htarget : net.target i w.position = some server)
        (hfound : server.1 ∈ p.globals.dynamicFound) :
      P1Move p { p with threads := Function.update p.threads i (some ⟨w.position + 1, false⟩) }
  | ask {p : P1 τ} {i : Fin 4} {w : Worker} {server : Server} (hthread : p.threads i = some w)
      (htarget : net.target i w.position = some server) (hasking : w.asking = false) :
      P1Move p { p with threads := Function.update p.threads i (some ⟨w.position, true⟩) }

variable {net} {p p' : P1 τ}

theorem Network.p1Move_of_forkJoin (h : net.forkJoin p = some p') : net.P1Move p p' := by
  rw [forkJoin] at h
  split at h
  · cases h
  · rename_i i todo htodo
    split_ifs at h with hthread
    obtain rfl := Option.some.inj h
    exact P1Move.start htodo (Option.not_isSome_iff_eq_none.mp hthread)
  · rename_i i todo htodo
    split_ifs at h with hreturned
    obtain rfl := Option.some.inj h
    exact P1Move.join htodo hreturned

theorem Network.p1Move_of_threadWorker {i : Fin 4} (h : net.threadWorker i p = some p') :
    net.P1Move p p' := by
  rw [threadWorker] at h
  split at h
  · cases h
  · rename_i w hthread
    split at h
    · cases h
    · rename_i host port htarget
      split_ifs at h with hasking hfound
      · rw [forgeStunPacket_eq_append] at h
        obtain rfl := Option.some.inj h
        exact P1Move.forge hthread htarget
      · obtain rfl := Option.some.inj h
        exact P1Move.skip hthread htarget hfound
      · obtain rfl := Option.some.inj h
        exact P1Move.ask hthread htarget (Bool.eq_false_of_not_eq_true hasking)

theorem Network.P1Step.move (h : net.P1Step p p') : net.P1Move p p' := by
  rcases h with h | ⟨i, h⟩
  · exact p1Move_of_forkJoin h
  · exact p1Move_of_threadWorker h

end

/-! ## What P1 measures -/

section

variable {τ : Type} (net : Network τ)

/-- What thread `i` appends for its target at position `k`. -/
def Network.entry (i : Fin 4) (k : ℕ) : Multiset (Measurement τ) :=
  match net.target i k with
  | none => 0
  | some server =>
    (forgeStunPacket net.rtt server.1 server.2 (net.exchange i k) [] : List (Measurement τ))

/-- What thread `i` appends for its first `k` targets. -/
def Network.entries (i : Fin 4) (k : ℕ) : Multiset (Measurement τ) :=
  ∑ j ∈ Finset.range k, net.entry i j

/-- What the four threads append. -/
def Network.measurements : Multiset (Measurement τ) :=
  ∑ i, net.entries i (ranges net.stunServers i).length

def position : Option Worker → ℕ
  | none => 0
  | some w => w.position

structure Network.P1Good (p : P1 τ) : Prop where
  dynamicFound : p.globals.dynamicFound = ∅
  results : (p.globals.results : Multiset (Measurement τ))
    = ∑ i, net.entries i (position (p.threads i))
  course : OnCourse (fun i ↦ (p.threads i).isSome) (fun i ↦ net.returned i (p.threads i)) p.todo

variable {net} {p p' : P1 τ}

theorem Network.lt_length_of_target {i : Fin 4} {k : ℕ} {server : Server}
    (h : net.target i k = some server) : k < (ranges net.stunServers i).length :=
  (List.getElem?_eq_some_iff.mp h).1

theorem Network.entry_of_target {i : Fin 4} {k : ℕ} {server : Server}
    (h : net.target i k = some server) :
    net.entry i k =
      (forgeStunPacket net.rtt server.1 server.2 (net.exchange i k) [] : List (Measurement τ)) := by
  rw [entry, h]

theorem Network.entries_succ (i : Fin 4) (k : ℕ) :
    net.entries i (k + 1) = net.entries i k + net.entry i k := Finset.sum_range_succ _ _

theorem Network.entries_of_target_eq_none {i : Fin 4} {k : ℕ} (h : net.target i k = none) :
    net.entries i k = net.entries i (ranges net.stunServers i).length := by
  have hlength : (ranges net.stunServers i).length ≤ k := List.getElem?_eq_none_iff.mp h
  refine (Finset.sum_subset (Finset.range_mono hlength) fun j _ hj ↦ ?_).symm
  have hnone : net.target i j = none :=
    List.getElem?_eq_none (not_lt.mp fun hlt ↦ hj (Finset.mem_range.mpr hlt))
  rw [entry, hnone]

theorem Network.sum_entries_update {threads : Fin 4 → Option Worker} {i : Fin 4} {w : Worker}
    {e : Multiset (Measurement τ)}
    (h : net.entries i w.position = net.entries i (position (threads i)) + e) :
    ∑ j, net.entries j (position (Function.update threads i (some w) j)) =
      ∑ j, net.entries j (position (threads j)) + e := by
  have hsum := sum_update_add (fun j t ↦ net.entries j (position t)) threads i (some w)
  rw [position, h, ← add_assoc, add_right_comm] at hsum
  exact add_right_cancel hsum

theorem isSome_update (threads : Fin 4 → Option Worker) (i : Fin 4) (w : Worker) :
    (fun j ↦ (Function.update threads i (some w) j).isSome) =
      Function.update (fun j ↦ (threads j).isSome) i true := by
  funext j
  rcases eq_or_ne j i with rfl | hne
  · rw [Function.update_self, Function.update_self, Option.isSome_some]
  · rw [Function.update_of_ne hne, Function.update_of_ne hne]

theorem isSome_update_of_some {threads : Fin 4 → Option Worker} {i : Fin 4} {w : Worker}
    (h : threads i = some w) (w' : Worker) :
    (fun j ↦ (Function.update threads i (some w') j).isSome) = fun j ↦ (threads j).isSome := by
  rw [isSome_update, Function.update_eq_self_iff, h, Option.isSome_some]

theorem Network.returned_update {threads : Fin 4 → Option Worker} {i j : Fin 4}
    (hi : net.returned i (threads i) = false) (hj : net.returned j (threads j) = true)
    (w : Worker) :
    net.returned j (Function.update threads i (some w) j) = true := by
  rcases eq_or_ne j i with rfl | hne
  · rw [hi] at hj
    cases hj
  · rwa [Function.update_of_ne hne]

theorem Network.P1Good.spawn : net.P1Good (P1.spawn Globals.initial) where
  dynamicFound := rfl
  results := (Finset.sum_eq_zero fun _ _ ↦ rfl).symm
  course := by
    refine ⟨?_, fun i ↦ Or.inl (List.mem_append_right _
      (List.mem_map_of_mem (List.mem_finRange i)))⟩
    change wellForked (fun _ : Fin 4 ↦ false) process1StaticThreader = true
    decide

theorem Network.P1Good.work (h : net.P1Good p) {i : Fin 4} {w w' : Worker} {server : Server}
    (hthread : p.threads i = some w) (htarget : net.target i w.position = some server)
    {e : List (Measurement τ)} (he : net.entries i w'.position = net.entries i w.position + e) :
    net.P1Good { p with
      globals.results := p.globals.results ++ e
      threads := Function.update p.threads i (some w') } where
  dynamicFound := h.dynamicFound
  results := by
    have hentries : net.entries i w'.position = net.entries i (position (p.threads i)) + e := by
      rw [hthread]
      exact he
    rw [sum_entries_update hentries, ← h.results, Multiset.coe_add]
  course := by
    have hreturned : net.returned i (p.threads i) = false := by
      rw [hthread, returned, htarget, Option.isNone_some]
    have hcourse := h.course.mono fun j hj ↦ returned_update hreturned hj w'
    rwa [← isSome_update_of_some hthread w'] at hcourse

/-- **What a step of P1 preserves.** -/
theorem Network.P1Good.step (h : net.P1Good p) (hstep : net.P1Step p p') : net.P1Good p' := by
  cases hstep.move with
  | @start i todo htodo hthread =>
    have hcourse := h.course
    rw [htodo] at hcourse
    refine ⟨h.dynamicFound, ?_, ?_⟩
    · have hentries : net.entries i 0 = net.entries i (position (p.threads i)) + 0 := by
        rw [hthread, position, add_zero]
      exact h.results.trans ((sum_entries_update (w := ⟨0, false⟩) hentries).trans
        (add_zero _)).symm
    · have hreturned : net.returned i (p.threads i) = false := by rw [hthread, returned]
      have hstarted := hcourse.start.mono fun j hj ↦ returned_update hreturned hj ⟨0, false⟩
      rwa [← isSome_update p.threads i ⟨0, false⟩] at hstarted
  | @join i todo htodo hreturned =>
    have hcourse := h.course
    rw [htodo] at hcourse
    exact ⟨h.dynamicFound, h.results, hcourse.join hreturned⟩
  | forge hthread htarget =>
    refine h.work hthread htarget ?_
    rw [entries_succ, entry_of_target htarget]
  | skip hthread htarget hfound =>
    -- P1's copy of `dynamic_found` stays empty, P2 fills its own
    rw [h.dynamicFound] at hfound
    exact absurd hfound (Finset.notMem_empty _)
  | @ask i w server hthread htarget hasking =>
    have hentries : net.entries i (Worker.mk w.position true).position =
        net.entries i w.position + ([] : List (Measurement τ)) := (add_zero _).symm
    have hwork := h.work hthread htarget hentries
    rwa [List.append_nil] at hwork

/-- **When P1 exits, its `results` are what its threads measure**, in some order. -/
theorem Network.P1Good.results_of_exited (h : net.P1Good p) (hexited : p.exited = true) :
    (p.globals.results : Multiset (Measurement τ)) = net.measurements := by
  have hcourse := h.course
  rw [List.isEmpty_iff.mp hexited] at hcourse
  rw [h.results, measurements]
  refine Finset.sum_congr rfl fun i _ ↦ ?_
  have hreturned := hcourse.done_eq_true i
  cases hthread : p.threads i with
  | none => exact absurd (hthread ▸ hreturned) nofun
  | some w =>
    rw [hthread, returned, Option.isNone_iff_eq_none] at hreturned
    exact entries_of_target_eq_none hreturned

/-! ## Overlapping parts -/

theorem Network.mem_entries {i : Fin 4} {k : ℕ} {m : Measurement τ} :
    m ∈ net.entries i k ↔ ∃ j < k, m ∈ net.entry i j := by
  rw [entries, Multiset.mem_sum]
  simp only [Finset.mem_range]

theorem Network.mem_measurements {m : Measurement τ} :
    m ∈ net.measurements ↔ ∃ i k, m ∈ net.entry i k := by
  rw [measurements, Multiset.mem_sum]
  constructor
  · rintro ⟨i, -, hmem⟩
    obtain ⟨k, -, hmem⟩ := mem_entries.mp hmem
    exact ⟨i, k, hmem⟩
  · rintro ⟨i, k, hmem⟩
    refine ⟨i, Finset.mem_univ i, mem_entries.mpr ⟨k, ?_, hmem⟩⟩
    by_contra hlength
    have hnone : net.target i k = none := List.getElem?_eq_none (not_lt.mp hlength)
    rw [entry, hnone] at hmem
    exact Multiset.notMem_zero m hmem

/-- A request to `server` gets an acceptable reply. -/
def Network.Answers (server : Server) : Prop :=
  ∃ i k, net.target i k = some server ∧ (net.exchange i k).accepted = true

theorem Network.map_server_entry {i : Fin 4} {k : ℕ} {server : Server}
    (h : net.target i k = some server) :
    (net.entry i k).map Measurement.server
      = if (net.exchange i k).accepted then {server} else 0 := by
  rw [entry_of_target h, Multiset.map_coe, map_server_forgeStunPacket]
  split_ifs <;> rfl

theorem Network.exists_server_eq_iff {server : Server} :
    (∃ m ∈ net.measurements, m.server = server) ↔ net.Answers server := by
  constructor
  · rintro ⟨m, hmem, rfl⟩
    obtain ⟨i, k, hmem⟩ := mem_measurements.mp hmem
    have hserver := Multiset.mem_map_of_mem Measurement.server hmem
    cases htarget : net.target i k with
    | none =>
      rw [entry, htarget] at hmem
      exact absurd hmem (Multiset.notMem_zero m)
    | some server =>
      rw [map_server_entry htarget] at hserver
      split_ifs at hserver with haccepted
      · rw [Multiset.mem_singleton] at hserver
        exact ⟨i, k, hserver ▸ htarget, haccepted⟩
      · exact absurd hserver (Multiset.notMem_zero _)
  · rintro ⟨i, k, htarget, haccepted⟩
    have hserver : server ∈ (net.entry i k).map Measurement.server := by
      rw [map_server_entry htarget, if_pos haccepted]
      exact Multiset.mem_singleton_self server
    obtain ⟨m, hmem, heq⟩ := Multiset.mem_map.mp hserver
    exact ⟨m, mem_measurements.mpr ⟨i, k, hmem⟩, heq⟩

theorem Network.two_le_count_of_targets {i j : Fin 4} (hne : i ≠ j) {k l : ℕ} {server : Server}
    (hi : net.target i k = some server) (hj : net.target j l = some server)
    (hireply : (net.exchange i k).accepted = true) (hjreply : (net.exchange j l).accepted = true) :
    2 ≤ (net.measurements.map Measurement.server).count server := by
  have hentry (i : Fin 4) (k : ℕ) (h : net.target i k = some server) :
      net.entry i k ≤ net.entries i (ranges net.stunServers i).length := by
    obtain ⟨hlt, -⟩ := List.getElem?_eq_some_iff.mp h
    exact Finset.single_le_sum_of_canonicallyOrdered (Finset.mem_range.mpr hlt)
  have hpair : net.entry i k + net.entry j l ≤ net.measurements := by
    refine (add_le_add (hentry i k hi) (hentry j l hj)).trans ?_
    rw [← Finset.sum_pair (f := fun i ↦ net.entries i (ranges net.stunServers i).length) hne]
    exact Finset.sum_le_sum_of_subset (Finset.subset_univ _)
  calc 2 = ((net.entry i k + net.entry j l).map Measurement.server).count server := by
        rw [Multiset.map_add, map_server_entry hi, map_server_entry hj, if_pos hireply,
          if_pos hjreply, Multiset.count_add, Multiset.count_singleton_self]
    _ ≤ _ := Multiset.count_le_of_le server (Multiset.map_le_map hpair)

theorem Network.target_zero_zero {server second : Server} (h : net.stunServers[0]? = some server)
    (hsecond : net.stunServers[1]? = some second) : net.target 0 0 = some server := by
  obtain ⟨hlength, -⟩ := List.getElem?_eq_some_iff.mp hsecond
  change (slice 0 (net.stunServers.length / 2) net.stunServers)[0]? = some server
  rw [slice, List.drop_zero, List.getElem?_take_of_lt (Nat.div_pos hlength Nat.two_pos), h]

theorem slice_append_slice {α : Type} (servers : List α) (k : ℕ) :
    slice 0 k servers ++ slice k servers.length servers = servers := by
  rw [slice, slice, List.drop_zero, List.take_length, List.take_append_drop]

/-- **A server that answers every request is measured at least twice**: by one of the first two
threads and by the third, which goes through the whole list. -/
theorem Network.two_le_count_measurements {server : Server} (hmem : server ∈ net.stunServers)
    (h : ∀ i k, net.target i k = some server → (net.exchange i k).accepted = true) :
    2 ≤ (net.measurements.map Measurement.server).count server := by
  have htarget (i : Fin 4) (hi : server ∈ ranges net.stunServers i) :
      ∃ k, net.target i k = some server := List.getElem?_of_mem hi
  obtain ⟨l, hl⟩ := htarget 2 (List.mem_reverse.mpr hmem)
  rw [← slice_append_slice net.stunServers (net.stunServers.length / 2), List.mem_append] at hmem
  rcases hmem with hfirst | hsecond
  · obtain ⟨k, hk⟩ := htarget 0 hfirst
    exact two_le_count_of_targets (by decide) hk hl (h _ _ hk) (h _ _ hl)
  · obtain ⟨k, hk⟩ := htarget 1 hsecond
    exact two_le_count_of_targets (by decide) hk hl (h _ _ hk) (h _ _ hl)

/-! ## P1 comes to its end -/

/-- A bound for the steps thread `i` has left. -/
def Network.stepsLeft (net : Network τ) (i : Fin 4) : Option Worker → ℕ
  | none => 2 * (ranges net.stunServers i).length
  | some w => 2 * ((ranges net.stunServers i).length - w.position) - if w.asking then 1 else 0

def Network.p1StepsLeft (net : Network τ) (p : P1 τ) : ℕ :=
  p.todo.length + ∑ i, net.stepsLeft i (p.threads i)

theorem Network.stepsLeft_next_lt {i : Fin 4} {w : Worker} {server : Server}
    (h : net.target i w.position = some server) :
    net.stepsLeft i (some ⟨w.position + 1, false⟩) < net.stepsLeft i (some w) := by
  have hlt := lt_length_of_target h
  have hnext : net.stepsLeft i (some ⟨w.position + 1, false⟩) =
      2 * ((ranges net.stunServers i).length - (w.position + 1)) := rfl
  rw [hnext, stepsLeft]
  split_ifs <;> omega

theorem Network.stepsLeft_asking_lt {i : Fin 4} {w : Worker} {server : Server}
    (h : net.target i w.position = some server) (hasking : w.asking = false) :
    net.stepsLeft i (some ⟨w.position, true⟩) < net.stepsLeft i (some w) := by
  have hlt := lt_length_of_target h
  have hnext : net.stepsLeft i (some ⟨w.position, true⟩) =
      2 * ((ranges net.stunServers i).length - w.position) - 1 := rfl
  rw [hnext, stepsLeft, hasking, if_neg Bool.false_ne_true]
  omega

theorem Network.p1StepsLeft_lt_of_thread {i : Fin 4} {w : Worker} (htodo : p'.todo = p.todo)
    (hthreads : p'.threads = Function.update p.threads i (some w))
    (hless : net.stepsLeft i (some w) < net.stepsLeft i (p.threads i)) :
    net.p1StepsLeft p' < net.p1StepsLeft p := by
  have hsum := sum_update_add net.stepsLeft p.threads i (some w)
  rw [p1StepsLeft, p1StepsLeft, htodo, hthreads]
  omega

/-- **Every step of P1 is one of finitely many.** -/
theorem Network.P1Step.stepsLeft_lt (h : net.P1Step p p') :
    net.p1StepsLeft p' < net.p1StepsLeft p := by
  cases h.move with
  | @start i todo htodo hthread =>
    have hsum := sum_update_add net.stepsLeft p.threads i (some ⟨0, false⟩)
    have hequal : net.stepsLeft i (some ⟨0, false⟩) = net.stepsLeft i (p.threads i) := by
      rw [hthread]
      rfl
    change todo.length + ∑ j, net.stepsLeft j (Function.update p.threads i (some ⟨0, false⟩) j) < _
    rw [p1StepsLeft, htodo, List.length_cons]
    omega
  | @join i todo htodo hreturned =>
    change todo.length + ∑ j, net.stepsLeft j (p.threads j) < _
    rw [p1StepsLeft, htodo, List.length_cons]
    omega
  | forge hthread htarget =>
    exact p1StepsLeft_lt_of_thread rfl rfl (hthread ▸ stepsLeft_next_lt htarget)
  | skip hthread htarget hfound =>
    exact p1StepsLeft_lt_of_thread rfl rfl (hthread ▸ stepsLeft_next_lt htarget)
  | ask hthread htarget hasking =>
    exact p1StepsLeft_lt_of_thread rfl rfl (hthread ▸ stepsLeft_asking_lt htarget hasking)

theorem Network.exists_threadWorker {i : Fin 4} {w : Worker} {server : Server}
    (hthread : p.threads i = some w) (htarget : net.target i w.position = some server) :
    ∃ p', net.threadWorker i p = some p' := by
  obtain ⟨host, port⟩ := server
  simp only [threadWorker, hthread, htarget]
  split_ifs <;> exact ⟨_, rfl⟩

/-- **P1 does not block** before it exits. -/
theorem Network.P1Good.exists_step (h : net.P1Good p) (hexited : p.exited = false) :
    ∃ p', net.P1Step p p' := by
  have hcourse := h.course
  cases htodo : p.todo with
  | nil =>
    rw [P1.exited, htodo] at hexited
    cases hexited
  | cons stmt todo =>
    rw [htodo] at hcourse
    cases stmt with
    | start i =>
      have hstep : net.forkJoin p =
          some { p with todo, threads := Function.update p.threads i (some ⟨0, false⟩) } := by
        simp only [forkJoin, htodo, hcourse.started_eq_false, Bool.false_eq_true, if_false]
      exact ⟨_, Or.inl hstep⟩
    | join i =>
      by_cases hreturned : net.returned i (p.threads i) = true
      · have hstep : net.forkJoin p = some { p with todo } := by
          simp only [forkJoin, htodo, hreturned, if_true]
        exact ⟨_, Or.inl hstep⟩
      · obtain ⟨w, hthread⟩ := Option.isSome_iff_exists.mp hcourse.started_eq_true
        rw [hthread, returned, Option.isNone_iff_eq_none] at hreturned
        obtain ⟨server, htarget⟩ := Option.ne_none_iff_exists'.mp hreturned
        obtain ⟨p', hp'⟩ := exists_threadWorker hthread htarget
        exact ⟨p', Or.inr ⟨i, hp'⟩⟩
    | call c => exact c.elim

end

end NatGhost.Discoverer
