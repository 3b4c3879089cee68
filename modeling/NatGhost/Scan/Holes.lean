import NatGhost.Foundation.Rendezvous
import NatGhost.Scan.Heard

/-!
# Two hosts that scan each other

The tool is run on two hosts, each behind a NAT: both scan the public address of the other and
listen for it. A packet is let in by the NAT of the other side only if a packet has gone out there
to where it comes from, so the packets of each host open the way for those of the other.

The NATs here give the packets of each port a public port, `nat x port`, for as long as the scan
takes, and look at addresses and ports of what comes in. This is a rendezvous of gates (`view`),
with the ports for places: a port is printed only if it is a hole for both sides, and a hole that
both packets have reached is printed by one of the listeners, for every schedule of the thirty-two
workers and the network (`holes_printed`). Two NATs that keep the ports have a hole at every port.
Two NATs that permute them may have none, and then nothing is ever printed
(`card_nats_without_hole`).
-/

namespace NatGhost.Sweep

/-! ## The ports sent to -/

section

variable {n : ℕ} {env : Env n} {s t : System n}

theorem sends_of_step (hstep : Step env s t) : (∀ i, t.sends i = s.sends i) ∨
    ∃ i send, t.sends i = s.sends i ++ [send] ∧ ∀ j, j ≠ i → t.sends j = s.sends j := by
  have hother {i j : Fin n} {w : Worker} (hne : j ≠ i) :
      System.sends { s with loops := Function.update s.loops i (some w) } j = s.sends j :=
    congrArg (Option.elim · [] Worker.sends) (Function.update_of_ne hne _ _)
  have hself {i : Fin n} {w : Worker} :
      System.sends { s with loops := Function.update s.loops i (some w) } i = w.sends := by
    change (Function.update s.loops i (some w) i).elim [] Worker.sends = w.sends
    rw [Function.update_self, Option.elim_some]
  cases hstep with
  | statement | giveUp | leave => exact Or.inl fun _ ↦ rfl
  | @enter i call hi hloop =>
    refine Or.inl fun j ↦ ?_
    rcases eq_or_ne j i with rfl | hne
    · rw [hself, System.sends, hloop, Option.elim_none]
    · exact hother hne
  | @round i call w hi hloop =>
    have hold : s.sends i = w.sends := by rw [System.sends, hloop, Option.elim_some]
    rcases eq_or_ne w.port 0 with hzero | hne
    · refine Or.inl fun j ↦ ?_
      rcases eq_or_ne j i with rfl | hne
      · rw [hself, Worker.body_of_eq_zero _ _ _ hzero, hold]
      · exact hother hne
    · obtain ⟨send, -, hbody⟩ := Worker.body_of_ne_zero (env.libc i)
        (String.ofList call.sourceIp) (String.ofList call.destIp) hne
      refine Or.inr ⟨i, send, ?_, fun j hj ↦ hother hj⟩
      rw [hself, hbody, hold]

def System.sentTo (s : System n) : Set UInt16 :=
  {port | ∃ i, ∃ send ∈ s.sends i, send.destPort = port}

theorem sentTo_of_step (hstep : Step env s t) :
    t.sentTo = s.sentTo ∨ ∃ port, t.sentTo = insert port s.sentTo := by
  rcases sends_of_step hstep with hsame | ⟨i, send, hi, hother⟩
  · exact Or.inl (by simp only [System.sentTo, hsame])
  · refine Or.inr ⟨send.destPort, Set.ext fun port ↦ ?_⟩
    rw [Set.mem_insert_iff]
    constructor
    · rintro ⟨j, send', hsend', rfl⟩
      rcases eq_or_ne j i with rfl | hne
      · rw [hi, List.mem_append, List.mem_singleton] at hsend'
        exact hsend'.symm.imp (congrArg Send.destPort) fun hold ↦ ⟨j, send', hold, rfl⟩
      · exact Or.inr ⟨j, send', hother j hne ▸ hsend', rfl⟩
    · rintro (rfl | ⟨j, send', hsend', rfl⟩)
      · exact ⟨i, send, hi ▸ List.mem_append_right _ (List.mem_singleton_self _), rfl⟩
      · rcases eq_or_ne j i with rfl | hne
        · exact ⟨j, send', hi ▸ List.mem_append_left _ hsend', rfl⟩
        · exact ⟨j, send', (hother j hne).symm ▸ hsend', rfl⟩

end

/-! ## The two hosts -/

/-- The two scans, the packets of each that have come to the NAT of the other, and what the listener
of each has captured. -/
structure TwoScans where
  scan : Bool → System processCount
  arrived : Bool → List Send
  captures : Bool → List Capture

namespace TwoScans

def initial : TwoScans where
  scan := fun _ ↦ System.initial processCount
  arrived := fun _ ↦ []
  captures := fun _ ↦ []

variable (env : Bool → Env processCount) (host : Bool → Vector UInt8 4)
  (nat : Bool → UInt16 → UInt16)

/-- The packet has been sent by `x` and left its NAT. -/
def Left (s : TwoScans) {x : Bool} (p : Parcel (host x)) : Prop :=
  (∃ i, p.send ∈ (s.scan x).sends i) ∧ p.srcPort = nat x (sourcePort p.send)

/-- A packet of the other side has opened the way: it has gone out through the port to which `p`
comes, to where `p` comes from. -/
def Opens (s : TwoScans) {x : Bool} (p : Parcel (host x)) (send : Send) : Prop :=
  (∃ i, send ∈ (s.scan !x).sends i) ∧ nat (!x) (sourcePort send) = p.send.destPort ∧
    send.destPort = p.srcPort

/-- A packet of `x` has come to the NAT of the other side. -/
def arrive (s : TwoScans) {x : Bool} (p : Parcel (host x)) : TwoScans :=
  { s with arrived := Function.update s.arrived x (s.arrived x ++ [p.send]) }

/-- The listener of `x` captures a frame. -/
def see (s : TwoScans) (x : Bool) (c : Capture) : TwoScans :=
  { s with captures := Function.update s.captures x (s.captures x ++ [c]) }

inductive Move (s : TwoScans) : TwoScans → Prop
  /-- A step of a master or a worker. -/
  | scan {x : Bool} {t : System processCount} (hstep : Step (env x) (s.scan x) t) :
      Move s { s with scan := Function.update s.scan x t }
  /-- A packet comes to the other side and is let in, to the port that has opened the way. -/
  | letIn {x : Bool} {p : Parcel (host x)} {send : Send} (hleft : s.Left host nat p)
      (hopens : s.Opens host nat p send) (hport : p.dstPort = sourcePort send) :
      Move s ((s.arrive host p).see (!x) p.capture)
  /-- A packet comes to the other side too early, or at a port where nothing fits. -/
  | drop {x : Bool} {p : Parcel (host x)} (hleft : s.Left host nat p)
      (hnot : ∀ send, ¬s.Opens host nat p send) : Move s (s.arrive host p)
  /-- The filter of a listener keeps a frame out. -/
  | other {x : Bool} {c : Capture} (hc : ¬PassesFilter (host !x) c.frame) : Move s (s.see x c)

def Reaches (s : TwoScans) : Prop := Relation.ReflTransGen (Move env host nat) initial s

/-- What the listener of `x` has printed. -/
def printed (s : TwoScans) (x : Bool) : List UInt16 := printedPorts (host !x) (s.captures x)

/-! ## The rendezvous -/

def view (s : TwoScans) : Rendezvous.State UInt16 where
  sent := {e | e.2 ∈ (s.scan e.1).sentTo}
  arrived := {e | ∃ send ∈ s.arrived e.1, send.destPort = e.2}
  opened := {e | e.2 ∈ s.printed host e.1}

variable {env host nat} {s t : TwoScans} {x : Bool} {p : Parcel (host x)}

theorem Reaches.scan (h : Reaches env host nat s) (x : Bool) :
    Sweep.Reaches (env x) (s.scan x) := by
  induction h with
  | refl => exact Relation.ReflTransGen.refl
  | @tail s _ _ hmove ih =>
    cases hmove with
    | @scan y t hstep =>
      rcases eq_or_ne x y with rfl | hne
      · exact (congrArg (Sweep.Reaches (env x)) (Function.update_self x t s.scan)).mpr
          (ih.tail hstep)
      · exact (congrArg (Sweep.Reaches (env x)) (Function.update_of_ne hne t s.scan)).mpr ih
    | letIn | drop | other => exact ih

theorem view_scan_of_eq {u : System processCount} (h : u.sentTo = (s.scan x).sentTo) :
    view host { s with scan := Function.update s.scan x u } = view host s :=
  Rendezvous.State.ext (Rendezvous.setOf_update_of_eq (fun _ ↦ System.sentTo) s.scan h) rfl rfl

theorem view_scan_of_insert {u : System processCount} {port : UInt16}
    (h : u.sentTo = insert port (s.scan x).sentTo) :
    view host { s with scan := Function.update s.scan x u }
      = { view host s with sent := insert (x, port) (view host s).sent } :=
  Rendezvous.State.ext (Rendezvous.setOf_update_of_insert (fun _ ↦ System.sentTo) s.scan h)
    rfl rfl

theorem view_arrive : view host (s.arrive host p)
    = { view host s with arrived := insert (x, p.send.destPort) (view host s).arrived } := by
  refine Rendezvous.State.ext rfl (Rendezvous.setOf_update_of_insert
    (fun _ (sends : List Send) ↦ {port | ∃ send ∈ sends, send.destPort = port}) s.arrived ?_) rfl
  refine Set.ext fun port ↦ ?_
  change (∃ send ∈ s.arrived x ++ [p.send], send.destPort = port)
    ↔ port = p.send.destPort ∨ ∃ send ∈ s.arrived x, send.destPort = port
  simp only [List.mem_append, List.mem_singleton, or_and_right, exists_or, exists_eq_left]
  rw [or_comm, eq_comm]

theorem printedPorts_append (host : Vector UInt8 4) (captures : List Capture) (c : Capture) :
    printedPorts host (captures ++ [c])
      = printedPorts host captures ++ (printedPort host c).toList := by
  rw [printedPorts, List.filterMap_append, printedPorts]
  cases h : printedPort host c with
  | none => rw [List.filterMap_cons_none h]; rfl
  | some port => rw [List.filterMap_cons_some h]; rfl

theorem view_see_of_none {c : Capture} (h : printedPort (host !x) c = none) :
    view host (s.see x c) = view host s := by
  refine Rendezvous.State.ext rfl rfl (Rendezvous.setOf_update_of_eq
    (fun y captures ↦ {port | port ∈ printedPorts (host !y) captures}) s.captures ?_)
  rw [printedPorts_append, h, Option.toList_none, List.append_nil]

theorem view_see_of_some {c : Capture} {port : UInt16} (h : printedPort (host !x) c = some port) :
    view host (s.see x c)
      = { view host s with opened := insert (x, port) (view host s).opened } := by
  refine Rendezvous.State.ext rfl rfl (Rendezvous.setOf_update_of_insert
    (fun y captures ↦ {port | port ∈ printedPorts (host !y) captures}) s.captures ?_)
  refine Set.ext fun q ↦ ?_
  change q ∈ printedPorts (host !x) (s.captures x ++ [c])
    ↔ q = port ∨ q ∈ printedPorts (host !x) (s.captures x)
  rw [printedPorts_append, h, Option.toList_some, List.mem_append, List.mem_singleton, or_comm]

theorem exists_opens_iff (h : Reaches env host nat s) (hleft : s.Left host nat p) :
    (∃ send, s.Opens host nat p send)
      ↔ Rendezvous.Admits nat (view host s) x p.send.destPort := by
  obtain ⟨⟨i, hi⟩, hsrc⟩ := hleft
  have hforged := forged_of_sends (h.scan x) hi
  rw [hforged.sourcePort_eq] at hsrc
  constructor
  · rintro ⟨send, ⟨j, hj⟩, hport, hdest⟩
    rw [(forged_of_sends (h.scan !x) hj).sourcePort_eq, hdest, hsrc] at hport
    exact ⟨⟨j, send, hj, hdest.trans hsrc⟩, hport⟩
  · rintro ⟨⟨j, send, hj, hdest⟩, hmeets⟩
    refine ⟨send, ⟨j, hj⟩, ?_, hdest.trans hsrc.symm⟩
    rw [(forged_of_sends (h.scan !x) hj).sourcePort_eq, hdest]
    exact hmeets

/-- **A move is a step of the rendezvous, or none.** -/
theorem view_of_move (h : Reaches env host nat s) (hmove : Move env host nat s t) :
    Relation.ReflGen (Rendezvous.Step nat) (view host s) (view host t) := by
  cases hmove with
  | @scan x u hstep =>
    rcases sentTo_of_step hstep with hsame | ⟨port, hport⟩
    · rw [view_scan_of_eq hsame]
    · rw [view_scan_of_insert hport]
      exact Relation.ReflGen.single (Rendezvous.Step.send x port)
  | @letIn x p send hleft hopens hport =>
    have hadmits := (exists_opens_iff h hleft).mp ⟨send, hopens⟩
    obtain ⟨⟨i, hi⟩, hsrc⟩ := hleft
    have hforged := forged_of_sends (h.scan x) hi
    have hprinted : printedPort (host !!x) p.capture = some (nat x p.send.destPort) := by
      rw [Bool.not_not, printedPort_parcel hforged, hsrc, hforged.sourcePort_eq]
    rw [view_see_of_some hprinted, view_arrive]
    exact Relation.ReflGen.single (Rendezvous.Step.letIn ⟨i, p.send, hi, rfl⟩ hadmits)
  | @drop x p hleft hnot =>
    have hclosed := (exists_opens_iff h hleft).not.mp (not_exists.mpr hnot)
    obtain ⟨⟨i, hi⟩, -⟩ := hleft
    rw [view_arrive]
    exact Relation.ReflGen.single (Rendezvous.Step.drop ⟨i, p.send, hi, rfl⟩ hclosed)
  | @other x c hc => rw [view_see_of_none (if_neg hc)]

/-- **Two hosts that scan each other are a rendezvous.** -/
theorem Reaches.view (h : Reaches env host nat s) : Rendezvous.Reaches nat (view host s) := by
  induction h with
  | refl =>
    have hnone : (System.initial processCount).sentTo = ∅ :=
      Set.eq_empty_of_forall_notMem fun _ ⟨_, _, hsend, _⟩ ↦ absurd hsend List.not_mem_nil
    have hview : TwoScans.view host initial = Rendezvous.State.initial :=
      Rendezvous.State.ext (Set.eq_empty_of_forall_notMem fun e he ↦ (hnone.le he).elim)
        (Set.eq_empty_of_forall_notMem fun e ⟨_, he, _⟩ ↦ absurd he List.not_mem_nil)
        (Set.eq_empty_of_forall_notMem fun e he ↦ absurd he List.not_mem_nil)
    rw [hview]
    exact Relation.ReflTransGen.refl
  | tail hreach hmove ih => exact ih.trans (view_of_move hreach hmove).to_reflTransGen

/-! ## A run with a hole -/

theorem lift_scan (s : TwoScans) (x : Bool) {u : System processCount}
    (hsteps : Relation.ReflTransGen (Step (env x)) (s.scan x) u) :
    Relation.ReflTransGen (Move env host nat) s
      { s with scan := Function.update s.scan x u } := by
  induction hsteps with
  | refl => rw [Function.update_eq_self]
  | @tail v u _ hstep ih =>
    refine ih.tail ?_
    have hmove : Move env host nat { s with scan := Function.update s.scan x v }
        { s with scan := Function.update (Function.update s.scan x v) x u } :=
      Move.scan ((congrArg (Step (env x) · u) (Function.update_self x v s.scan)).mpr hstep)
    rwa [Function.update_idem] at hmove

theorem exists_parcel (host : Vector UInt8 4) (srcPort dstPort : UInt16) (send : Send) :
    ∃ p : Parcel host, p.send = send ∧ p.srcPort = srcPort ∧ p.dstPort = dstPort := by
  obtain ⟨b₀, b₁, b₂, b₃, hbytes⟩ := List.length_eq_four.mp host.length_toList
  exact ⟨⟨send, Vector.replicate 12 0, 63, 0, le32 b₀ b₁ b₂ b₃, 0, srcPort, dstPort, 0, [],
    fun _ ↦ 0, (bytesLe32_le32 b₀ b₁ b₂ b₃).trans hbytes.symm⟩, rfl, rfl, rfl⟩

section

variable (hpath : ∀ x, (env x).Plain) (hcreated : ∀ x i, (env x).created i = true)
  (hopened : ∀ x i, (env x).opened i = true)

include hpath hcreated hopened

theorem exists_all_sent (h : Reaches env host nat s) (x : Bool) :
    ∃ u, Reaches env host nat { s with scan := Function.update s.scan x u } ∧
      ∀ port ≠ 0, port ∈ u.sentTo := by
  obtain ⟨u, hreach, hports⟩ := exists_all_ports (hpath x) (by decide) (hcreated x)
    (i := ⟨15, by decide⟩) rfl (hopened x _) (h.scan x) 1
  refine ⟨u, Relation.ReflTransGen.trans h (lift_scan s x hreach), fun port hne ↦ ?_⟩
  have hpos : port.toNat ≠ 0 := fun hzero ↦ hne (UInt16.toNat_inj.mp hzero)
  have hcount := hports port.toNat (by omega) (Nat.le_of_lt_succ port.toNat_lt)
  rw [Nat.one_le_iff_ne_zero, Ne, List.count_eq_zero, not_not, portsSent_eq] at hcount
  obtain ⟨send, hsend, hport⟩ := List.mem_map.mp hcount
  exact ⟨_, send, hsend, UInt16.toNat_inj.mp hport⟩

variable (host nat)

/-- **Where the NATs meet, there is a run with a hole.** -/
theorem exists_hole {port : UInt16} (hport : port ≠ 0) (hout : nat x port ≠ 0)
    (hmeets : nat (!x) (nat x port) = port) :
    ∃ s, Reaches env host nat s ∧ nat x port ∈ s.printed host !x := by
  obtain ⟨u, hreach, hu⟩ := exists_all_sent hpath hcreated hopened
    (Relation.ReflTransGen.refl : Reaches env host nat initial) x
  obtain ⟨v, hreach, hv⟩ := exists_all_sent hpath hcreated hopened hreach !x
  set s : TwoScans := { initial with
    scan := Function.update (Function.update initial.scan x u) (!x) v }
  have hx : s.scan x = u :=
    (Function.update_of_ne (Bool.not_ne_self x).symm _ _).trans (Function.update_self ..)
  have hnx : s.scan (!x) = v := Function.update_self ..
  obtain ⟨i, send, hsend, hdest⟩ := hu port hport
  obtain ⟨j, back, hback, hbackDest⟩ := hv (nat x port) hout
  obtain ⟨p, rfl, hsrc, hdst⟩ := exists_parcel (host x) (nat x port) (sourcePort back) send
  have hleft : s.Left host nat p := by
    have hforged := forged_of_sends (hreach.scan x) (hx.symm ▸ hsend)
    exact ⟨⟨i, hx.symm ▸ hsend⟩, by rw [hsrc, hforged.sourcePort_eq, hdest]⟩
  have hopens : s.Opens host nat p back := by
    have hforged := forged_of_sends (hreach.scan !x) (hnx.symm ▸ hback)
    refine ⟨⟨j, hnx.symm ▸ hback⟩, ?_, hbackDest.trans hsrc.symm⟩
    rw [hforged.sourcePort_eq, hbackDest, hmeets, hdest]
  refine ⟨_, hreach.tail (Move.letIn hleft hopens hdst), ?_⟩
  obtain ⟨⟨k, hk⟩, -⟩ := hleft
  have hprinted : printedPort (host !!x) p.capture = some (nat x port) := by
    rw [Bool.not_not, printedPort_parcel (forged_of_sends (hreach.scan x) hk), hsrc]
  have hopen : (!x, nat x port) ∈ (view host ((s.arrive host p).see (!x) p.capture)).opened := by
    rw [view_see_of_some hprinted]
    exact Set.mem_insert _ _
  exact hopen

end

end TwoScans

/-! ## The holes -/

/-- **The holes.** In every state of every run of the two hosts, whatever the NATs do with the
ports:

* a port that a listener prints is one its own host has sent to; the other host has sent to the
  public port of these packets, and those it has sent there have the printed port for their public
  port;
* of two packets that have arrived and fit together, at least one has been printed. -/
theorem holes_printed (env : Bool → Env processCount) (host : Bool → Vector UInt8 4)
    (nat : Bool → UInt16 → UInt16) {s : TwoScans} (h : TwoScans.Reaches env host nat s) :
    (∀ x, ∀ port ∈ s.printed host x, port ∈ (s.scan x).sentTo ∧
      nat x port ∈ (s.scan !x).sentTo ∧ nat (!x) (nat x port) = port) ∧
    ∀ x, ∀ send ∈ s.arrived x, ∀ back ∈ s.arrived !x, back.destPort = nat x send.destPort →
      nat (!x) back.destPort = send.destPort →
      back.destPort ∈ s.printed host !x ∨ send.destPort ∈ s.printed host x := by
  have hinv := Rendezvous.Inv.of_reaches h.view
  refine ⟨hinv.opened_met, fun x send hsend back hback hout hmeets ↦ ?_⟩
  rw [hout] at hmeets ⊢
  exact hinv.met_opened x send.destPort ⟨send, hsend, rfl⟩ ⟨back, hback, hout⟩ hmeets

/-- Two NATs that keep the ports, and a hole at port 80. -/
theorem holes_printed_kept : ∃ s : TwoScans,
    80 ∈ s.printed (fun _ ↦ keptHost) true ∧ 80 ∈ (s.scan true).sentTo := by
  obtain ⟨s, hreach, hport⟩ := TwoScans.exists_hole (fun _ ↦ keptHost) (fun _ port ↦ port)
    (fun _ ↦ Env.plain_forge) (fun _ _ ↦ rfl) (fun _ _ ↦ rfl) (x := false)
    (by decide : (80 : UInt16) ≠ 0) (by decide) rfl
  exact ⟨s, hport, ((holes_printed _ _ _ hreach).1 true 80 hport).1⟩

/-! ## NATs without a hole -/

abbrev Port := {port : UInt16 // port ≠ 0}

theorem card_port : Nat.card Port = 65535 := by
  have hnat (k : Fin 65535) : (UInt16.ofNat (k.val + 1)).toNat = k.val + 1 :=
    UInt16.toNat_ofNat_of_lt' (Nat.succ_lt_succ k.isLt)
  let f (k : Fin 65535) : Port := ⟨UInt16.ofNat (k.val + 1), fun hzero ↦
    Nat.succ_ne_zero k.val ((hnat k).symm.trans (congrArg UInt16.toNat hzero))⟩
  have hbij : f.Bijective := by
    refine ⟨fun k l heq ↦ Fin.ext (Nat.succ.inj ?_), fun ⟨port, hne⟩ ↦ ?_⟩
    · exact (hnat k).symm.trans ((congrArg (UInt16.toNat ∘ Subtype.val) heq).trans (hnat l))
    · have hpos : port.toNat ≠ 0 := fun hzero ↦ hne (UInt16.toNat_inj.mp hzero)
      have hlt := port.toNat_lt
      refine ⟨⟨port.toNat - 1, by omega⟩, Subtype.ext (UInt16.toNat_inj.mp ?_)⟩
      exact (hnat _).trans (Nat.succ_pred hpos)
  rw [← Nat.card_eq_of_bijective f hbij, Nat.card_fin]

def permuted (ab : Equiv.Perm Port × Equiv.Perm Port) (x : Bool) : UInt16 → UInt16 :=
  Equiv.Perm.ofSubtype (bif x then ab.2 else ab.1)

theorem silent_iff {env : Bool → Env processCount} (hpath : ∀ x, (env x).Plain)
    (hcreated : ∀ x i, (env x).created i = true) (hopened : ∀ x i, (env x).opened i = true)
    (host : Bool → Vector UInt8 4) (ab : Equiv.Perm Port × Equiv.Perm Port) :
    (∀ s, TwoScans.Reaches env host (permuted ab) s → ∀ x, s.printed host x = [])
      ↔ ∀ port, ab.2 (ab.1 port) ≠ port := by
  have hfalse (port : Port) : permuted ab false port = ab.1 port :=
    Equiv.Perm.ofSubtype_apply_coe ab.1 port
  have htrue (port : Port) : permuted ab true port = ab.2 port :=
    Equiv.Perm.ofSubtype_apply_coe ab.2 port
  constructor
  · intro hsilent port hmeets
    have hout : permuted ab false port ≠ 0 := hfalse port ▸ (ab.1 port).2
    have hback : permuted ab (!false) (permuted ab false port) = port := by
      rw [hfalse, Bool.not_false, htrue, hmeets]
    obtain ⟨s, hreach, hport⟩ := TwoScans.exists_hole host _ hpath hcreated hopened port.2
      hout hback
    exact absurd (hsilent s hreach _ ▸ hport) List.not_mem_nil
  · intro hnot s hreach x
    refine List.eq_nil_iff_forall_not_mem.mpr fun port hport ↦ ?_
    obtain ⟨⟨i, send, hsend, rfl⟩, -, hmeets⟩ :=
      (Rendezvous.Inv.of_reaches hreach.view).opened_met x port hport
    obtain ⟨-, -, -, hne, -⟩ := forged_of_sends (hreach.scan x) hsend
    rw [Rendezvous.Meets] at hmeets
    cases x with
    | false =>
      rw [hfalse ⟨_, hne⟩, Bool.not_false, htrue] at hmeets
      exact hnot _ (Subtype.ext hmeets)
    | true =>
      rw [htrue ⟨_, hne⟩, Bool.not_true, hfalse] at hmeets
      exact hnot (ab.2 ⟨_, hne⟩) (congrArg ab.2 (Subtype.ext hmeets))

/-- **NATs without a hole.** All processes are created and get their sockets. Of the pairs of NATs
that permute the ports, these many leave no hole: whatever the workers and the network do, neither
listener prints anything. -/
theorem card_nats_without_hole (env : Bool → Env processCount) (hpath : ∀ x, (env x).Plain)
    (hcreated : ∀ x i, (env x).created i = true) (hopened : ∀ x i, (env x).opened i = true)
    (host : Bool → Vector UInt8 4) :
    Nat.card {ab : Equiv.Perm Port × Equiv.Perm Port //
        ∀ s, TwoScans.Reaches env host (permuted ab) s → ∀ x, s.printed host x = []}
      = Nat.factorial 65535 * numDerangements 65535 := by
  have : Finite Port := Nat.finite_of_card_ne_zero (by rw [card_port]; exact Nat.succ_ne_zero _)
  rw [Nat.card_congr (Equiv.subtypeEquivRight (silent_iff hpath hcreated hopened host)),
    Rendezvous.card_forall_not_meet, card_port]

/-- Such processes. -/
theorem card_nats_without_hole_plain :
    Nat.card {ab : Equiv.Perm Port × Equiv.Perm Port //
        ∀ s, TwoScans.Reaches (fun _ ↦ ⟨"forge.exe".toList, fun _ ↦ true, fun _ ↦ true,
          fun _ _ ↦ smallLibc⟩) (fun _ ↦ keptHost) (permuted ab) s →
            ∀ x, s.printed (fun _ ↦ keptHost) x = []}
      = Nat.factorial 65535 * numDerangements 65535 :=
  card_nats_without_hole _ (fun _ ↦ ⟨by decide, by decide⟩) (fun _ _ ↦ rfl) (fun _ _ ↦ rfl) _

end NatGhost.Sweep
