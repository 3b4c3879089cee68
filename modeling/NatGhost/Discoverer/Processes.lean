import Mathlib.Data.List.DropRight
import NatGhost.Discoverer.StaticThreader

/-!
# The three processes of the server discovery

`main` of `stundiscoverer.py` starts P1, P2 and P3, joins them, removes from `results` the hosts in
`dynamic_found` and ranks what is left by `rtt`. P1 measures the static servers (`StaticThreader`),
P2 resolves names into `dynamic_found`, P3 looks up the neighbours of what is in `dynamic_found` and
prints what it finds.

## Whose globals

A process works on the copy of the globals it got when it was started. `main` starts its processes
before it changes anything, so it makes no difference whether the copy is taken by forking or by a
new import. Nothing is sent back: after the joins `main` deduplicates and ranks its own `results`,
which nobody has written. This invariant (`Env.Good`) holds under every scheduling of the processes
and of P1's threads, so a server that answers is missing from the ranking unless its host is in the
dynamic set, whichever process's `dynamic_found` is taken for that (`rankedOnce_iff`).

P1's own copy does have all measurements, and those of a server that answers every request twice
(`Env.Run.two_le_length_accepted`).
-/

namespace NatGhost.Discoverer

/-! ## P2 and P3 -/

inductive RecordType
  | srv
  | a
  | aaaa

/-- A record of a DNS answer, with `str(r)` and `str(r.target)`. -/
structure Answer where
  text : String
  target : String

/-- `s.rstrip('.')`. -/
def rstripDots (s : String) : String := String.ofList (s.toList.rdropWhile (· = '.'))

/-- What `resolve_record` adds for a record. -/
def Answer.name (r : Answer) : RecordType → String
  | .srv => rstripDots r.target
  | .a => rstripDots r.text
  | .aaaa => rstripDots r.text

def domains : List String :=
  ["_stun._udp.google.com", "_stun._udp.1und1.de", "_stun._udp.linphone.org",
   "_stun._udp.counterpath.net", "_stun._udp.callwithus.com", "_stun._udp.sipgate.net",
   "_stun._udp.gmx.net", "_stun._udp.iptel.org", "_stun._udp.schlund.de",
   "_stun._udp.voipbuster.com", "_stun._udp.12connect.com", "_stun._udp.3cx.com",
   "_stun._udp.t-online.de", "_stun._udp.vline.com", "_stun._udp.miwifi.com",
   "_stun._udp.voiparound.com", "_stun._udp.ekiga.net", "_stun._udp.jumblo.com"]

def srvDomains : List String := domains.map fun d ↦ "_stun._udp." ++ d

/-- The lookups of `process2_static_threader`, by `resolve_all_types` for each domain. -/
def lookups : List (String × RecordType) :=
  (srvDomains ++ domains).flatMap fun d ↦ [(d, .srv), (d, .a), (d, .aaaa)]

/-- The input of a run. `dnsResolve` is `none` where the resolver raises an exception. -/
structure Env (τ : Type) extends Network τ where
  dnsResolve : String → RecordType → Option (List Answer)

structure P2 (τ : Type) where
  globals : Globals τ
  pending : List (String × RecordType)

/-- The third process. `run_reverse_brute` reads its copy of `dynamic_found` and prints. -/
structure P3 (τ : Type) where
  globals : Globals τ
  returned : Bool

section

variable {τ : Type} (env : Env τ)

def Env.resolveRecord (domain : String) (rtype : RecordType) (found : Finset String) :
    Finset String :=
  match env.dnsResolve domain rtype with
  | none => found
  | some answers => answers.foldl (fun found r ↦ insert (r.name rtype) found) found

/-- One of the pending lookups is done by a thread of the pools, under the lock. -/
def Env.resolve (j : ℕ) (p : P2 τ) : Option (P2 τ) :=
  match p.pending[j]? with
  | none => none
  | some (domain, rtype) =>
    some ⟨⟨env.resolveRecord domain rtype p.globals.dynamicFound, p.globals.results⟩,
      p.pending.eraseIdx j⟩

/-- A lookup finds `host`. -/
def Env.NameOf (l : String × RecordType) (host : String) : Prop :=
  ∃ answers, env.dnsResolve l.1 l.2 = some answers ∧ ∃ r ∈ answers, r.name l.2 = host

def Env.Resolves (host : String) : Prop := ∃ l ∈ lookups, env.NameOf l host

def Env.P2Good (p : P2 τ) : Prop :=
  ∀ host, (host ∈ p.globals.dynamicFound ∨ ∃ l ∈ p.pending, env.NameOf l host) ↔ env.Resolves host

variable {env} {p p' : P2 τ}

theorem mem_foldl_insert {rtype : RecordType} {answers : List Answer} {found : Finset String}
    {host : String} : host ∈ answers.foldl (fun found r ↦ insert (r.name rtype) found) found ↔
      host ∈ found ∨ ∃ r ∈ answers, r.name rtype = host := by
  induction answers generalizing found with
  | nil =>
    rw [List.foldl_nil]
    exact ⟨Or.inl, fun h ↦ h.elim id fun ⟨_, hmem, _⟩ ↦ absurd hmem List.not_mem_nil⟩
  | cons r answers ih =>
    rw [List.foldl_cons, ih, Finset.mem_insert, List.exists_mem_cons_iff, or_assoc, or_left_comm,
      eq_comm (a := host)]

theorem Env.mem_resolveRecord {l : String × RecordType} {found : Finset String} {host : String} :
    host ∈ env.resolveRecord l.1 l.2 found ↔ host ∈ found ∨ env.NameOf l host := by
  rw [resolveRecord, NameOf]
  cases hanswers : env.dnsResolve l.1 l.2 with
  | none =>
    exact ⟨Or.inl, fun h ↦ h.elim id fun ⟨_, heq, _⟩ ↦ nomatch heq⟩
  | some answers =>
    refine mem_foldl_insert.trans (or_congr_right ⟨fun h ↦ ⟨answers, rfl, h⟩, ?_⟩)
    rintro ⟨_, heq, h⟩
    exact Option.some.inj heq ▸ h

theorem Env.resolve_cases {j : ℕ} (h : env.resolve j p = some p') :
    ∃ l, p.pending.Perm (l :: p'.pending) ∧
      p'.globals = ⟨env.resolveRecord l.1 l.2 p.globals.dynamicFound, p.globals.results⟩ := by
  rw [resolve] at h
  split at h
  · cases h
  · rename_i domain rtype hl
    obtain rfl := Option.some.inj h
    obtain ⟨hlt, hget⟩ := List.getElem?_eq_some_iff.mp hl
    exact ⟨(domain, rtype), hget ▸ (List.getElem_cons_eraseIdx_perm hlt).symm, rfl⟩

theorem Env.P2Good.spawn : env.P2Good ⟨Globals.initial, lookups⟩ :=
  fun _ ↦ or_iff_right (Finset.notMem_empty _)

theorem Env.P2Good.step (h : env.P2Good p) {j : ℕ} (hstep : env.resolve j p = some p') :
    env.P2Good p' := by
  obtain ⟨l, hperm, hglobals⟩ := resolve_cases hstep
  intro host
  rw [← h host, hglobals, mem_resolveRecord, or_assoc]
  refine or_congr_right ?_
  simp only [hperm.mem_iff, List.exists_mem_cons_iff]

end

/-! ## The main process -/

inductive Child
  | p1
  | p2
  | p3
deriving DecidableEq

/-- What `main` does after the joins. -/
inductive MainCall
  | deduplicate
  | rank
deriving DecidableEq

/-- The statements of `main`. -/
def mainStmts : List (ForkStmt Child MainCall) :=
  [.start .p1, .start .p2, .start .p3, .join .p1, .join .p2, .join .p3, .call .deduplicate,
    .call .rank]

/-- The main process, with its globals, and the processes it has started. -/
structure System (τ : Type) where
  globals : Globals τ
  todo : List (ForkStmt Child MainCall)
  sortedResults : List (Measurement τ)
  p1 : Option (P1 τ)
  p2 : Option (P2 τ)
  p3 : Option (P3 τ)

section

variable {τ : Type}

def deduplicateDynamicResults (g : Globals τ) : Globals τ :=
  { g with results := g.results.filter fun r ↦ r.ip ∉ g.dynamicFound }

def System.initial : System τ := ⟨Globals.initial, mainStmts, [], none, none, none⟩

def System.started (s : System τ) : Child → Bool
  | .p1 => s.p1.isSome
  | .p2 => s.p2.isSome
  | .p3 => s.p3.isSome

def System.exited (s : System τ) : Child → Bool
  | .p1 => s.p1.any P1.exited
  | .p2 => s.p2.any fun p ↦ p.pending.isEmpty
  | .p3 => s.p3.any fun p ↦ p.returned

/-- The new process gets a copy of the globals. -/
def System.start (s : System τ) : Child → System τ
  | .p1 => { s with p1 := some (P1.spawn s.globals) }
  | .p2 => { s with p2 := some ⟨s.globals, lookups⟩ }
  | .p3 => { s with p3 := some ⟨s.globals, false⟩ }

/-- The next statement of `main`. -/
def System.main [LinearOrder τ] (s : System τ) : Option (System τ) :=
  match s.todo with
  | [] => none
  | .start c :: todo => if s.started c then none else some { s.start c with todo }
  | .join c :: todo => if s.exited c then some { s with todo } else none
  | .call .deduplicate :: todo =>
    some { s with todo, globals := deduplicateDynamicResults s.globals }
  | .call .rank :: todo =>
    some { s with
      todo
      sortedResults := s.globals.results.mergeSort fun x y ↦ decide (x.rtt ≤ y.rtt) }

variable (env : Env τ)

structure Env.Good (s : System τ) : Prop where
  globals : s.globals = Globals.initial
  sortedResults : s.sortedResults = []
  p1 : ∀ p ∈ s.p1, env.P1Good p
  p2 : ∀ p ∈ s.p2, env.P2Good p
  p3 : ∀ p ∈ s.p3, p.globals = Globals.initial
  course : OnCourse s.started s.exited s.todo

variable {env} {s s' : System τ}

theorem System.started_start (s : System τ) (c : Child) :
    (s.start c).started = Function.update s.started c true := by
  funext d
  cases c <;> cases d <;> rfl

theorem System.started_of_exited {c : Child} (h : s.exited c = true) : s.started c = true := by
  cases c <;> exact Option.isSome_of_any h

theorem System.exited_start {c d : Child} (hc : s.started c = false) (hd : s.exited d = true) :
    (s.start c).exited d = true := by
  have hne : c ≠ d := by
    rintro rfl
    rw [started_of_exited hd] at hc
    cases hc
  rw [← hd]
  cases c <;> cases d <;> first | rfl | exact absurd rfl hne

/-- A process is still there, and has exited if it had. -/
def Advances {α : Type} (exited : α → Bool) (a b : Option α) : Prop :=
  b.isSome = a.isSome ∧ (a.any exited = true → b.any exited = true)

theorem Advances.refl {α : Type} (exited : α → Bool) (a : Option α) : Advances exited a a :=
  ⟨rfl, id⟩

theorem Advances.some {α : Type} {exited : α → Bool} {a b : α}
    (h : exited a = true → exited b = true) :
    Advances exited (some a) (some b) := ⟨rfl, h⟩

theorem exited_of_p1Step {net : Network τ} {p p' : P1 τ} (h : net.P1Step p p')
    (hexited : p.exited = true) : p'.exited = true := by
  have htodo : p.todo = [] := List.isEmpty_iff.mp hexited
  cases h.move with
  | start hcons => exact absurd (htodo.symm.trans hcons) nofun
  | join hcons => exact absurd (htodo.symm.trans hcons) nofun
  | forge => exact hexited
  | skip => exact hexited
  | ask => exact hexited

theorem isEmpty_of_resolve {p p' : P2 τ} {j : ℕ} (h : env.resolve j p = some p')
    (hempty : p.pending.isEmpty = true) : p'.pending.isEmpty = true := by
  obtain ⟨l, hperm, -⟩ := Env.resolve_cases h
  rw [List.isEmpty_iff.mp hempty] at hperm
  exact absurd hperm.symm.eq_nil nofun

/-! ## What every step preserves -/

theorem Env.Good.initial : env.Good System.initial where
  globals := rfl
  sortedResults := rfl
  p1 := nofun
  p2 := nofun
  p3 := nofun
  course := by
    refine ⟨rfl, fun c ↦ Or.inl ?_⟩
    change ForkStmt.join c ∈ mainStmts
    cases c <;> decide

theorem Env.Good.start (h : env.Good s) {c : Child} {todo : List (ForkStmt Child MainCall)}
    (htodo : s.todo = .start c :: todo) : env.Good { s.start c with todo } := by
  have hcourse := h.course
  rw [htodo] at hcourse
  have hcourse' : OnCourse (s.start c).started (s.start c).exited todo := by
    rw [System.started_start]
    exact hcourse.start.mono fun d ↦ System.exited_start hcourse.started_eq_false
  cases c with
  | p1 =>
    refine ⟨h.globals, h.sortedResults, fun p hp ↦ ?_, h.p2, h.p3, hcourse'⟩
    obtain rfl := Option.some.inj hp
    rw [h.globals]
    exact Network.P1Good.spawn
  | p2 =>
    refine ⟨h.globals, h.sortedResults, h.p1, fun p hp ↦ ?_, h.p3, hcourse'⟩
    obtain rfl := Option.some.inj hp
    rw [h.globals]
    exact Env.P2Good.spawn
  | p3 =>
    refine ⟨h.globals, h.sortedResults, h.p1, h.p2, fun p hp ↦ ?_, hcourse'⟩
    obtain rfl := Option.some.inj hp
    exact h.globals

theorem Env.Good.course_of_advances (h : env.Good s) (htodo : s'.todo = s.todo)
    (h₁ : Advances P1.exited s.p1 s'.p1) (h₂ : Advances (fun p ↦ p.pending.isEmpty) s.p2 s'.p2)
    (h₃ : Advances (fun p ↦ p.returned) s.p3 s'.p3) : OnCourse s'.started s'.exited s'.todo := by
  have hstarted : s'.started = s.started := by
    funext c
    cases c with
    | p1 => exact h₁.1
    | p2 => exact h₂.1
    | p3 => exact h₃.1
  rw [htodo, hstarted]
  refine h.course.mono fun c ↦ ?_
  cases c with
  | p1 => exact h₁.2
  | p2 => exact h₂.2
  | p3 => exact h₃.2

theorem Env.Good.p1Step (h : env.Good s) {p p' : P1 τ} (hp : s.p1 = some p)
    (hstep : env.P1Step p p') :
    env.Good { s with p1 := some p' } := by
  have hadvances : Advances P1.exited s.p1 (some p') := hp ▸ Advances.some (exited_of_p1Step hstep)
  refine ⟨h.globals, h.sortedResults, fun q hq ↦ ?_, h.p2, h.p3,
    h.course_of_advances rfl hadvances (Advances.refl _ _) (Advances.refl _ _)⟩
  obtain rfl := Option.some.inj hq
  exact (h.p1 p hp).step hstep

theorem Env.Good.p2Step (h : env.Good s) {p p' : P2 τ} (hp : s.p2 = some p) {j : ℕ}
    (hstep : env.resolve j p = some p') : env.Good { s with p2 := some p' } := by
  have hadvances : Advances (fun p ↦ p.pending.isEmpty) s.p2 (some p') :=
    hp ▸ Advances.some (isEmpty_of_resolve hstep)
  refine ⟨h.globals, h.sortedResults, h.p1, fun q hq ↦ ?_, h.p3,
    h.course_of_advances rfl (Advances.refl _ _) hadvances (Advances.refl _ _)⟩
  obtain rfl := Option.some.inj hq
  exact (h.p2 p hp).step hstep

theorem Env.Good.p3Step (h : env.Good s) {p : P3 τ} (hp : s.p3 = some p) :
    env.Good { s with p3 := some { p with returned := true } } := by
  have hadvances : Advances (fun p : P3 τ ↦ p.returned) s.p3 (some { p with returned := true }) :=
    hp ▸ Advances.some fun _ ↦ rfl
  refine ⟨h.globals, h.sortedResults, h.p1, h.p2, fun q hq ↦ ?_,
    h.course_of_advances rfl (Advances.refl _ _) (Advances.refl _ _) hadvances⟩
  obtain rfl := Option.some.inj hq
  exact h.p3 p hp

variable [LinearOrder τ]

/-- What a step of `main` can be. -/
inductive System.MainMove : System τ → System τ → Prop
  | start {s : System τ} {c : Child} {todo : List (ForkStmt Child MainCall)}
      (htodo : s.todo = .start c :: todo) (hstarted : s.started c = false) :
      MainMove s { s.start c with todo }
  | join {s : System τ} {c : Child} {todo : List (ForkStmt Child MainCall)}
      (htodo : s.todo = .join c :: todo) (hexited : s.exited c = true) : MainMove s { s with todo }
  | deduplicate {s : System τ} {todo : List (ForkStmt Child MainCall)}
      (htodo : s.todo = .call .deduplicate :: todo) :
      MainMove s { s with todo, globals := deduplicateDynamicResults s.globals }
  | rank {s : System τ} {todo : List (ForkStmt Child MainCall)}
      (htodo : s.todo = .call .rank :: todo) :
      MainMove s { s with
        todo, sortedResults := s.globals.results.mergeSort fun x y ↦ decide (x.rtt ≤ y.rtt) }

theorem System.mainMove_of_main (h : s.main = some s') : s.MainMove s' := by
  rw [main] at h
  split at h
  · cases h
  · rename_i c todo htodo
    split_ifs at h with hstarted
    obtain rfl := Option.some.inj h
    exact MainMove.start htodo (Bool.eq_false_of_not_eq_true hstarted)
  · rename_i c todo htodo
    split_ifs at h with hexited
    obtain rfl := Option.some.inj h
    exact MainMove.join htodo hexited
  · rename_i todo htodo
    obtain rfl := Option.some.inj h
    exact MainMove.deduplicate htodo
  · rename_i todo htodo
    obtain rfl := Option.some.inj h
    exact MainMove.rank htodo

theorem Env.Good.main (h : env.Good s) (hmain : s.main = some s') : env.Good s' := by
  have hcourse := h.course
  cases System.mainMove_of_main hmain with
  | start htodo hstarted => exact h.start htodo
  | join htodo hexited =>
    rw [htodo] at hcourse
    exact ⟨h.globals, h.sortedResults, h.p1, h.p2, h.p3, hcourse.join hexited⟩
  | deduplicate htodo =>
    rw [htodo] at hcourse
    have hglobals : deduplicateDynamicResults s.globals = Globals.initial := by
      rw [h.globals]
      rfl
    exact ⟨hglobals, h.sortedResults, h.p1, h.p2, h.p3, hcourse.call⟩
  | rank htodo =>
    rw [htodo] at hcourse
    have hsorted : (s.globals.results.mergeSort fun x y ↦ decide (x.rtt ≤ y.rtt)) = [] := by
      rw [h.globals]
      exact List.mergeSort_nil
    exact ⟨h.globals, hsorted, h.p1, h.p2, h.p3, hcourse.call⟩

variable (env) in
inductive Env.Step : System τ → System τ → Prop
  | main {s s' : System τ} (h : s.main = some s') : Step s s'
  | p1 {s : System τ} {p p' : P1 τ} (hp : s.p1 = some p) (h : env.P1Step p p') :
      Step s { s with p1 := some p' }
  | p2 {s : System τ} {p p' : P2 τ} {j : ℕ} (hp : s.p2 = some p) (h : env.resolve j p = some p') :
      Step s { s with p2 := some p' }
  | p3 {s : System τ} {p : P3 τ} (hp : s.p3 = some p) (h : p.returned = false) :
      Step s { s with p3 := some { p with returned := true } }

/-- **What every step of every process preserves.** -/
theorem Env.Good.step (h : env.Good s) (hstep : env.Step s s') : env.Good s' := by
  cases hstep with
  | main hmain => exact h.main hmain
  | p1 hp hmove => exact h.p1Step hp hmove
  | p2 hp hresolve => exact h.p2Step hp hresolve
  | p3 hp hreturned => exact h.p3Step hp

/-! ## Runs -/

variable (env) in
/-- A run of `stundiscoverer.main` to its end, under some scheduling. -/
structure Env.Run (s : System τ) : Prop where
  reaches : Relation.ReflTransGen env.Step System.initial s
  finished : s.todo = []

theorem Env.Good.of_reaches (h : Relation.ReflTransGen env.Step System.initial s) : env.Good s := by
  induction h with
  | refl => exact Good.initial
  | tail _ hstep ih => exact ih.step hstep

/-- A bound for the steps the three processes have left, started or not. -/
def Env.childStepsLeft (env : Env τ) (s : System τ) : ℕ :=
  env.p1StepsLeft (s.p1.getD (P1.spawn Globals.initial)) +
    (s.p2.elim lookups fun p ↦ p.pending).length + s.p3.elim 1 fun p ↦ if p.returned then 0 else 1

omit [LinearOrder τ] in
theorem Env.childStepsLeft_start {c : Child} (hstarted : s.started c = false) :
    env.childStepsLeft (s.start c) = env.childStepsLeft s := by
  cases c
  all_goals
    have hnone := Option.isNone_iff_eq_none.mp (Option.isSome_eq_false_iff.mp hstarted)
    rw [childStepsLeft, childStepsLeft, hnone]
    rfl

def Env.stepsLeft (env : Env τ) (s : System τ) : ℕ := s.todo.length + env.childStepsLeft s

theorem Env.stepsLeft_lt_of_main (h : s.main = some s') : env.stepsLeft s' < env.stepsLeft s := by
  have hless (stmt : ForkStmt Child MainCall) (todo : List (ForkStmt Child MainCall))
      (htodo : s.todo = stmt :: todo) : todo.length + env.childStepsLeft s < env.stepsLeft s := by
    rw [stepsLeft, htodo, List.length_cons]
    exact Nat.add_lt_add_right (Nat.lt_succ_self _) _
  cases System.mainMove_of_main h with
  | start htodo hstarted =>
    rw [← childStepsLeft_start hstarted] at hless
    exact hless _ _ htodo
  | join htodo hexited => exact hless _ _ htodo
  | deduplicate htodo => exact hless _ _ htodo
  | rank htodo => exact hless _ _ htodo

/-- **Every step is one of finitely many.** -/
theorem Env.Step.stepsLeft_lt (h : env.Step s s') : env.stepsLeft s' < env.stepsLeft s := by
  cases h with
  | main hmain => exact stepsLeft_lt_of_main hmain
  | @p1 p p' hp hstep =>
    have hless := hstep.stepsLeft_lt
    rw [stepsLeft, stepsLeft, childStepsLeft, childStepsLeft, hp, Option.getD_some,
      Option.getD_some]
    exact Nat.add_lt_add_left (Nat.add_lt_add_right (Nat.add_lt_add_right hless _) _) _
  | @p2 p p' j hp hresolve =>
    obtain ⟨l, hperm, -⟩ := resolve_cases hresolve
    have hless : p'.pending.length < p.pending.length := by
      rw [hperm.length_eq]
      exact Nat.lt_succ_self _
    rw [stepsLeft, stepsLeft, childStepsLeft, childStepsLeft, hp, Option.elim_some,
      Option.elim_some]
    exact Nat.add_lt_add_left (Nat.add_lt_add_right (Nat.add_lt_add_left hless _) _) _
  | @p3 p hp hreturned =>
    rw [stepsLeft, stepsLeft, childStepsLeft, childStepsLeft, hp, Option.elim_some,
      Option.elim_some, hreturned]
    exact Nat.lt_succ_self _

theorem Env.Good.exists_childStep (h : env.Good s) {c : Child} (hstarted : s.started c = true)
    (hexited : s.exited c = false) : ∃ s', env.Step s s' := by
  cases c with
  | p1 =>
    obtain ⟨p, hp⟩ := Option.isSome_iff_exists.mp hstarted
    rw [System.exited, hp] at hexited
    obtain ⟨p', hstep⟩ := (h.p1 p hp).exists_step hexited
    exact ⟨_, Step.p1 hp hstep⟩
  | p2 =>
    obtain ⟨p, hp⟩ := Option.isSome_iff_exists.mp hstarted
    rw [System.exited, hp] at hexited
    cases hpending : p.pending with
    | nil =>
      rw [Option.any_some, hpending] at hexited
      cases hexited
    | cons l pending =>
      have hstep : env.resolve 0 p =
          some ⟨⟨env.resolveRecord l.1 l.2 p.globals.dynamicFound, p.globals.results⟩,
            pending⟩ := by
        rw [resolve, hpending]
        rfl
      exact ⟨_, Step.p2 hp hstep⟩
  | p3 =>
    obtain ⟨p, hp⟩ := Option.isSome_iff_exists.mp hstarted
    rw [System.exited, hp] at hexited
    exact ⟨_, Step.p3 hp hexited⟩

/-- **No deadlock**: before `main` has finished, some process can move. -/
theorem Env.Good.exists_step (h : env.Good s) (hunfinished : s.todo ≠ []) :
    ∃ s', env.Step s s' := by
  have hcourse := h.course
  obtain ⟨stmt, todo, htodo⟩ := List.exists_cons_of_ne_nil hunfinished
  rw [htodo] at hcourse
  cases stmt with
  | start c =>
    have hstep : s.main = some { s.start c with todo } := by
      simp only [System.main, htodo, hcourse.started_eq_false, Bool.false_eq_true, if_false]
    exact ⟨_, Step.main hstep⟩
  | join c =>
    by_cases hexited : s.exited c = true
    · have hstep : s.main = some { s with todo } := by
        simp only [System.main, htodo, hexited, if_true]
      exact ⟨_, Step.main hstep⟩
    · exact h.exists_childStep hcourse.started_eq_true (Bool.eq_false_of_not_eq_true hexited)
  | call c =>
    cases c with
    | deduplicate =>
      have hstep : s.main = some { s with
          todo
          globals := deduplicateDynamicResults s.globals } := by
        simp only [System.main, htodo]
      exact ⟨_, Step.main hstep⟩
    | rank =>
      have hstep : s.main = some { s with
          todo
          sortedResults := s.globals.results.mergeSort fun x y ↦ decide (x.rtt ≤ y.rtt) } := by
        simp only [System.main, htodo]
      exact ⟨_, Step.main hstep⟩

variable (env) in
theorem Env.exists_run : ∃ s, env.Run s := by
  have hinitial : env.Good System.initial := Good.initial
  obtain ⟨s, hreaches, hfinished⟩ := exists_reaches_final env.stepsLeft
    (fun s t hstep hs ↦ hs.step hstep) (fun s t hstep _ ↦ hstep.stepsLeft_lt)
    (fun s hs hunfinished ↦ hs.exists_step hunfinished) hinitial
  exact ⟨s, hreaches, hfinished⟩

/-! ## What is ranked -/

inductive Process
  | main
  | child (c : Child)

/-- The `dynamic_found` of a process. -/
def System.dynamicFound (s : System τ) : Process → Finset String
  | .main => s.globals.dynamicFound
  | .child .p1 => s.p1.elim ∅ fun p ↦ p.globals.dynamicFound
  | .child .p2 => s.p2.elim ∅ fun p ↦ p.globals.dynamicFound
  | .child .p3 => s.p3.elim ∅ fun p ↦ p.globals.dynamicFound

/-- The hosts a process finds: only P2 looks for any. -/
def Env.Finds (env : Env τ) : Process → String → Prop
  | .child .p2, host => env.Resolves host
  | _, _ => False

/-- The measurements of the replies `forgeStunPacket` has accepted. Only P1 calls it. -/
def System.accepted (s : System τ) : List (Measurement τ) := s.p1.elim [] fun p ↦ p.globals.results

def entriesFor (server : Server) (results : List (Measurement τ)) : List (Measurement τ) :=
  results.filter fun m ↦ server = m.server

/-- The ranked results have one entry for each server whose reply was accepted, the hosts in the
dynamic set excepted, and no server twice. -/
def System.RankedOnce (s : System τ) (dynamicHosts : Finset String) : Prop :=
  (∀ m ∈ s.accepted, m.ip ∉ dynamicHosts → (entriesFor m.server s.sortedResults).length = 1) ∧
  ∀ server, (entriesFor server s.sortedResults).length ≤ 1

theorem Env.Run.exists_exited (h : env.Run s) : (∃ p, s.p1 = some p ∧ p.exited = true) ∧
    (∃ p, s.p2 = some p ∧ p.pending = []) ∧ ∃ p, s.p3 = some p ∧ p.returned = true := by
  have hcourse := (Good.of_reaches h.reaches).course
  rw [h.finished] at hcourse
  obtain ⟨p₁, hp₁, hexited₁⟩ := (Option.any_eq_true _ _).mp (hcourse.done_eq_true .p1)
  obtain ⟨p₂, hp₂, hexited₂⟩ := (Option.any_eq_true _ _).mp (hcourse.done_eq_true .p2)
  obtain ⟨p₃, hp₃, hexited₃⟩ := (Option.any_eq_true _ _).mp (hcourse.done_eq_true .p3)
  exact ⟨⟨p₁, hp₁, hexited₁⟩, ⟨p₂, hp₂, List.isEmpty_iff.mp hexited₂⟩, p₃, hp₃, hexited₃⟩

/-- **P1's copy of `results` is complete.** -/
theorem Env.Run.accepted_eq (h : env.Run s) :
    (s.accepted : Multiset (Measurement τ)) = env.measurements := by
  obtain ⟨⟨p, hp, hexited⟩, -⟩ := h.exists_exited
  rw [System.accepted, hp, Option.elim_some]
  exact ((Good.of_reaches h.reaches).p1 p hp).results_of_exited hexited

theorem Env.Run.two_le_length_accepted (h : env.Run s) {server : Server}
    (hmem : server ∈ env.stunServers)
    (hanswers : ∀ i k, env.target i k = some server → (env.exchange i k).accepted = true) :
    2 ≤ (entriesFor server s.accepted).length := by
  have hcount := Network.two_le_count_measurements hmem hanswers
  rwa [← h.accepted_eq, Multiset.count_map, Multiset.filter_coe, Multiset.coe_card] at hcount

theorem Env.Run.mem_dynamicFound (h : env.Run s) {q : Process} {host : String} :
    host ∈ s.dynamicFound q ↔ env.Finds q host := by
  have hgood := Good.of_reaches h.reaches
  obtain ⟨⟨p₁, hp₁, -⟩, ⟨p₂, hp₂, hpending⟩, p₃, hp₃, -⟩ := h.exists_exited
  cases q with
  | main =>
    rw [System.dynamicFound, hgood.globals]
    exact iff_of_false (Finset.notMem_empty _) id
  | child c =>
    cases c with
    | p1 =>
      rw [System.dynamicFound, hp₁, Option.elim_some, (hgood.p1 p₁ hp₁).dynamicFound]
      exact iff_of_false (Finset.notMem_empty _) id
    | p2 =>
      rw [System.dynamicFound, hp₂, Option.elim_some, Finds, ← hgood.p2 p₂ hp₂ host, hpending]
      exact (or_iff_left fun ⟨_, hl, _⟩ ↦ List.not_mem_nil hl).symm
    | p3 =>
      rw [System.dynamicFound, hp₃, Option.elim_some, hgood.p3 p₃ hp₃]
      exact iff_of_false (Finset.notMem_empty _) id

/-- **Nothing is ranked**, whatever P1 has measured. -/
theorem Env.Run.entriesFor_sortedResults (h : env.Run s) (server : Server) :
    entriesFor server s.sortedResults = [] := by
  rw [(Good.of_reaches h.reaches).sortedResults]
  rfl

theorem Env.Run.not_rankedOnce (h : env.Run s) {server : Server} (hanswers : env.Answers server)
    {q : Process} (hfinds : ¬env.Finds q server.1) : ¬s.RankedOnce (s.dynamicFound q) := by
  intro hranked
  obtain ⟨m, hm, rfl⟩ := Network.exists_server_eq_iff.mpr hanswers
  rw [← h.accepted_eq, Multiset.mem_coe] at hm
  have hone := hranked.1 m hm (mt h.mem_dynamicFound.mp hfinds)
  rw [h.entriesFor_sortedResults] at hone
  cases hone

/-- **The ranking is right only if there is nothing to rank.** In every run, `main` ranks each
server whose reply was accepted once, those in the dynamic set of process `q` excepted, exactly if
every server that answers has a host that `q` finds. -/
theorem rankedOnce_iff (env : Env τ) (h : env.Run s) (q : Process) :
    s.RankedOnce (s.dynamicFound q) ↔ ∀ server, env.Answers server → env.Finds q server.1 := by
  constructor
  · intro hranked server hanswers
    by_contra hfinds
    exact h.not_rankedOnce hanswers hfinds hranked
  · intro hall
    refine ⟨fun m hm hdynamic ↦ absurd (hall m.server ?_) (mt h.mem_dynamicFound.mpr hdynamic),
      fun server ↦ ?_⟩
    · rw [← Multiset.mem_coe, h.accepted_eq] at hm
      exact Network.exists_server_eq_iff.mp ⟨m, hm, rfl⟩
    · rw [h.entriesFor_sortedResults]
      exact Nat.zero_le 1

end

/-! ## One server answers -/

/-- The first server of the list answers the first thread after 25 hundredths of a millisecond;
nobody else does, and no name is resolved. -/
def firstServerAnswers : Env ℕ where
  stunServers := stunServers
  exchange i k :=
    if i.val = 0 ∧ k = 0 then .received [0x01, 0x01, 0x00, 0x00, 0x21, 0x12, 0xA4, 0x42] 100 125
    else .timeout
  rtt startTime endTime := endTime - startTime
  dnsResolve _ _ := none

theorem firstServerAnswers_answers : firstServerAnswers.Answers ("stun.1und1.de", 3478) :=
  ⟨0, 0, Network.target_zero_zero rfl rfl, rfl⟩

theorem not_firstServerAnswers_finds (q : Process) (host : String) :
    ¬firstServerAnswers.Finds q host := by
  cases q with
  | main => exact id
  | child c =>
    cases c with
    | p1 => exact id
    | p2 => exact fun ⟨_, _, _, heq, _⟩ ↦ nomatch heq
    | p3 => exact id

/-- The only measured server is not ranked. -/
theorem firstServer_is_not_ranked :
    ∃ s, firstServerAnswers.Run s ∧ ∀ q, ¬s.RankedOnce (s.dynamicFound q) := by
  obtain ⟨s, hrun⟩ := firstServerAnswers.exists_run
  exact ⟨s, hrun, fun q ↦ hrun.not_rankedOnce firstServerAnswers_answers
    (not_firstServerAnswers_finds q _)⟩

/-- The same, but one of the lookups of P2 finds that server. -/
def firstServerFound : Env ℕ where
  toNetwork := firstServerAnswers.toNetwork
  dnsResolve domain rtype :=
    match rtype with
    | .srv =>
      if domain = "_stun._udp.1und1.de" then
        some [⟨"10 20 3478 stun.1und1.de.", "stun.1und1.de."⟩]
      else none
    | _ => none

theorem firstServerFound_finds : firstServerFound.Finds (.child .p2) "stun.1und1.de" := by
  refine ⟨("_stun._udp.1und1.de", .srv), ?_, _, rfl, _, List.mem_singleton_self _, by decide⟩
  exact List.mem_flatMap.mpr ⟨"_stun._udp.1und1.de", by decide, List.mem_cons_self⟩

/-- What answers is found, and everything is ranked that P2 has not found. -/
theorem rankedOnce_iff_firstServerFound : ∃ s, firstServerFound.Run s ∧
    s.RankedOnce (s.dynamicFound (.child .p2)) := by
  obtain ⟨s, hrun⟩ := firstServerFound.exists_run
  refine ⟨s, hrun, (rankedOnce_iff firstServerFound hrun _).mpr ?_⟩
  rintro server ⟨i, k, htarget, haccepted⟩
  change (firstServerAnswers.exchange i k).accepted = true at haccepted
  by_cases hfirst : i.val = 0 ∧ k = 0
  · obtain ⟨hi, rfl⟩ := hfirst
    obtain rfl : i = 0 := Fin.ext hi
    rw [show firstServerFound.target 0 0 = _ from Network.target_zero_zero rfl rfl] at htarget
    obtain rfl := Option.some.inj htarget
    exact firstServerFound_finds
  · have htimeout : firstServerAnswers.exchange i k = .timeout := if_neg hfirst
    rw [htimeout] at haccepted
    exact absurd haccepted nofun

end NatGhost.Discoverer
