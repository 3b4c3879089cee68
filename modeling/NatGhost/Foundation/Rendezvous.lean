import Mathlib.Combinatorics.Derangements.Finite
import Mathlib.Logic.Relation
import Mathlib.SetTheory.Cardinal.Finite

/-!
# Two parties behind gates

Two parties send messages to each other, each from a place `p` to the same place on the other side.
In front of each party is a gate. It writes another place of origin, `out x p`, on the messages of
its party `x`, and it lets a message in only if the party has sent one the opposite way: a message
that comes to `p` from `q` comes through if the party has sent one from `q` that left as if from
`p`.

So nothing comes through unless the gates meet: the message from `p` leaves as if from `q`, and that
from `q` leaves as if from `p`. If they do, one of the two messages comes through, whatever the
order in which they are sent and arrive: the one that arrives last finds the other one sent (`Inv`).

Messages may be lost, repeated and overtake each other. The last section counts the pairs of gates
that do not meet anywhere.
-/

namespace NatGhost.Rendezvous

variable {P : Type*}

/-- What has been sent, what has come to the gate of the other side, and the places at which
something has come through to a party; each with the party. -/
@[ext]
structure State (P : Type*) where
  sent : Set (Bool × P)
  arrived : Set (Bool × P)
  opened : Set (Bool × P)

def State.initial : State P := ⟨∅, ∅, ∅⟩

variable (out : Bool → P → P)

/-- The gates meet: what the other party sends back from there returns to `p`. -/
def Meets (x : Bool) (p : P) : Prop := out (!x) (out x p) = p

/-- The gate of the other party lets the message of `x` from `p` in. -/
def Admits (s : State P) (x : Bool) (p : P) : Prop := (!x, out x p) ∈ s.sent ∧ Meets out x p

inductive Step (s : State P) : State P → Prop
  | send (x : Bool) (p : P) : Step s { s with sent := insert (x, p) s.sent }
  | letIn {x : Bool} {p : P} (hsent : (x, p) ∈ s.sent) (hadmits : Admits out s x p) :
      Step s { s with
        arrived := insert (x, p) s.arrived
        opened := insert (!x, out x p) s.opened }
  | drop {x : Bool} {p : P} (hsent : (x, p) ∈ s.sent) (hnot : ¬Admits out s x p) :
      Step s { s with arrived := insert (x, p) s.arrived }

def Reaches (s : State P) : Prop := Relation.ReflTransGen (Step out) State.initial s

variable {out} {s t : State P} {x : Bool} {p : P}

theorem Meets.back (h : Meets out x p) : Meets out (!x) (out x p) := by
  rw [Meets, Bool.not_not, h]

theorem back_eq {y : Bool} {q : P} (h : Meets out y q) (heq : (!y, out y q) = (x, p)) :
    (y, q) = (!x, out x p) := by
  obtain ⟨rfl, rfl⟩ := Prod.mk.inj heq
  rw [Bool.not_not, show out (!y) (out y q) = q from h]

/-- **The invariant.** -/
structure Inv (out : Bool → P → P) (s : State P) : Prop where
  arrived_sent : s.arrived ⊆ s.sent
  /-- Where something has come through, the party has sent, and the other one from where it came. -/
  opened_met : ∀ x p, (x, p) ∈ s.opened →
    (x, p) ∈ s.sent ∧ (!x, out x p) ∈ s.sent ∧ Meets out x p
  /-- Of two messages that fit together one has come through. -/
  met_opened : ∀ x p, (x, p) ∈ s.arrived → (!x, out x p) ∈ s.arrived → Meets out x p →
    (!x, out x p) ∈ s.opened ∨ (x, p) ∈ s.opened

theorem Inv.initial : Inv out (State.initial : State P) where
  arrived_sent := Set.Subset.rfl
  opened_met _ _ h := absurd h (Set.notMem_empty _)
  met_opened _ _ h := absurd h (Set.notMem_empty _)

/-- **What every step preserves.** -/
theorem Inv.step (h : Inv out s) (hstep : Step out s t) : Inv out t := by
  cases hstep with
  | send x p =>
    have hsub : s.sent ⊆ insert (x, p) s.sent := Set.subset_insert _ _
    refine ⟨h.arrived_sent.trans hsub, fun y q hq ↦ ?_, h.met_opened⟩
    obtain ⟨hsent, hback, hmeets⟩ := h.opened_met y q hq
    exact ⟨hsub hsent, hsub hback, hmeets⟩
  | @letIn x p hsent hadmits =>
    refine ⟨Set.insert_subset hsent h.arrived_sent, fun y q hq ↦ ?_, fun y q hq hback hmeets ↦ ?_⟩
    · rcases Set.mem_insert_iff.mp hq with heq | hold
      · obtain ⟨rfl, rfl⟩ := Prod.mk.inj heq
        have hreturn : out (!x) (out x p) = p := hadmits.2
        rw [hreturn, Bool.not_not]
        exact ⟨hadmits.1, hsent, hadmits.2.back⟩
      · exact h.opened_met y q hold
    · rcases Set.mem_insert_iff.mp hq with heq | hold
      · obtain ⟨rfl, rfl⟩ := Prod.mk.inj heq
        exact Or.inl (Set.mem_insert _ _)
      · rcases Set.mem_insert_iff.mp hback with heq | hold'
        · -- the message that fits to an earlier one has just come through
          rw [back_eq hmeets heq]
          exact Or.inr (Set.mem_insert _ _)
        · exact (h.met_opened y q hold hold' hmeets).imp (Set.mem_insert_of_mem _)
            (Set.mem_insert_of_mem _)
  | @drop x p hsent hnot =>
    refine ⟨Set.insert_subset hsent h.arrived_sent, h.opened_met, fun y q hq hback hmeets ↦ ?_⟩
    rcases Set.mem_insert_iff.mp hq with heq | hold
    · obtain ⟨rfl, rfl⟩ := Prod.mk.inj heq
      rcases Set.mem_insert_iff.mp hback with heq | hold'
      · exact absurd (Prod.mk.inj heq).1 (Bool.not_ne_self _)
      · exact absurd ⟨h.arrived_sent hold', hmeets⟩ hnot
    · rcases Set.mem_insert_iff.mp hback with heq | hold'
      · have hyq := back_eq hmeets heq
        obtain ⟨rfl, rfl⟩ := Prod.mk.inj heq
        exact absurd ⟨hyq ▸ h.arrived_sent hold, hmeets.back⟩ hnot
      · exact h.met_opened y q hold hold' hmeets

theorem Inv.of_reaches (h : Reaches out s) : Inv out s := by
  induction h with
  | refl => exact Inv.initial
  | tail _ hstep ih => exact ih.step hstep

/-! ## What is told of each party by itself -/

section

variable {A : Type*} (S : Bool → A → Set P) (f : Bool → A) {a : A}

theorem setOf_update_of_eq (h : S x a = S x (f x)) :
    {e : Bool × P | e.2 ∈ S e.1 (Function.update f x a e.1)} = {e | e.2 ∈ S e.1 (f e.1)} := by
  refine Set.ext fun ⟨y, q⟩ ↦ ?_
  change q ∈ S y (Function.update f x a y) ↔ q ∈ S y (f y)
  rcases eq_or_ne y x with rfl | hne
  · rw [Function.update_self, h]
  · rw [Function.update_of_ne hne]

theorem setOf_update_of_insert (h : S x a = insert p (S x (f x))) :
    {e : Bool × P | e.2 ∈ S e.1 (Function.update f x a e.1)}
      = insert (x, p) {e | e.2 ∈ S e.1 (f e.1)} := by
  refine Set.ext fun ⟨y, q⟩ ↦ ?_
  change q ∈ S y (Function.update f x a y) ↔ (y, q) = (x, p) ∨ q ∈ S y (f y)
  rcases eq_or_ne y x with rfl | hne
  · rw [Function.update_self, h, Set.mem_insert_iff, Prod.mk.injEq, and_iff_right rfl]
  · rw [Function.update_of_ne hne, Prod.mk.injEq, or_iff_right fun heq ↦ hne heq.1]

end

/-! ## Gates that do not meet -/

/-- **The pairs of gates that permute the places and meet nowhere.** -/
theorem card_forall_not_meet (P : Type*) [Finite P] :
    Nat.card {ab : Equiv.Perm P × Equiv.Perm P // ∀ p, ab.2 (ab.1 p) ≠ p}
      = (Nat.card P).factorial * numDerangements (Nat.card P) := by
  classical
  have := Fintype.ofFinite P
  let e : {ab : Equiv.Perm P × Equiv.Perm P // ∀ p, ab.2 (ab.1 p) ≠ p}
      ≃ Equiv.Perm P × derangements P :=
    { toFun := fun ab ↦ (ab.1.1, ⟨ab.1.2 * ab.1.1, ab.2⟩)
      invFun := fun ad ↦ ⟨(ad.1, ad.2.1 * ad.1⁻¹), fun p ↦ by
        change ad.2.1 (ad.1.symm (ad.1 p)) ≠ p
        rw [Equiv.symm_apply_apply]
        exact ad.2.2 p⟩
      left_inv := fun ab ↦ Subtype.ext (Prod.ext rfl (mul_inv_cancel_right _ _))
      right_inv := fun ad ↦ Prod.ext rfl (Subtype.ext (inv_mul_cancel_right _ _)) }
  rw [Nat.card_congr e, Nat.card_prod, Nat.card_eq_fintype_card, Fintype.card_perm,
    Nat.card_eq_fintype_card, card_derangements_eq_numDerangements, Nat.card_eq_fintype_card]

end NatGhost.Rendezvous
