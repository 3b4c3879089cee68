import Mathlib.Logic.Function.Basic
import Mathlib.Tactic.TypeStar

/-!
# Programs that read a memory

A `ReadTree ι V α` is a computation that inspects cells of a memory `ι → V` one after another and
ends with a result in `α`. What to read next may depend on what was read before, which is why this
is a tree and not a list of addresses.

The point of the tree is that the set of cells a run inspects is part of the program rather than a
separate bookkeeping function: `run` and `reads` are two interpretations of one object, and
`run_congr` says that the first depends on the memory only through the second. A bounds property of
a parser is then a property of `reads`, and independence of whatever lies outside the bounds
follows with no further argument.
-/

namespace NatGhost

universe u v w

/-- A computation reading a memory of cells `ι → V`. -/
inductive ReadTree (ι : Type u) (V : Type v) (α : Type w) where
  /-- Stop with a result. -/
  | ret (a : α)
  /-- Read cell `i` and go on with its content. -/
  | read (i : ι) (next : V → ReadTree ι V α)

namespace ReadTree

variable {ι : Type u} {V : Type v} {α β : Type w}

def bind : ReadTree ι V α → (α → ReadTree ι V β) → ReadTree ι V β
  | ret a, f => f a
  | read i next, f => read i fun x ↦ (next x).bind f

instance : Monad (ReadTree ι V) where
  pure := ret
  bind := bind

def run (mem : ι → V) : ReadTree ι V α → α
  | ret a => a
  | read i next => run mem (next (mem i))

def reads (mem : ι → V) : ReadTree ι V α → List ι
  | ret _ => []
  | read i next => i :: reads mem (next (mem i))

def cell (i : ι) : ReadTree ι V V := read i ret

@[simp] theorem run_cell (mem : ι → V) (i : ι) : run mem (cell i) = mem i := rfl

@[simp] theorem reads_cell (mem : ι → V) (i : ι) : reads mem (cell i : ReadTree ι V V) = [i] := rfl

@[simp] theorem run_pure (mem : ι → V) (a : α) : run mem (pure a : ReadTree ι V α) = a := rfl

@[simp] theorem reads_pure (mem : ι → V) (a : α) : reads mem (pure a : ReadTree ι V α) = [] := rfl

@[simp] theorem run_bind (mem : ι → V) (p : ReadTree ι V α) (f : α → ReadTree ι V β) :
    run mem (p >>= f) = run mem (f (run mem p)) := by
  change run mem (p.bind f) = _
  induction p with
  | ret a => rfl
  | read i next ih => exact ih (mem i)

@[simp] theorem reads_bind (mem : ι → V) (p : ReadTree ι V α) (f : α → ReadTree ι V β) :
    reads mem (p >>= f) = reads mem p ++ reads mem (f (run mem p)) := by
  change reads mem (p.bind f) = _
  induction p with
  | ret a => rfl
  | read i next ih => exact congrArg (i :: ·) (ih (mem i))

/-- **A run depends on the memory only through the cells it reads.** -/
theorem run_congr {mem mem' : ι → V} (p : ReadTree ι V α)
    (h : ∀ i ∈ reads mem p, mem' i = mem i) : run mem' p = run mem p := by
  induction p with
  | ret a => rfl
  | read i next ih =>
    have hi : mem' i = mem i := h i List.mem_cons_self
    rw [run, run, hi]
    exact ih (mem i) fun j hj ↦ h j (List.mem_cons_of_mem i hj)

end ReadTree

end NatGhost
