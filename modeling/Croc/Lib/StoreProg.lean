import Mathlib.Logic.Function.Basic

/-!
# Programs of loads and stores

A program that works on a memory one word at a time: it loads a word and goes on with what it read,
or it stores a word. Such a program is executed by hardware with arbitrary pauses, and other parties
see the memory between any two of its accesses. The weakest precondition below therefore speaks
about every memory that the program leaves behind on its way, not only about the last one.

## Main definitions

* `StoreProg`: the programs.
* `StoreProg.modify`: load a word, store a function of it.
* `StoreProg.wp`: an invariant holds at every point of the execution, a postcondition at its end,
  and only permitted addresses are accessed.

## Main results

* `StoreProg.wp_modify`: the rule for a read-modify-write.
* `StoreProg.wp.inv`: the invariant holds at the start.
-/

/-- A program over a memory of words `α` with addresses `ι`. -/
inductive StoreProg (ι α : Type*)
  /-- Nothing is left to do. -/
  | done
  /-- Load the word at `i` and go on with it. -/
  | load (i : ι) (k : α → StoreProg ι α)
  /-- Store `a` at `i` and go on. -/
  | store (i : ι) (a : α) (k : StoreProg ι α)

namespace StoreProg

variable {ι α : Type*}

/-- Load the word at `i`, store `f` of it at the same address, and go on. -/
def modify (i : ι) (f : α → α) (k : StoreProg ι α) : StoreProg ι α :=
  .load i fun a => .store i (f a) k

variable [DecidableEq ι]

/-- Run on the memory `m`, the program accesses addresses in `ok` only, keeps `I` at every point and
ends in `Q`. -/
def wp (ok : ι → Prop) (I Q : (ι → α) → Prop) : StoreProg ι α → (ι → α) → Prop
  | .done, m => I m ∧ Q m
  | .load i k, m => I m ∧ ok i ∧ wp ok I Q (k (m i)) m
  | .store i a k, m => I m ∧ ok i ∧ wp ok I Q k (Function.update m i a)

variable {ok : ι → Prop} {I Q : (ι → α) → Prop} {p : StoreProg ι α} {m : ι → α}

theorem wp.inv (h : wp ok I Q p m) : I m := by
  cases p <;> exact h.1

/-- A read-modify-write: nothing changes between the load and the store. -/
theorem wp_modify {i : ι} {f : α → α} (hm : I m) (hi : ok i)
    (hp : wp ok I Q p (Function.update m i (f (m i)))) : wp ok I Q (modify i f p) m :=
  ⟨hm, hi, hm, hi, hp⟩

end StoreProg
