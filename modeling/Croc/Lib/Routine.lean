import Mathlib.Data.Nat.Notation

/-!
# Routines on a device that moves

A routine loads and stores registers of a device one after the other. The device has a life of its
own between two accesses, so what a call returns depends on the cycles in which its accesses are
served, and these are chosen by the environment: the pipeline, the bus, an interrupt.

A routine is given by what it does next in each of its control states, which may form loops. A call
is a finite execution of it, with the cycle of every access. Since nothing bounds the number of
accesses, an induction over a call is an induction over the retries of a loop as well.

## Main definitions

* `Action`: what a routine does next.
* `Port`: which accesses a device serves in which cycle.
* `Call`: an execution of a routine, from its start to its return.

## Main results

* `Call.of_load`, `Call.of_store`, `Call.of_ret`: a call, taken apart at its first access.
* `Call.le`: time passes during a call.
* `Call.congr_state`: a call depends on its first state through the next action only.
-/

namespace Routine

/-- What a routine does next: an access, after which it goes on in another state, or the return. -/
inductive Action (σ ι α β : Type*)
  /-- Load the register `i` and go on with its value. -/
  | load (i : ι) (k : α → σ)
  /-- Store `a` to the register `i` and go on. -/
  | store (i : ι) (a : α) (k : σ)
  /-- Return `b`. -/
  | ret (b : β)

/-- The accesses that a device serves. -/
structure Port (ι α : Type*) where
  /-- In cycle `t` a load of `i` is served, and its answer is `a`. -/
  load : ℕ → ι → α → Prop
  /-- In cycle `t` a store of `a` to `i` is served. -/
  store : ℕ → ι → α → Prop

variable {σ ι α β : Type*}

/-- Started in the state `s` in cycle `t`, the routine has the accesses of the list served, each
with its cycle, and returns `b` in cycle `u`. An access is made after the one before it has been
served. -/
inductive Call (next : σ → Action σ ι α β) (P : Port ι α) : σ → ℕ → List (ℕ × ι) → β → ℕ → Prop
  | load {s : σ} {i : ι} {k : α → σ} {t v u : ℕ} {a : α} {l : List (ℕ × ι)} {b : β}
      (hs : next s = .load i k) (htv : t ≤ v) (hv : P.load v i a)
      (h : Call next P (k a) (v + 1) l b u) : Call next P s t ((v, i) :: l) b u
  | store {s : σ} {i : ι} {a : α} {k : σ} {t v u : ℕ} {l : List (ℕ × ι)} {b : β}
      (hs : next s = .store i a k) (htv : t ≤ v) (hv : P.store v i a)
      (h : Call next P k (v + 1) l b u) : Call next P s t ((v, i) :: l) b u
  | ret {s : σ} {t u : ℕ} {b : β} (hs : next s = .ret b) (htu : t ≤ u) : Call next P s t [] b u

namespace Call

variable {next : σ → Action σ ι α β} {P : Port ι α} {s : σ} {t u : ℕ} {l : List (ℕ × ι)} {b : β}

/-- A call does not end before it starts. -/
theorem le (h : Call next P s t l b u) : t ≤ u := by
  induction h with
  | load _ htv _ _ ih => exact Nat.le_trans htv (Nat.le_of_succ_le ih)
  | store _ htv _ _ ih => exact Nat.le_trans htv (Nat.le_of_succ_le ih)
  | ret _ htu => exact htu

/-- A call that is about to load does so in some cycle and goes on with what it got. -/
theorem of_load {i : ι} {k : α → σ} (h : Call next P s t l b u) (hs : next s = .load i k) :
    ∃ v a l', l = (v, i) :: l' ∧ t ≤ v ∧ P.load v i a ∧ Call next P (k a) (v + 1) l' b u := by
  cases h with
  | load hs' htv hv h =>
    rw [hs] at hs'
    cases hs'
    exact ⟨_, _, _, rfl, htv, hv, h⟩
  | store hs' => rw [hs] at hs'; cases hs'
  | ret hs' => rw [hs] at hs'; cases hs'

/-- A call that is about to store does so in some cycle and goes on. -/
theorem of_store {i : ι} {a : α} {k : σ} (h : Call next P s t l b u)
    (hs : next s = .store i a k) :
    ∃ v l', l = (v, i) :: l' ∧ t ≤ v ∧ P.store v i a ∧ Call next P k (v + 1) l' b u := by
  cases h with
  | load hs' => rw [hs] at hs'; cases hs'
  | store hs' htv hv h =>
    rw [hs] at hs'
    cases hs'
    exact ⟨_, _, rfl, htv, hv, h⟩
  | ret hs' => rw [hs] at hs'; cases hs'

/-- A call that is about to return makes no more accesses. -/
theorem of_ret {b' : β} (h : Call next P s t l b u) (hs : next s = .ret b') :
    l = [] ∧ b = b' ∧ t ≤ u := by
  cases h with
  | load hs' => rw [hs] at hs'; cases hs'
  | store hs' => rw [hs] at hs'; cases hs'
  | ret hs' htu =>
    rw [hs] at hs'
    cases hs'
    exact ⟨rfl, rfl, htu⟩

/-- A call goes on in one state as in any other that does the same next. -/
theorem congr_state {s' : σ} (h : Call next P s t l b u) (hs : next s' = next s) :
    Call next P s' t l b u := by
  cases h with
  | load h1 h2 h3 h4 => exact .load (hs.trans h1) h2 h3 h4
  | store h1 h2 h3 h4 => exact .store (hs.trans h1) h2 h3 h4
  | ret h1 h2 => exact .ret (hs.trans h1) h2

end Call

end Routine
