import Croc.Lib.Routine

/-!
# Routines that are interrupted

A routine runs on a processor with a state of its own: registers that its instructions read and
change, and that decide whether an interrupt is taken. Before each instruction the processor may
take one; the handler then changes the state of the processor behind the back of the routine, which
goes on where it was.

To say what a call leaves behind, one says for every place of the routine what it would leave behind
if no more interrupts came. The instructions do not change that value, so at the return it is what
the interrupts have made of it.

## Main definitions

* `Action`, `Action.ofRoutine`: what a routine does next; a routine without interrupts as a part of
  it.
* `Core`: when a wait ends, when an interrupt is taken, and what serving it does.
* `Step`, `Run`: one instruction, and an execution up to the return with the places of its
  interrupts.

## Main results

* `Run.value`: the value at the return.
-/

namespace Interruptible

open Routine (Port)

/-- What a routine does next, in a place `σ`, on a device with registers `ι` and a processor with
the state `γ`. -/
inductive Action (σ ι α γ β : Type*)
  /-- Load the register `i` and go on with its value. -/
  | load (i : ι) (k : α → σ)
  /-- Store `a` to the register `i` and go on. -/
  | store (i : ι) (a : α) (k : σ)
  /-- An instruction on the state of the processor, `none` if it is illegal in that state. -/
  | instr (f : γ → Option (σ × γ))
  /-- Wait for an interrupt. -/
  | wait (k : σ)
  /-- Return `b`. -/
  | ret (b : β)

variable {σ τ ι α γ β β' κ : Type*}

/-- A step of a routine that is called, with the place of the caller during the call and after
it. -/
def Action.ofRoutine (during : τ → σ) (after : β' → σ) :
    Routine.Action τ ι α β' → Action σ ι α γ β
  | .load i k => .load i fun a => during (k a)
  | .store i a k => .store i a (during k)
  | .ret b => .instr fun c => some (after b, c)

/-- How the processor waits and takes interrupts. -/
structure Core (γ : Type*) where
  /-- In cycle `t` a wait ends. -/
  wakes : ℕ → γ → Prop
  /-- In cycle `t` an interrupt is taken. -/
  takes : ℕ → γ → Prop
  /-- The state after the interrupt has been served. -/
  serve : γ → γ

/-- In cycle `v` the routine does what it does next. -/
inductive Step (next : σ → Action σ ι α γ β) (P : Port ι α) (C : Core γ) (v : ℕ) :
    σ → γ → σ → γ → Prop
  | load {s : σ} {c : γ} {i : ι} {k : α → σ} {a : α} (hs : next s = .load i k)
      (hv : P.load v i a) : Step next P C v s c (k a) c
  | store {s : σ} {c : γ} {i : ι} {a : α} {k : σ} (hs : next s = .store i a k)
      (hv : P.store v i a) : Step next P C v s c k c
  | instr {s s' : σ} {c c' : γ} {f : γ → Option (σ × γ)} (hs : next s = .instr f)
      (hf : f c = some (s', c')) : Step next P C v s c s' c'
  | wait {s k : σ} {c : γ} (hs : next s = .wait k) (hv : C.wakes v c) : Step next P C v s c k c

/-- Started in the place `s` in cycle `t`, with the processor in the state `c`, the routine is
interrupted in the places of the list and returns `b` in cycle `u`, with the processor in the state
`c'`. -/
inductive Run (next : σ → Action σ ι α γ β) (P : Port ι α) (C : Core γ) :
    σ → γ → ℕ → List σ → β → γ → ℕ → Prop
  | step {s s' : σ} {c c' c'' : γ} {t v u : ℕ} {l : List σ} {b : β} (htv : t ≤ v)
      (hs : Step next P C v s c s' c') (h : Run next P C s' c' (v + 1) l b c'' u) :
      Run next P C s c t l b c'' u
  | interrupt {s : σ} {c c' : γ} {t v u : ℕ} {l : List σ} {b : β} (htv : t ≤ v) (hv : C.takes v c)
      (h : Run next P C s (C.serve c) (v + 1) l b c' u) : Run next P C s c t (s :: l) b c' u
  | ret {s : σ} {c : γ} {t u : ℕ} {b : β} (hs : next s = .ret b) (htu : t ≤ u) :
      Run next P C s c t [] b c u

variable {next : σ → Action σ ι α γ β} {P : Port ι α} {C : Core γ} {v t u : ℕ} {s s' : σ} {c c' : γ}

namespace Step

/-- A step of a routine that is about to load. -/
theorem of_load {i : ι} {k : α → σ} (h : Step next P C v s c s' c') (hs : next s = .load i k) :
    ∃ a, P.load v i a ∧ s' = k a ∧ c' = c := by
  cases h with
  | load hs' hv =>
    rw [hs] at hs'
    cases hs'
    exact ⟨_, hv, rfl, rfl⟩
  | store hs' | instr hs' | wait hs' => rw [hs] at hs'; cases hs'

/-- A step of a routine that is about to store. -/
theorem of_store {i : ι} {a : α} {k : σ} (h : Step next P C v s c s' c')
    (hs : next s = .store i a k) : P.store v i a ∧ s' = k ∧ c' = c := by
  cases h with
  | store hs' hv =>
    rw [hs] at hs'
    cases hs'
    exact ⟨hv, rfl, rfl⟩
  | load hs' | instr hs' | wait hs' => rw [hs] at hs'; cases hs'

/-- A step of a routine that is about to execute an instruction. -/
theorem of_instr {f : γ → Option (σ × γ)} (h : Step next P C v s c s' c')
    (hs : next s = .instr f) : f c = some (s', c') := by
  cases h with
  | instr hs' hf =>
    rw [hs] at hs'
    cases hs'
    exact hf
  | load hs' | store hs' | wait hs' => rw [hs] at hs'; cases hs'

/-- An instruction that is legal where `f` is defined. -/
theorem of_instr_map {δ : Type*} {f : γ → Option δ} {g : δ → σ × γ} (h : Step next P C v s c s' c')
    (hs : next s = .instr fun c => (f c).map g) : ∃ d, f c = some d ∧ g d = (s', c') :=
  Option.map_eq_some_iff.mp (h.of_instr hs)

/-- A routine that waits goes on when it is woken. -/
theorem of_wait {k : σ} (h : Step next P C v s c s' c') (hs : next s = .wait k) :
    C.wakes v c ∧ s' = k ∧ c' = c := by
  cases h with
  | wait hs' hv =>
    rw [hs] at hs'
    cases hs'
    exact ⟨hv, rfl, rfl⟩
  | load hs' | store hs' | instr hs' => rw [hs] at hs'; cases hs'

theorem not_of_ret {b : β} (hs : next s = .ret b) : ¬Step next P C v s c s' c' := by
  intro h
  cases h with
  | load hs' | store hs' | instr hs' | wait hs' => rw [hs] at hs'; cases hs'

end Step

/-- **The value at the return.** If the instructions keep a value of the place and the processor,
and an interrupt in the place `s` changes it by `d s`, then at the return it is what the interrupts
have made of it, one after the other. -/
theorem Run.value {K : σ → γ → κ} {d : σ → κ → κ} {l : List σ} {b : β}
    (hstep : ∀ {v s c s' c'}, Step next P C v s c s' c' → K s' c' = K s c)
    (hserve : ∀ s c, K s (C.serve c) = d s (K s c)) (h : Run next P C s c t l b c' u) :
    ∃ s', next s' = .ret b ∧ K s' c' = l.foldl (fun x s => d s x) (K s c) := by
  induction h with
  | step _ hs _ ih =>
    obtain ⟨s', hret, hK⟩ := ih
    exact ⟨s', hret, hK.trans (by rw [hstep hs])⟩
  | interrupt _ _ _ ih =>
    obtain ⟨s', hret, hK⟩ := ih
    exact ⟨s', hret, hK.trans (by rw [hserve, List.foldl_cons])⟩
  | ret hs => exact ⟨_, hs, rfl⟩

end Interruptible
