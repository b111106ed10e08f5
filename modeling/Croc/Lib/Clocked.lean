import Mathlib.Data.List.Basic
import Mathlib.Data.List.Infix
import Mathlib.Data.Nat.Count

/-!
# Clocked machines

A synchronous circuit is a state that every clock edge replaces, from the state and the inputs of
the cycle that ends there. The run is fixed by the stream of inputs, one for each cycle, so the
environment of a circuit is whatever chooses that stream: a statement about every stream is a
statement about every interleaving of the requesters behind the inputs.

What a run is asked about is rarely one state. It is what has happened so far: which requests were
accepted, which answers were delivered. `Machine.log` collects that, cycle by cycle, without adding
anything to the state.

## Main definitions

* `Machine σ ι`: an initial state and the step of one clock edge.
* `Machine.stateAt`: the state at the start of cycle `t` of a run.
* `Machine.log`: what a run has emitted in the cycles before `t`.

## Main results

* `Machine.stateAt_inv`: an invariant of the step, under an assumption on the inputs, holds in
  every state of the run.
* `Machine.log_le`: a log only ever grows at its end.
* `Machine.exists_of_getElem?_log`: the cycle in which an entry of a log was made.
* `Machine.stateAt_component`: a part of a machine is a machine.
* `Machine.log_conserved`: what went into a store is what came out of it and what it holds.
* `cell_stable`, `cell_exists_last_write`: a cell holds what was last written to it.
* `iff_unread`: a flag that events set and reads clear says that an event is unread.
* `exists_done_of_rank`: what goes on in phases of falling rank comes to an end.
-/

namespace Clocked

variable {σ ι β : Type*}

/-- A synchronous circuit: its state out of reset and what one clock edge does to it. -/
structure Machine (σ ι : Type*) where
  /-- The state out of reset. -/
  init : σ
  /-- The state after the edge, from the state and the inputs of the cycle. -/
  step : σ → ι → σ

namespace Machine

variable (M : Machine σ ι) (ins : ℕ → ι)

/-- The state at the start of cycle `t`, when the inputs of cycle `t` are `ins t`. -/
def stateAt : ℕ → σ
  | 0 => M.init
  | t + 1 => M.step (stateAt t) (ins t)

@[simp] theorem stateAt_zero : M.stateAt ins 0 = M.init := rfl

theorem stateAt_succ (t : ℕ) : M.stateAt ins (t + 1) = M.step (M.stateAt ins t) (ins t) := rfl

variable {M ins}

/-- **The invariant rule.** What holds out of reset, and is kept by every edge whose inputs meet
the assumption `A`, holds throughout a run whose inputs meet `A` in every cycle. -/
theorem stateAt_inv {I : σ → Prop} {A : σ → ι → Prop} (h0 : I M.init)
    (hstep : ∀ s i, I s → A s i → I (M.step s i)) (hA : ∀ t, A (M.stateAt ins t) (ins t)) (t : ℕ) :
    I (M.stateAt ins t) := by
  induction t with
  | zero => exact h0
  | succ t ih => exact hstep _ _ ih (hA t)

/-- The invariant rule without an assumption on the inputs. -/
theorem stateAt_inv' {I : σ → Prop} (h0 : I M.init) (hstep : ∀ s i, I s → I (M.step s i)) (t : ℕ) :
    I (M.stateAt ins t) :=
  stateAt_inv (A := fun _ _ => True) h0 (fun s i hs _ => hstep s i hs) (fun _ => trivial) t

/-- A property that no edge from cycle `t` on undoes holds from cycle `t` on. -/
theorem stateAt_stable {I : σ → Prop} {t : ℕ} (ht : I (M.stateAt ins t))
    (hstep : ∀ u, t ≤ u → I (M.stateAt ins u) → I (M.stateAt ins (u + 1))) {u : ℕ} (hu : t ≤ u) :
    I (M.stateAt ins u) := by
  induction u, hu using Nat.le_induction with
  | base => exact ht
  | succ u hu ih => exact hstep u hu ih

/-- **Components.** A part of a machine runs as a machine of its own, on the inputs that the whole
gives it. -/
theorem stateAt_component {σ' ι' : Type*} {N : Machine σ' ι'} {f : σ → σ'} {g : σ → ι → ι'}
    (h0 : f M.init = N.init) (hstep : ∀ s i, f (M.step s i) = N.step (f s) (g s i)) (t : ℕ) :
    f (M.stateAt ins t) = N.stateAt (fun u => g (M.stateAt ins u) (ins u)) t := by
  induction t with
  | zero => exact h0
  | succ t ih => rw [stateAt_succ, stateAt_succ, hstep, ih]

variable (M ins)

/-- What the run has emitted in the cycles before `t`, when a cycle emits `f s i`. -/
def log (f : σ → ι → List β) : ℕ → List β
  | 0 => []
  | t + 1 => log f t ++ f (M.stateAt ins t) (ins t)

@[simp] theorem log_zero (f : σ → ι → List β) : M.log ins f 0 = [] := rfl

theorem log_succ (f : σ → ι → List β) (t : ℕ) :
    M.log ins f (t + 1) = M.log ins f t ++ f (M.stateAt ins t) (ins t) := rfl

/-- A log is only ever extended. -/
theorem log_le (f : σ → ι → List β) {t u : ℕ} (h : t ≤ u) :
    M.log ins f t <+: M.log ins f u := by
  induction u, h using Nat.le_induction with
  | base => exact List.prefix_rfl
  | succ u _ ih => exact ih.trans (List.prefix_append _ _)

/-- What a component emits, it emits as a machine of its own. -/
theorem log_component {σ' ι' : Type*} {N : Machine σ' ι'} {f : σ → σ'} {g : σ → ι → ι'}
    (h0 : f M.init = N.init) (hstep : ∀ s i, f (M.step s i) = N.step (f s) (g s i))
    (F : σ' → ι' → List β)
    (t : ℕ) : N.log (fun u => g (M.stateAt ins u) (ins u)) F t =
      M.log ins (fun s i => F (f s) (g s i)) t := by
  induction t with
  | zero => rfl
  | succ t ih => rw [log_succ, log_succ, ih, stateAt_component h0 hstep]

theorem log_map {γ : Type*} (f : σ → ι → List β) (g : β → γ) (t : ℕ) :
    M.log ins (fun s i => (f s i).map g) t = (M.log ins f t).map g := by
  induction t with
  | zero => rfl
  | succ t ih => rw [log_succ, log_succ, ih, List.map_append]

theorem log_flatMap {γ : Type*} (f : σ → ι → List β) (g : β → List γ) (t : ℕ) :
    M.log ins (fun s i => (f s i).flatMap g) t = (M.log ins f t).flatMap g := by
  induction t with
  | zero => rfl
  | succ t ih => rw [log_succ, log_succ, ih, List.flatMap_append]

/-- The length of a log that takes at most one entry a cycle is the number of cycles with an
entry. -/
theorem length_log {f : σ → ι → List β} {p : ℕ → Bool}
    (h : ∀ t, (f (M.stateAt ins t) (ins t)).length = (p t).toNat) (t : ℕ) :
    (M.log ins f t).length = Nat.count (fun u => p u = true) t := by
  induction t with
  | zero => rfl
  | succ t ih =>
    rw [log_succ, List.length_append, ih, h, Nat.count_succ]
    cases p t <;> rfl

/-- **The conservation rule.** If every edge keeps what a store holds together with what goes in and
what comes out, the log of what went in is the log of what came out, followed by what is held. -/
theorem log_conserved (held : σ → List β) {into out : σ → ι → List β} (h0 : held M.init = [])
    (hstep : ∀ t, held (M.stateAt ins t) ++ into (M.stateAt ins t) (ins t) =
      out (M.stateAt ins t) (ins t) ++ held (M.stateAt ins (t + 1))) (t : ℕ) :
    M.log ins into t = M.log ins out t ++ held (M.stateAt ins t) := by
  induction t with
  | zero => rw [stateAt_zero, h0]; rfl
  | succ t ih => rw [log_succ, log_succ, ih, List.append_assoc, hstep, List.append_assoc]

/-- In a log that takes at most one entry a cycle, entry `k` was made in a cycle that found `k`
entries. -/
theorem exists_of_getElem?_log {p : σ → ι → Bool} {g : σ → ι → β} {t k : ℕ} {b : β}
    (h : (M.log ins (fun s i => if p s i then [g s i] else []) t)[k]? = some b) :
    ∃ v, v < t ∧ p (M.stateAt ins v) (ins v) = true ∧
      (M.log ins (fun s i => if p s i then [g s i] else []) v).length = k ∧
      b = g (M.stateAt ins v) (ins v) := by
  induction t with
  | zero => simp at h
  | succ t ih =>
    rw [log_succ] at h
    by_cases hk : k < (M.log ins (fun s i => if p s i then [g s i] else []) t).length
    · rw [List.getElem?_append_left hk] at h
      obtain ⟨v, hv, hrest⟩ := ih h
      exact ⟨v, hv.trans t.lt_succ_self, hrest⟩
    · rw [List.getElem?_append_right (not_lt.mp hk)] at h
      cases hp : p (M.stateAt ins t) (ins t) with
      | false => simp [hp] at h
      | true =>
        rw [hp, if_pos rfl, List.getElem?_singleton] at h
        split at h
        · exact ⟨t, t.lt_succ_self, hp, by omega, by simpa using h.symm⟩
        · cases h

/-- An entry of a log stays where it is. -/
theorem getElem?_log_of_le {f : σ → ι → List β} {t u k : ℕ} {b : β} (htu : t ≤ u)
    (h : (M.log ins f t)[k]? = some b) : (M.log ins f u)[k]? = some b := by
  obtain ⟨l, hl⟩ := M.log_le ins f htu
  obtain ⟨hk, hb⟩ := List.getElem?_eq_some_iff.mp h
  rw [← hl, List.getElem?_append_left hk, h]

/-- An entry of a log is the same in whatever cycle it is seen. -/
theorem getElem?_log_unique {f : σ → ι → List β} {t u k : ℕ} {b b' : β}
    (h : (M.log ins f t)[k]? = some b) (h' : (M.log ins f u)[k]? = some b') : b = b' := by
  have hb := M.getElem?_log_of_le ins (le_max_left t u) h
  rw [M.getElem?_log_of_le ins (le_max_right t u) h'] at hb
  exact (Option.some.inj hb).symm

end Machine

/-! ### A cell that is written now and then -/

section Cell

variable {α : Type*} {x : ℕ → α} {W : ℕ → Prop} (hkeep : ∀ t, ¬ W t → x (t + 1) = x t)

include hkeep

/-- A cell keeps its value while it is not written. -/
theorem cell_stable {u v : ℕ} (huv : u ≤ v) (hno : ∀ t, u ≤ t → t < v → ¬ W t) : x v = x u := by
  induction v, huv using Nat.le_induction with
  | base => rfl
  | succ v huv ih =>
    rw [hkeep v (hno v huv v.lt_succ_self)]
    exact ih fun t hut htv => hno t hut (htv.trans v.lt_succ_self)

/-- What a cell did not have from the start, its last write gave it. -/
theorem cell_exists_last_write {P : α → Prop} (h0 : ¬ P (x 0)) {v : ℕ} (hv : P (x v)) :
    ∃ u, u < v ∧ W u ∧ P (x (u + 1)) ∧ ∀ t, u < t → t < v → ¬ W t := by
  induction v with
  | zero => exact absurd hv h0
  | succ v ih =>
    by_cases hw : W v
    · exact ⟨v, v.lt_succ_self, hw, hv, fun t htv hvt => absurd hvt (by omega)⟩
    · rw [hkeep v hw] at hv
      obtain ⟨u, huv, hu, hP, hno⟩ := ih hv
      refine ⟨u, huv.trans v.lt_succ_self, hu, hP, fun t hut htv => ?_⟩
      rcases Nat.lt_succ_iff_lt_or_eq.mp htv with htv | rfl
      · exact hno t hut htv
      · exact hw

end Cell

/-! ### A flag that is cleared when it is read -/

section Unread

variable {event read : ℕ → Prop}

/-- Before cycle `t` there is an event that no read has come after. A read does not see the event of
its own cycle. -/
def Unread (event read : ℕ → Prop) (t : ℕ) : Prop :=
  ∃ v, v < t ∧ event v ∧ ∀ u, v < u → u < t → ¬ read u

theorem unread_succ {t : ℕ} :
    Unread event read (t + 1) ↔ event t ∨ Unread event read t ∧ ¬ read t := by
  constructor
  · rintro ⟨v, hv, hev, hno⟩
    rcases Nat.lt_succ_iff_lt_or_eq.mp hv with hv | rfl
    · exact .inr ⟨⟨v, hv, hev, fun u hvu hut => hno u hvu (hut.trans t.lt_succ_self)⟩,
        hno t hv t.lt_succ_self⟩
    · exact .inl hev
  · rintro (hev | ⟨⟨v, hv, hev, hno⟩, hread⟩)
    · exact ⟨t, t.lt_succ_self, hev, fun u htu hut => absurd hut (by omega)⟩
    · refine ⟨v, hv.trans t.lt_succ_self, hev, fun u hvu hut => ?_⟩
      rcases Nat.lt_succ_iff_lt_or_eq.mp hut with hut | rfl
      · exact hno u hvu hut
      · exact hread

/-- **The flag rule.** A flag that is clear at first, is set by an event and is cleared by a read,
unless there is an event in the same cycle, says at any time that an event is unread. -/
theorem iff_unread {flag : ℕ → Prop} (h0 : ¬ flag 0)
    (hstep : ∀ t, flag (t + 1) ↔ event t ∨ flag t ∧ ¬ read t) (t : ℕ) :
    flag t ↔ Unread event read t := by
  induction t with
  | zero => exact iff_of_false h0 fun ⟨v, hv, _⟩ => absurd hv (Nat.not_lt_zero v)
  | succ t ih => rw [hstep, unread_succ, ih]

end Unread

/-! ### Progress -/

/-- **The rank rule.** Something goes on in phases, each of which lasts or gives way to one of lower
rank until it is done. If every phase meets a cycle that would end it, it is done at some time. -/
theorem exists_done_of_rank {P : Type*} {A : ℕ → P → Prop} {D : ℕ → Prop} (rank : P → ℕ)
    (hstep : ∀ t p, A t p → ¬ D t → ∃ p', A (t + 1) p' ∧ (p' = p ∨ rank p' < rank p))
    (hfair : ∀ t p, A t p →
      ∃ u, t ≤ u ∧ (A u p → ¬ D u → ∃ p', A (u + 1) p' ∧ rank p' < rank p))
    {t : ℕ} {p : P} (h : A t p) : ∃ u, t ≤ u ∧ D u := by
  induction hn : rank p using Nat.strong_induction_on generalizing t p with
  | _ n ih =>
    subst hn
    by_contra hnever
    have hnot : ∀ u, t ≤ u → ¬ D u := fun u hu hdone => hnever ⟨u, hu, hdone⟩
    -- a phase of lower rank would be done at some time
    have hlower : ∀ u p', t ≤ u → A u p' → ¬ rank p' < rank p := by
      intro u p' hu hp' hlt
      obtain ⟨v, huv, hdone⟩ := ih (rank p') hlt hp' rfl
      exact hnot v (hu.trans huv) hdone
    have hlasts : ∀ u, t ≤ u → A u p := by
      intro u hu
      induction u, hu using Nat.le_induction with
      | base => exact h
      | succ u hu hp =>
        obtain ⟨p', hp', rfl | hlt⟩ := hstep u p hp (hnot u hu)
        · exact hp'
        · exact absurd hlt (hlower (u + 1) p' (hu.trans u.le_succ) hp')
    obtain ⟨u, hu, hends⟩ := hfair t p h
    obtain ⟨p', hp', hlt⟩ := hends (hlasts u hu) (hnot u hu)
    exact hlower (u + 1) p' (hu.trans u.le_succ) hp' hlt

end Clocked
