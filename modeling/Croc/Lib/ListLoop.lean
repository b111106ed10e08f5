import Mathlib.Data.List.Basic

/-!
# Loops over lists

Two kinds of loop. The first goes through a list and gathers something: what holds of the state at
the end held at the start or was added in some round.

The second finds the matches of a pattern in a text, from left to right, as `finditer` of a regular
expression library does: where the pattern matches, the match is reported and the search goes on
behind it. The pattern is any function of the element before a position and of the text from there
on, which returns what the match captures and its length. A pattern whose matches never overlap
misses none: the loop then reports exactly the places where the pattern matches.

## Main definitions

* `findIter`: the loop over the matches.
* `NonOverlapping`: no match starts within another one.
* `Block`: the block of a class of elements at the start of a list.

## Main results

* `foldl_iff`, `foldlM_ok_iff`: what a loop gathers.
* `foldlM_error_iff`, `mapM_error_iff`: when a loop fails.
* `mem_findIter`: what is reported is what matches somewhere.
-/

namespace ListLoop

/-! ### Loops that gather -/

section Gather

variable {ε σ α β : Type*} {P : σ → Prop} {Q : α → Prop}

/-- A loop every round of which may add something to what `P` says. -/
theorem foldl_iff {f : σ → α → σ} (hf : ∀ s a, P (f s a) ↔ P s ∨ Q a) (l : List α) (s : σ) :
    P (l.foldl f s) ↔ P s ∨ ∃ a ∈ l, Q a := by
  induction l generalizing s with
  | nil => simp
  | cons a l ih => rw [List.foldl_cons, ih, hf, List.exists_mem_cons_iff, or_assoc]

/-- The same for a loop that can fail. -/
theorem foldlM_ok_iff {f : σ → α → Except ε σ} (hf : ∀ s a s', f s a = .ok s' → (P s' ↔ P s ∨ Q a))
    {l : List α} {s s' : σ} (h : l.foldlM f s = .ok s') : P s' ↔ P s ∨ ∃ a ∈ l, Q a := by
  induction l generalizing s with
  | nil =>
    cases h
    simp
  | cons a l ih =>
    rw [List.foldlM_cons] at h
    cases ha : f s a with
    | error e =>
      rw [ha] at h
      cases h
    | ok s₁ =>
      rw [ha] at h
      rw [ih h, hf s a s₁ ha, List.exists_mem_cons_iff, or_assoc]

/-- A loop that collects the results of a function that can fail. -/
theorem mem_of_mapM_ok {f : α → Except ε β} {l : List α} {values : List β} {v : β}
    (h : l.mapM f = .ok values) : v ∈ values ↔ ∃ a ∈ l, f a = .ok v := by
  induction l generalizing values with
  | nil =>
    cases h
    simp
  | cons a l ih =>
    rw [List.mapM_cons] at h
    cases ha : f a with
    | error e =>
      rw [ha] at h
      cases h
    | ok b =>
      rw [ha] at h
      cases hl : l.mapM f with
      | error e =>
        rw [hl] at h
        cases h
      | ok bs =>
        rw [hl] at h
        cases h
        simp [ih hl, ha, eq_comm]

/-- A loop whose rounds fail by their element alone fails if some element makes one fail. -/
theorem foldlM_error_iff {f : σ → α → Except ε σ}
    (hf : ∀ s a, (∃ e, f s a = .error e) ↔ Q a) (l : List α) (s : σ) :
    (∃ e, l.foldlM f s = .error e) ↔ ∃ a ∈ l, Q a := by
  induction l generalizing s with
  | nil =>
    refine iff_of_false ?_ (by simp)
    rintro ⟨e, ⟨⟩⟩
  | cons a l ih =>
    rw [List.foldlM_cons, List.exists_mem_cons_iff, ← hf s a]
    cases ha : f s a with
    | error e => exact iff_of_true ⟨e, rfl⟩ (.inl ⟨e, rfl⟩)
    | ok s₁ =>
      refine (ih s₁).trans (or_iff_right ?_).symm
      rintro ⟨e, ⟨⟩⟩

/-- A loop that collects results fails if the function fails somewhere. -/
theorem mapM_error_iff {f : α → Except ε β} (l : List α) :
    (∃ e, l.mapM f = .error e) ↔ ∃ a ∈ l, ∃ e, f a = .error e := by
  induction l with
  | nil =>
    refine iff_of_false ?_ (by simp)
    rintro ⟨e, ⟨⟩⟩
  | cons a l ih =>
    rw [List.mapM_cons, List.exists_mem_cons_iff, ← ih]
    cases ha : f a with
    | error e => exact iff_of_true ⟨e, rfl⟩ (.inl ⟨e, rfl⟩)
    | ok b =>
      cases hl : l.mapM f with
      | error e => exact iff_of_true ⟨e, rfl⟩ (.inr ⟨e, rfl⟩)
      | ok bs =>
        refine iff_of_false ?_ ?_
        · rintro ⟨e, ⟨⟩⟩
        · rintro (⟨e, ⟨⟩⟩ | ⟨e, ⟨⟩⟩)

end Gather

/-! ### Non-overlapping matches -/

variable {α β : Type*} {m : Option α → List α → Option (β × ℕ)}

/-- A pattern: the element before a position and the text from there on to what is captured and the
length. -/
abbrev Pattern (α β : Type*) := Option α → List α → Option (β × ℕ)

/-- The matches from left to right, after `skip` elements that belong to the last match. -/
def findIter (m : Pattern α β) : Option α → ℕ → List α → List β
  | _, _, [] => []
  | _, skip + 1, c :: rest => findIter m (some c) skip rest
  | prev, 0, c :: rest =>
    match m prev (c :: rest) with
    | some (v, n) => v :: findIter m (some c) (n - 1) rest
    | none => findIter m (some c) 0 rest

/-- The element before what follows `a`. -/
def before (prev : Option α) (a : List α) : Option α := a.foldl (fun _ c => some c) prev

/-- Matches do not overlap: none starts behind the first element of another. -/
def NonOverlapping (m : Pattern α β) : Prop :=
  ∀ prev c a d rest v n, m prev (c :: (a ++ d :: rest)) = some (v, n) → a.length < n - 1 →
    m (before (some c) a) (d :: rest) = none

/-- The pattern matches at the start of some part of the text, behind `skip` elements. -/
def MatchesFrom (m : Pattern α β) (prev : Option α) (skip : ℕ) (text : List α) (v : β) : Prop :=
  ∃ a c rest n, text = a ++ c :: rest ∧ skip ≤ a.length ∧
    m (before prev a) (c :: rest) = some (v, n)

theorem matchesFrom_cons {prev : Option α} {skip : ℕ} {c : α} {rest : List α} {v : β} :
    MatchesFrom m prev skip (c :: rest) v ↔
      (skip = 0 ∧ ∃ n, m prev (c :: rest) = some (v, n)) ∨
        MatchesFrom m (some c) (skip - 1) rest v := by
  constructor
  · rintro ⟨a, d, rest', n, htext, hskip, hm⟩
    cases a with
    | nil =>
      cases htext
      exact .inl ⟨Nat.le_zero.mp hskip, n, hm⟩
    | cons b a =>
      cases htext
      exact .inr ⟨a, d, rest', n, rfl, Nat.sub_le_of_le_add hskip, hm⟩
  · rintro (⟨rfl, n, hm⟩ | ⟨a, d, rest', n, rfl, hskip, hm⟩)
    · exact ⟨[], c, rest, n, rfl, Nat.le_refl 0, hm⟩
    · exact ⟨c :: a, d, rest', n, rfl, Nat.le_add_of_sub_le hskip, hm⟩

/-- No match is missed while the last one is skipped. -/
theorem NonOverlapping.matchesFrom_iff (hm : NonOverlapping m) {prev : Option α} {c : α}
    {rest : List α}
    {v w : β} {n : ℕ} (h : m prev (c :: rest) = some (v, n)) :
    MatchesFrom m (some c) (n - 1) rest w ↔ MatchesFrom m (some c) 0 rest w := by
  constructor
  · rintro ⟨a, d, rest', k, rfl, -, hd⟩
    exact ⟨a, d, rest', k, rfl, Nat.zero_le _, hd⟩
  · rintro ⟨a, d, rest', k, rfl, -, hd⟩
    refine ⟨a, d, rest', k, rfl, ?_, hd⟩
    by_contra hlt
    rw [hm prev c a d rest' v n h (Nat.lt_of_not_le hlt)] at hd
    cases hd

theorem mem_findIter_skip (hm : NonOverlapping m) {v : β} {text : List α} :
    ∀ {prev : Option α} {skip : ℕ},
      v ∈ findIter m prev skip text ↔ MatchesFrom m prev skip text v := by
  induction text with
  | nil =>
    intro prev skip
    rw [findIter]
    refine iff_of_false List.not_mem_nil ?_
    rintro ⟨a, c, rest, n, htext, -⟩
    cases a <;> cases htext
  | cons c rest ih =>
    intro prev skip
    rw [matchesFrom_cons]
    cases skip with
    | succ skip =>
      rw [findIter, ih, Nat.add_sub_cancel, or_iff_right]
      exact fun h => Nat.succ_ne_zero skip h.1
    | zero =>
      rw [findIter]
      cases h : m prev (c :: rest) with
      | none => simp [ih]
      | some found =>
        obtain ⟨w, n⟩ := found
        rw [List.mem_cons, ih, hm.matchesFrom_iff h]
        simp [eq_comm]

theorem before_eq (prev : Option α) (a : List α) : before prev a = a.getLast?.or prev := by
  induction a generalizing prev with
  | nil => rfl
  | cons c a ih =>
    rw [before, List.foldl_cons, ← before, ih, List.getLast?_cons]
    cases a.getLast? <;> rfl

/-- **The loop reports exactly the matches.** -/
theorem mem_findIter (hm : NonOverlapping m) {v : β} {text : List α} :
    v ∈ findIter m none 0 text ↔
      ∃ a c rest n, text = a ++ c :: rest ∧ m a.getLast? (c :: rest) = some (v, n) := by
  rw [mem_findIter_skip hm, MatchesFrom]
  simp only [Nat.zero_le, true_and, before_eq, Option.or_none]

/-! ### Blocks of a class -/

/-- A list starts with a whole block of a class. -/
structure Block (p : α → Bool) (l w rest : List α) : Prop where
  /-- The block and what follows. -/
  eq : l = w ++ rest
  /-- The block is of the class. -/
  all : ∀ c ∈ w, p c = true
  /-- What follows is not. -/
  head : ∀ c ∈ rest.head?, p c = false

variable {p : α → Bool} {l w rest : List α}

theorem block_dropWhile (p : α → Bool) (l : List α) :
    Block p l (l.takeWhile p) (l.dropWhile p) where
  eq := List.takeWhile_append_dropWhile.symm
  all := List.all_eq_true.mp List.all_takeWhile
  head := by
    intro c hc
    have hnot := List.head?_dropWhile_not p l
    rw [Option.mem_def.mp hc] at hnot
    exact hnot

theorem Block.dropWhile_eq (h : Block p l w rest) : l.dropWhile p = rest := by
  rw [h.eq, List.dropWhile_append_of_pos h.all]
  cases rest with
  | nil => rfl
  | cons c rest => exact List.dropWhile_cons_of_neg (by simp [h.head c rfl])

theorem Block.takeWhile_eq (h : Block p l w rest) : l.takeWhile p = w := by
  have hsplit : w ++ rest = l.takeWhile p ++ rest := by
    rw [← h.dropWhile_eq, List.takeWhile_append_dropWhile, h.dropWhile_eq, h.eq]
  exact (List.append_cancel_right hsplit).symm

end ListLoop
