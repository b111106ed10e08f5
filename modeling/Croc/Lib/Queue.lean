import Mathlib.Data.List.Basic

/-!
# Bounded queues

The contents of a hardware FIFO, oldest element first, together with the bound on their number. One
clock edge may take a new element in at the back, if there is room, and let the oldest one out at
the front; `Queue.edge` does both at once. A FIFO that lets an element pass through in the cycle it
arrives needs no case of its own: the element is taken in and let out by the same edge.

## Main definitions

* `Queue α depth`: a list of at most `depth` elements.
* `Queue.edge`: one clock edge.

## Main results

* `Queue.accepted_append`: nothing is lost, duplicated or reordered by an edge.
-/

namespace Clocked

/-- The contents of a FIFO with room for `depth` elements, oldest first. -/
structure Queue (α : Type*) (depth : ℕ) where
  /-- The elements held. -/
  items : List α
  /-- There are at most `depth` of them. -/
  length_le : items.length ≤ depth

namespace Queue

variable {α : Type*} {depth : ℕ}

/-- The queue out of reset. -/
def empty : Queue α depth := ⟨[], Nat.zero_le _⟩

@[simp] theorem items_empty : (empty : Queue α depth).items = [] := rfl

@[ext] theorem ext {q q' : Queue α depth} (h : q.items = q'.items) : q = q' := by
  cases q; cases q'; cases h; rfl

instance [DecidableEq α] : DecidableEq (Queue α depth) := fun q q' =>
  decidable_of_iff (q.items = q'.items) ⟨Queue.ext, fun h => h ▸ rfl⟩

/-- No room is left. -/
def full (q : Queue α depth) : Bool := q.items.length == depth

theorem full_iff {q : Queue α depth} : q.full = true ↔ q.items.length = depth := by
  simp [full]

/-- A queue that is not full has room for one more element. -/
theorem length_lt_of_not_full {q : Queue α depth} (h : q.full = false) :
    q.items.length < depth := by
  have hne : q.items.length ≠ depth := by simpa [full] using h
  exact Nat.lt_of_le_of_ne q.length_le hne

/-- What an edge takes in of an offered element: the element, unless the queue is full. -/
def accepted (q : Queue α depth) (offer : Option α) : List α :=
  if q.full then [] else offer.toList

/-- What is taken in has room. -/
theorem length_append_accepted_le (q : Queue α depth) (offer : Option α) :
    (q.items ++ q.accepted offer).length ≤ depth := by
  have hq := q.length_le
  unfold accepted
  split
  · simpa using hq
  · next h =>
    have hlt := length_lt_of_not_full (by simpa using h)
    cases offer <;> simp <;> omega

/-- One clock edge: an offered element is taken in if there is room, and the oldest element leaves
if `pop` is set. -/
def edge (q : Queue α depth) (offer : Option α) (pop : Bool) : Queue α depth where
  items := (q.items ++ q.accepted offer).drop pop.toNat
  length_le := by
    have := q.length_append_accepted_le offer
    rw [List.length_drop]
    omega

theorem items_edge (q : Queue α depth) (offer : Option α) (pop : Bool) :
    (q.edge offer pop).items = (q.items ++ q.accepted offer).drop pop.toNat := rfl

/-- What an edge lets out. -/
def released (q : Queue α depth) (offer : Option α) (pop : Bool) : List α :=
  (q.items ++ q.accepted offer).take pop.toNat

/-- **Conservation.** What was held and what came in is, in this order, what left and what is now
held. -/
theorem accepted_append (q : Queue α depth) (offer : Option α) (pop : Bool) :
    q.items ++ q.accepted offer = q.released offer pop ++ (q.edge offer pop).items :=
  (List.take_append_drop _ _).symm

/-- A pop of a queue that is not empty lets exactly one element out. -/
theorem length_released {q : Queue α depth} {pop : Bool} (h : pop.toNat ≤ q.items.length)
    (offer : Option α) : (q.released offer pop).length = pop.toNat := by
  rw [released, List.length_take, List.length_append]
  omega

/-- An edge without a push and a pop changes nothing. -/
@[simp] theorem edge_none_false (q : Queue α depth) : q.edge none false = q := by
  ext1
  simp [items_edge, accepted]

end Queue

end Clocked
