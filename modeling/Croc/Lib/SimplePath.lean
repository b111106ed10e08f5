import Mathlib.Data.List.Chain
import Mathlib.Data.List.Rotate
import Mathlib.Logic.Relation

/-!
# Simple paths and cycles

A directed graph is a relation on its nodes, and a path is the list of the nodes it passes. A path
is simple if it passes no node twice. A cycle is written without repeating its first node at the
end, so that its rotations are the rotations of a list; `close` repeats it.

## Main definitions

* `IsSimplePath r root p`: a simple path from `root`.
* `IsSimpleCycle r l`, `close`: a simple cycle, and its closed walk.

## Main results

* `exists_isSimplePath`: what can be reached can be reached on a simple path.
* `IsSimpleCycle.rotate`: a cycle can be entered at any of its nodes.
* `IsSimpleCycle.exists_entry`: a reachable cycle is the end of a simple path that meets it at one
  node first.
-/

namespace SimplePath

variable {α : Type*} {r : α → α → Prop} {root x y z : α} {p pre s e l : List α}

/-- A path from `root` that passes no node twice. -/
structure IsSimplePath (r : α → α → Prop) (root : α) (p : List α) : Prop where
  /-- It starts at the root. -/
  head : p.head? = some root
  /-- It follows the edges. -/
  chain : p.IsChain r
  /-- It passes no node twice. -/
  nodup : p.Nodup

/-- The closed walk around a cycle. -/
def close (l : List α) : List α := l ++ l.take 1

/-- A cycle that passes no node twice. -/
structure IsSimpleCycle (r : α → α → Prop) (l : List α) : Prop where
  /-- It has a node. -/
  ne_nil : l ≠ []
  /-- It follows the edges, back to its first node. -/
  chain : (close l).IsChain r
  /-- It passes no node twice. -/
  nodup : l.Nodup

@[simp] theorem close_cons (x : α) (l : List α) : close (x :: l) = x :: (l ++ [x]) := rfl

theorem isSimplePath_singleton (r : α → α → Prop) (root : α) : IsSimplePath r root [root] :=
  ⟨rfl, .singleton _, List.nodup_singleton _⟩

theorem head?_append_singleton (l : List α) (x : α) (m : List α) :
    (l ++ [x]).head? = (l ++ x :: m).head? := by
  cases l <;> rfl

/-- The end of a list is the end of each part that has one. -/
theorem exists_concat (h : s ++ x :: e = pre ++ [y]) : ∃ t, x :: e = t ++ [y] := by
  obtain ⟨t, z, ht⟩ := List.eq_nil_or_concat' (x :: e) |>.resolve_left (List.cons_ne_nil x e)
  rw [ht, ← List.append_assoc] at h
  have hz : [z] = [y] := List.append_inj_right' h rfl
  exact ⟨t, hz ▸ ht⟩

namespace IsSimplePath

theorem ne_nil (h : IsSimplePath r root p) : p ≠ [] := by
  rintro rfl
  cases h.head

/-- A path goes on to a new node. -/
theorem snoc (h : IsSimplePath r root (pre ++ [y])) (hedge : r y z) (hnew : z ∉ pre ++ [y]) :
    IsSimplePath r root (pre ++ [y] ++ [z]) where
  head := by
    rw [List.append_assoc, List.singleton_append, ← head?_append_singleton]
    exact h.head
  chain := by
    rw [List.append_assoc, List.singleton_append, List.isChain_split]
    exact ⟨h.chain, List.isChain_pair.mpr hedge⟩
  nodup := List.nodup_append.mpr ⟨h.nodup, List.nodup_singleton z, fun a ha b hb hab => by
    rw [List.mem_singleton] at hb
    exact hnew (hb ▸ hab ▸ ha)⟩

/-- A path up to one of its nodes. -/
theorem upTo (h : IsSimplePath r root (s ++ x :: e)) : IsSimplePath r root (s ++ [x]) where
  head := (head?_append_singleton s x e).trans h.head
  chain := (List.isChain_split.mp h.chain).1
  nodup := by
    have hsub : List.Sublist (s ++ [x]) (s ++ x :: e) :=
      List.Sublist.append_left (List.Sublist.cons_cons x (List.nil_sublist e)) s
    exact h.nodup.sublist hsub

/-- The end of a path can be reached. -/
theorem reflTransGen (h : IsSimplePath r root (pre ++ [y])) : Relation.ReflTransGen r root y := by
  induction pre using List.reverseRecOn generalizing y with
  | nil =>
    cases h.head
    exact .refl
  | append_singleton pre z ih =>
    have hchain := h.chain
    rw [List.append_assoc, List.singleton_append, List.isChain_split] at hchain
    have hpath : IsSimplePath r root (pre ++ [z]) := by
      apply upTo (e := [y])
      rw [← List.singleton_append, ← List.append_assoc]
      exact h
    exact (ih hpath).tail (List.isChain_pair.mp hchain.2)

/-- The nodes of a path can be reached. -/
theorem reaches (h : IsSimplePath r root p) (hx : x ∈ p) : Relation.ReflTransGen r root x := by
  obtain ⟨s, e, rfl⟩ := List.append_of_mem hx
  exact h.upTo.reflTransGen

/-- An edge from the end of a path back to the path closes a cycle. -/
theorem isSimpleCycle (h : IsSimplePath r root (s ++ x :: e)) (hend : s ++ x :: e = pre ++ [y])
    (hedge : r y x) : IsSimpleCycle r (x :: e) where
  ne_nil := List.cons_ne_nil _ _
  chain := by
    obtain ⟨t, hlast⟩ := exists_concat hend
    have hchain := h.chain.right_of_append
    rw [hlast] at hchain
    have hclose : close (x :: e) = t ++ y :: [x] := by
      rw [close, hlast, List.append_assoc, List.singleton_append, ← hlast]
      rfl
    rw [hclose, List.isChain_split]
    exact ⟨hchain, List.isChain_pair.mpr hedge⟩
  nodup := (List.nodup_append.mp h.nodup).2.1

end IsSimplePath

/-- **What can be reached can be reached on a simple path.** A step back to a node of the path cuts
it short. -/
theorem exists_isSimplePath (h : Relation.ReflTransGen r root y) :
    ∃ pre, IsSimplePath r root (pre ++ [y]) := by
  induction h with
  | refl => exact ⟨[], isSimplePath_singleton r root⟩
  | @tail y z _ hedge ih =>
    obtain ⟨pre, hpath⟩ := ih
    by_cases hz : z ∈ pre ++ [y]
    · obtain ⟨s, e, hsplit⟩ := List.append_of_mem hz
      rw [hsplit] at hpath
      exact ⟨s, hpath.upTo⟩
    · exact ⟨pre ++ [y], hpath.snoc hedge hz⟩

/-- The first node of a list that is in a set. -/
theorem exists_first {P : α → Prop} (hx : x ∈ p) (hP : P x) :
    ∃ s y e, p = s ++ y :: e ∧ P y ∧ ∀ z ∈ s, ¬ P z := by
  induction p with
  | nil => cases hx
  | cons a p ih =>
    by_cases ha : P a
    · exact ⟨[], a, p, rfl, ha, fun z hz => absurd hz List.not_mem_nil⟩
    · have hne : x ≠ a := by
        rintro rfl
        exact ha hP
      obtain ⟨s, y, e, rfl, hy, hs⟩ := ih (List.mem_of_ne_of_mem hne hx)
      refine ⟨a :: s, y, e, rfl, hy, fun z hz => ?_⟩
      rcases List.mem_cons.mp hz with rfl | hz
      · exact ha
      · exact hs z hz

namespace IsSimpleCycle

/-- **Rotation.** A cycle can be entered at any of its nodes. -/
theorem rotate (h : IsSimpleCycle r (s ++ x :: e)) : IsSimpleCycle r (x :: (e ++ s)) where
  ne_nil := List.cons_ne_nil _ _
  nodup := by
    have hperm : List.Perm (s ++ x :: e) (x :: e ++ s) := List.perm_append_comm
    exact hperm.nodup_iff.mp h.nodup
  chain := by
    cases s with
    | nil =>
      rw [List.append_nil]
      exact h.chain
    | cons a s =>
      have hchain := h.chain
      have hlist : close (a :: s ++ x :: e) = a :: s ++ x :: (e ++ [a]) := by
        rw [List.cons_append, close_cons, List.cons_append, List.append_assoc, List.cons_append]
      rw [hlist, List.isChain_split] at hchain
      -- from `x` around to `a`, and from `a` back to `x`
      have hjoin : close (x :: (e ++ a :: s)) = x :: e ++ a :: (s ++ [x]) := by
        rw [close_cons, List.append_assoc, List.cons_append, List.cons_append]
      rw [hjoin, List.isChain_split]
      exact ⟨hchain.2, hchain.1⟩

/-- **The way into a cycle.** A simple path from the root that meets the cycle, for the first time,
in the node after which it goes once around. -/
theorem exists_entry (h : IsSimpleCycle r l) (hy : y ∈ l)
    (hreach : Relation.ReflTransGen r root y) :
    ∃ s x m, (x :: m) ~r l ∧ IsSimplePath r root (s ++ x :: m) ∧ IsSimpleCycle r (x :: m) ∧
      x ∉ s := by
  obtain ⟨pre, hpath⟩ := exists_isSimplePath hreach
  obtain ⟨s, x, e, hsplit, hx, hs⟩ :=
    exists_first (P := (· ∈ l)) (List.mem_append_right pre (List.mem_singleton_self y)) hy
  rw [hsplit] at hpath
  have hway := hpath.upTo
  obtain ⟨b, c, rfl⟩ := List.append_of_mem hx
  have hrot : (x :: (c ++ b)) ~r (b ++ x :: c) := by
    rw [← List.cons_append]
    exact List.isRotated_append
  have hcycle := h.rotate
  refine ⟨s, x, c ++ b, hrot, ⟨?_, ?_, ?_⟩, hcycle, fun hmem => hs x hmem hx⟩
  · rw [← head?_append_singleton]
    exact hway.head
  · rw [List.isChain_split]
    exact ⟨hway.chain, hcycle.chain.left_of_append⟩
  · refine List.nodup_append.mpr ⟨(List.nodup_append.mp hway.nodup).1, hcycle.nodup, ?_⟩
    rintro a ha _ hmem rfl
    exact hs a ha (hrot.mem_iff.mp hmem)

/-- The last node of a cycle has an edge to the first. -/
theorem edge (h : IsSimpleCycle r (x :: e)) (hend : s ++ x :: e = pre ++ [y]) : r y x := by
  obtain ⟨t, hlast⟩ := exists_concat hend
  have hchain := h.chain
  rw [close, hlast] at hchain
  have hhead : (t ++ [y]).take 1 = [x] := by rw [← hlast]; rfl
  rw [hhead, List.append_assoc, List.singleton_append, List.isChain_split] at hchain
  exact List.isChain_pair.mp hchain.2

end IsSimpleCycle

end SimplePath
