import Croc.Lib.SimplePath
import Mathlib.Data.Finset.Sort
import Mathlib.Data.Finset.Union

/-!
# The longest simple path

`longest_simple_path` of `analyze_trusted_stack.py` searches the graph of compartments depth first.
It follows every simple path from the root and remembers the first longest one; where an edge leads
back to the path it reports the cycle that closes there.

The search calls itself once for every simple path from the root. That is the whole proof: the calls
are described by a relation that mirrors the recursion, and the relation is that of extending a
simple path.

## Main definitions

* `Graph`: a dictionary from nodes to sets of nodes.
* `visit`, `longestSimplePath`: the search.
* `Calls`: the calls that a call makes.

## Main results

* `calls_root_iff`: the calls are the simple paths from the root.
* `visit_cycles`, `visit_best`: what a call reports, and the path it leaves as the longest.
* `longestSimplePath_complete`: the path is a longest one, and the cycles are the reachable ones.
-/

namespace Croc

namespace TrustedStack

open SimplePath

/-! ### The search -/

/-- `Graph`: a dictionary from nodes to sets of nodes. -/
structure Graph (α : Type*) where
  /-- The keys. -/
  keys : Finset α
  /-- The set of a key. -/
  sets : α → Finset α

variable {α : Type*} [LinearOrder α]

/-- `graph.get(node, ())`. -/
def Graph.get (g : Graph α) (node : α) : Finset α := if node ∈ g.keys then g.sets node else ∅

/-- The edges of a graph. -/
def Graph.Edge (g : Graph α) (a b : α) : Prop := b ∈ g.get a

/-- The nodes that some edge leads to. -/
def Graph.targets (g : Graph α) : Finset α := g.keys.biUnion g.sets

/-- The variables `best` and `cycles`. -/
structure Search (α : Type*) where
  /-- `best`. -/
  best : List α
  /-- `cycles`. -/
  cycles : Finset (List α)

/-- The start of `visit`: a path that is longer than the best one replaces it. -/
def Search.enter (st : Search α) (path : List α) : Search α :=
  if st.best.length < path.length then { st with best := path } else st

/-- The edge to `target` closes a cycle. -/
def Search.addCycle (st : Search α) (path : List α) (target : α) : Search α :=
  { st with cycles := insert (path.drop (path.idxOf target) ++ [target]) st.cycles }

/-- There are fewer nodes left off the path once it goes on. -/
theorem card_off_path_lt {g : Graph α} {path : List α} {current target : α}
    (ht : target ∈ (g.get current).sort) (hnew : target ∉ path) :
    (g.targets \ (path ++ [target]).toFinset).card < (g.targets \ path.toFinset).card := by
  apply Finset.card_lt_card
  rw [Finset.mem_sort, Graph.get] at ht
  have hmem : target ∈ g.targets := by
    split_ifs at ht with hkey
    · exact Finset.mem_biUnion.mpr ⟨current, hkey, ht⟩
    · exact absurd ht (Finset.notMem_empty _)
  refine Finset.ssubset_iff_of_subset ?_ |>.mpr ⟨target, ?_, ?_⟩
  · intro x hx
    simp only [Finset.mem_sdiff, List.mem_toFinset, List.mem_append] at hx ⊢
    exact ⟨hx.1, fun h => hx.2 (.inl h)⟩
  · simp [hmem, hnew]
  · simp

/-- `visit` on the path `pre ++ [current]`. -/
def visit (g : Graph α) (pre : List α) (current : α) (st : Search α) : Search α :=
  (g.get current).sort.attach.foldl
    (fun st target =>
      if h : target.1 ∈ pre ++ [current] then st.addCycle (pre ++ [current]) target.1
      else visit g (pre ++ [current]) target.1 st)
    (st.enter (pre ++ [current]))
termination_by (g.targets \ (pre ++ [current]).toFinset).card
decreasing_by exact card_off_path_lt target.2 h

/-- `longest_simple_path`. -/
def longestSimplePath (root : α) (g : Graph α) : List α × Finset (List α) :=
  ((visit g [] root ⟨[root], ∅⟩).best, (visit g [] root ⟨[root], ∅⟩).cycles)

/-- What the loop of `visit` does with one target. -/
def explore (g : Graph α) (path : List α) (st : Search α) (target : α) : Search α :=
  if target ∈ path then st.addCycle path target else visit g path target st

theorem visit_eq (g : Graph α) (pre : List α) (current : α) (st : Search α) :
    visit g pre current st =
      (g.get current).sort.foldl (explore g (pre ++ [current])) (st.enter (pre ++ [current])) := by
  rw [visit]
  exact List.foldl_attach (f := explore g (pre ++ [current]))

/-! ### The calls -/

/-- The call for `pre ++ [current]` makes the call for `pre' ++ [current']`, at some depth. -/
inductive Calls (g : Graph α) : List α → α → List α → α → Prop
  | here (pre : List α) (current : α) : Calls g pre current pre current
  | step {pre pre' : List α} {current target current' : α} (hedge : g.Edge current target)
      (hnew : target ∉ pre ++ [current]) (h : Calls g (pre ++ [current]) target pre' current') :
      Calls g pre current pre' current'

variable {g : Graph α} {pre pre' : List α} {current current' target root : α} {c : List α}
  {st : Search α}

/-- One call further. -/
theorem Calls.snoc (h : Calls g pre current pre' current') (hedge : g.Edge current' target)
    (hnew : target ∉ pre' ++ [current']) :
    Calls g pre current (pre' ++ [current']) target := by
  induction h with
  | here pre current => exact .step hedge hnew (.here _ _)
  | step hedge' hnew' _ ih => exact .step hedge' hnew' (ih hedge hnew)

theorem Calls.isSimplePath (h : Calls g pre current pre' current')
    (hpath : IsSimplePath g.Edge root (pre ++ [current])) :
    IsSimplePath g.Edge root (pre' ++ [current']) := by
  induction h with
  | here => exact hpath
  | step hedge hnew _ ih => exact ih (hpath.snoc hedge hnew)

/-- **The calls are the simple paths** from the root. -/
theorem calls_root_iff :
    Calls g [] root pre current ↔ IsSimplePath g.Edge root (pre ++ [current]) := by
  constructor
  · intro h
    exact h.isSimplePath (isSimplePath_singleton g.Edge root)
  · intro h
    induction pre using List.reverseRecOn generalizing current with
    | nil =>
      cases h.head
      exact .here _ _
    | append_singleton pre y ih =>
      have hlist : pre ++ [y] ++ [current] = pre ++ y :: [current] := by
        rw [List.append_assoc, List.singleton_append]
      rw [hlist] at h
      have hedge : g.Edge y current := List.isChain_pair.mp (List.isChain_split.mp h.chain).2
      have hnew : current ∉ pre ++ [y] := by
        intro hmem
        have hnodup := h.nodup
        rw [← hlist] at hnodup
        exact (List.nodup_append.mp hnodup).2.2 current hmem current (List.mem_singleton_self _) rfl
      exact (ih h.upTo).snoc hedge hnew

/-! ### What a call keeps and reaches -/

/-- **What every call keeps**, a call keeps. -/
theorem visit_keeps {P : Search α → Prop}
    (henter : ∀ pre' current', Calls g pre current pre' current' →
      ∀ st, P st → P (st.enter (pre' ++ [current'])))
    (hcycle : ∀ pre' current' target, Calls g pre current pre' current' → g.Edge current' target →
      target ∈ pre' ++ [current'] → ∀ st, P st → P (st.addCycle (pre' ++ [current']) target))
    (st : Search α) (h : P st) : P (visit g pre current st) := by
  -- the recursion is on the nodes off the path
  induction hn : (g.targets \ (pre ++ [current]).toFinset).card using Nat.strong_induction_on
    generalizing pre current st with
  | _ n ih =>
    rw [visit_eq]
    refine List.foldlRecOn _ _ (henter pre current (.here _ _) st h) fun st hst target ht => ?_
    have hedge : g.Edge current target := Finset.mem_sort _ |>.mp ht
    rw [explore]
    split_ifs with hmem
    · exact hcycle pre current target (.here _ _) hedge hmem st hst
    · refine ih _ (hn ▸ card_off_path_lt ht hmem) ?_ ?_ st hst rfl
      · intro pre' current' hcall
        exact henter pre' current' (.step hedge hmem hcall)
      · intro pre' current' target' hcall
        exact hcycle pre' current' target' (.step hedge hmem hcall)

/-- A property of searches that no step takes away. -/
structure Stable (P : Search α → Prop) : Prop where
  /-- A longer path does not. -/
  enter : ∀ path st, P st → P (st.enter path)
  /-- A cycle does not. -/
  addCycle : ∀ path target st, P st → P (st.addCycle path target)

variable {P : Search α → Prop}

theorem Stable.visit (hP : Stable P) (h : P st) : P (visit g pre current st) :=
  visit_keeps (fun _ _ _ => hP.enter _) (fun _ _ _ _ _ _ => hP.addCycle _ _) st h

theorem Stable.explore (hP : Stable P) {path : List α} (h : P st) :
    P (explore g path st target) := by
  rw [TrustedStack.explore]
  split_ifs
  · exact hP.addCycle _ _ _ h
  · exact hP.visit h

/-- What the loop does with one target is not lost in the others. -/
theorem Stable.loop (hP : Stable P) (hedge : g.Edge current target)
    (h : ∀ st, P (TrustedStack.explore g (pre ++ [current]) st target)) (st : Search α) :
    P (TrustedStack.visit g pre current st) := by
  obtain ⟨before, after, hsplit⟩ := List.append_of_mem ((Finset.mem_sort (· ≤ ·)).mpr hedge)
  rw [visit_eq, hsplit, List.foldl_append, List.foldl_cons]
  exact List.foldlRecOn _ _ (h _) fun st hst _ _ => hP.explore hst

/-- **What one call reaches**, the calls above it reach. -/
theorem Stable.reaches (hP : Stable P) (hcall : Calls g pre current pre' current')
    (h : ∀ st, P (TrustedStack.visit g pre' current' st)) (st : Search α) :
    P (TrustedStack.visit g pre current st) := by
  induction hcall generalizing st with
  | here => exact h st
  | step hedge hnew _ ih =>
    refine hP.loop hedge (fun st => ?_) st
    rw [TrustedStack.explore, if_neg hnew]
    exact ih h st

/-- What the start of a call reaches is not lost in its loop. -/
theorem Stable.enters (hP : Stable P) (h : P (st.enter (pre ++ [current]))) :
    P (TrustedStack.visit g pre current st) := by
  rw [visit_eq]
  exact List.foldlRecOn (motive := P) _ _ h fun _ hst _ _ => hP.explore hst

/-! ### The longest path -/

theorem stable_length_le (n : ℕ) : Stable fun st : Search α => n ≤ st.best.length where
  enter path st h := by
    rw [Search.enter]
    split_ifs with hlt
    · exact h.trans hlt.le
    · exact h
  addCycle _ _ _ h := h

omit [LinearOrder α] in
theorem length_le_enter (path : List α) (st : Search α) :
    path.length ≤ (st.enter path).best.length := by
  rw [Search.enter]
  split_ifs with hlt
  · exact le_rfl
  · exact not_lt.mp hlt

/-- No call is for a longer path than the best one. -/
theorem Calls.length_le_best (h : Calls g pre current pre' current') (st : Search α) :
    (pre' ++ [current']).length ≤ (visit g pre current st).best.length := by
  have hstable : Stable fun st : Search α => (pre' ++ [current']).length ≤ st.best.length :=
    stable_length_le _
  exact hstable.reaches h (fun st => hstable.enters (length_le_enter _ st)) st

/-- The best path is a simple path from the root. -/
theorem isSimplePath_best (g : Graph α) (root : α) :
    IsSimplePath g.Edge root (longestSimplePath root g).1 := by
  refine visit_keeps (P := fun st => IsSimplePath g.Edge root st.best) ?_ ?_ _
    (isSimplePath_singleton g.Edge root)
  · intro pre current hcall st hst
    rw [Search.enter]
    split_ifs
    · exact calls_root_iff.mp hcall
    · exact hst
  · intro pre current target _ _ _ st hst
    exact hst

/-- No simple path from the root is longer than the best one. -/
theorem length_le_best {p : List α} (h : IsSimplePath g.Edge root p) :
    p.length ≤ (longestSimplePath root g).1.length := by
  obtain ⟨pre, current, rfl⟩ := List.eq_nil_or_concat' p |>.resolve_left h.ne_nil
  exact (calls_root_iff.mpr h).length_le_best _

/-! ### The cycles -/

/-- The path from the place of `target` on. -/
theorem drop_idxOf {s m : List α} (h : target ∉ s) :
    (s ++ target :: m).drop ((s ++ target :: m).idxOf target) = target :: m := by
  rw [List.idxOf_append_of_notMem h, List.idxOf_cons_self, Nat.add_zero, List.drop_left]

/-- **Every reported cycle** is a simple one that can be reached. -/
theorem isSimpleCycle_of_mem_cycles (h : c ∈ (longestSimplePath root g).2) :
    ∃ l, c = close l ∧ IsSimpleCycle g.Edge l ∧ ∀ x ∈ l, Relation.ReflTransGen g.Edge root x := by
  refine visit_keeps (P := fun st => ∀ c ∈ st.cycles, ∃ l, c = close l ∧ IsSimpleCycle g.Edge l ∧
    ∀ x ∈ l, Relation.ReflTransGen g.Edge root x) ?_ ?_ _ ?_ c h
  · intro pre current _ st hst c hc
    rw [Search.enter] at hc
    split_ifs at hc <;> exact hst c hc
  · intro pre current target hcall hedge hmem st hst c hc
    rcases Finset.mem_insert.mp hc with rfl | hc
    · have hpath := calls_root_iff.mp hcall
      obtain ⟨s, x, m, hsplit, rfl, hs⟩ := exists_first (P := (· = target)) hmem rfl
      have hnew : x ∉ s := fun hx => hs x hx rfl
      have hpath' := hsplit ▸ hpath
      refine ⟨x :: m, ?_, hpath'.isSimpleCycle hsplit.symm hedge, fun y hy => ?_⟩
      · rw [hsplit, drop_idxOf hnew, close_cons, List.cons_append]
      · exact hpath'.reaches (List.mem_append_right s hy)
    · exact hst c hc
  · intro c hc
    exact absurd hc (Finset.notMem_empty c)

theorem stable_mem_cycles (c : List α) : Stable fun st => c ∈ st.cycles where
  enter path st h := by
    rw [Search.enter]
    split_ifs <;> exact h
  addCycle _ _ _ h := Finset.mem_insert_of_mem h

/-- **Every simple cycle** that can be reached is reported, from the node on where a simple path
first meets it. -/
theorem exists_mem_cycles {l : List α} {y : α} (h : IsSimpleCycle g.Edge l) (hy : y ∈ l)
    (hreach : Relation.ReflTransGen g.Edge root y) :
    ∃ l', l' ~r l ∧ close l' ∈ (longestSimplePath root g).2 := by
  obtain ⟨s, x, m, hrot, hpath, hcycle, hx⟩ := h.exists_entry hy hreach
  refine ⟨x :: m, hrot, ?_⟩
  -- the call for the path that goes once around the cycle reports it
  obtain ⟨pre, current, hend⟩ := List.eq_nil_or_concat' (s ++ x :: m) |>.resolve_left hpath.ne_nil
  have hmem : x ∈ pre ++ [current] := by
    rw [← hend]
    exact List.mem_append_right s List.mem_cons_self
  have hstable := stable_mem_cycles (close (x :: m))
  refine hstable.reaches (calls_root_iff.mpr (hend ▸ hpath)) ?_ _
  refine hstable.loop (hcycle.edge hend) fun st => ?_
  rw [explore, if_pos hmem, Search.addCycle, ← hend, drop_idxOf hx]
  exact Finset.mem_insert_self _ _

/-- **The search is complete.** For every graph and root it returns a simple path from the root that
no other is longer than, and the simple cycles that can be reached, each in at least one
rotation. -/
theorem longestSimplePath_complete (g : Graph α) (root : α) :
    (IsSimplePath g.Edge root (longestSimplePath root g).1 ∧
      ∀ p, IsSimplePath g.Edge root p → p.length ≤ (longestSimplePath root g).1.length) ∧
    (∀ c ∈ (longestSimplePath root g).2, ∃ l, c = close l ∧ IsSimpleCycle g.Edge l ∧
      ∀ x ∈ l, Relation.ReflTransGen g.Edge root x) ∧
    ∀ l, IsSimpleCycle g.Edge l → (∃ x ∈ l, Relation.ReflTransGen g.Edge root x) →
      ∃ l', l' ~r l ∧ close l' ∈ (longestSimplePath root g).2 := by
  refine ⟨⟨isSimplePath_best g root, fun p => length_le_best⟩, fun c => isSimpleCycle_of_mem_cycles,
    ?_⟩
  rintro l hcycle ⟨x, hx, hreach⟩
  exact exists_mem_cycles hcycle hx hreach

end TrustedStack

end Croc
