import Mathlib.Data.List.Basic
import Mathlib.Data.List.Infix
import Mathlib.Data.List.Nodup

/-!
# Streams dealt to lanes

A stream is kept in several queues, one for each lane: an element enters the queue of its lane, and
a reader takes the heads of several lanes at once. The queues remember the order within a lane only.
The order between lanes comes back if the reader asks for the lanes in the order in which they were
dealt: as long as one portion holds every lane at most once, the heads it takes are the oldest
elements of the stream.

## Main definitions

* `lane s k`: what the queue of lane `k` holds of the stream `s`.

## Main results

* `lane_append`, `lane_of_mem`, `lane_of_not_mem`: a portion adds at most one element to a lane.
* `prefix_of_ready`: a portion whose lanes all hold an element is at the front of the stream.
* `map_head_isPrefix`: the heads of its lanes are the first elements of the stream.
-/

namespace Lanes

variable {κ α : Type*} [DecidableEq κ]

/-- The elements of the stream that were dealt to lane `k`, oldest first. -/
def lane (s : List (κ × α)) (k : κ) : List α := (s.filter fun p => p.1 = k).map Prod.snd

variable {s s' : List (κ × α)} {k : κ}

@[simp] theorem lane_nil : lane ([] : List (κ × α)) k = [] := rfl

@[simp] theorem lane_append : lane (s ++ s') k = lane s k ++ lane s' k := by
  simp [lane]

theorem mem_labels_of_lane_ne_nil (h : lane s k ≠ []) : k ∈ s.map Prod.fst := by
  obtain ⟨a, ha⟩ := List.exists_mem_of_ne_nil _ h
  obtain ⟨p, hp, -⟩ := List.mem_map.mp ha
  obtain ⟨hps, hpk⟩ := List.mem_filter.mp hp
  exact List.mem_map.mpr ⟨p, hps, by simpa using hpk⟩

theorem lane_of_not_mem (h : k ∉ s.map Prod.fst) : lane s k = [] := by
  by_contra hne
  exact h (mem_labels_of_lane_ne_nil hne)

/-- A portion that holds a lane once gives it one element. -/
theorem lane_of_mem {a : α} (hnd : (s.map Prod.fst).Nodup) (h : (k, a) ∈ s) : lane s k = [a] := by
  induction s with
  | nil => cases h
  | cons p s ih =>
    rw [List.map_cons, List.nodup_cons] at hnd
    rcases List.mem_cons.mp h with rfl | hs
    · have hrest : lane s k = [] := lane_of_not_mem hnd.1
      simpa [lane] using hrest
    · have hne : p.1 ≠ k := by
        rintro rfl
        exact hnd.1 (List.mem_map.mpr ⟨_, hs, rfl⟩)
      simpa [lane, hne] using ih hnd.2 hs

/-- **The portion rule.** The stream follows the order `dealt` of the lanes, and a portion asks for
lanes at the front of that order, each once. If all its lanes hold an element, the stream starts
with the portion. -/
theorem prefix_of_ready {dealt portion : List κ} (hs : s.map Prod.fst <+: dealt)
    (hp : portion <+: dealt)
    (hnd : portion.Nodup) (hready : ∀ k ∈ portion, lane s k ≠ []) : portion <+: s.map Prod.fst := by
  rcases List.prefix_or_prefix_of_prefix hp hs with h | h
  · exact h
  · -- the stream is shorter than the portion: the next lane of the portion would be empty
    obtain ⟨rest, hrest⟩ := h
    cases rest with
    | nil => exact ⟨[], by rw [List.append_nil] at hrest ⊢; exact hrest.symm⟩
    | cons k rest =>
      have hk : k ∈ portion := hrest ▸ List.mem_append_right _ (List.mem_cons_self ..)
      have hmem := mem_labels_of_lane_ne_nil (hready k hk)
      rw [← hrest] at hnd
      exact absurd hmem ((List.nodup_append.mp hnd).2.2 k · k (List.mem_cons_self ..) rfl)

/-- The heads of the lanes of a portion at the front of the stream are its first elements. -/
theorem map_head_isPrefix {portion : List κ} {f : κ → α} (hp : portion <+: s.map Prod.fst)
    (hnd : portion.Nodup)
    (hf : ∀ k ∈ portion, (lane s k).head? = some (f k)) :
    portion.map (fun k => (k, f k)) <+: s := by
  obtain ⟨rest, hrest⟩ := hp
  obtain ⟨P, R, hs, hP, -⟩ := List.map_eq_append_iff.mp hrest.symm
  refine ⟨R, ?_⟩
  subst hs
  congr 1
  rw [← hP, List.map_map]
  have helem : ∀ x ∈ P, (x.1, f x.1) = x := by
    rintro ⟨k, a⟩ hx
    have hk : k ∈ portion := hP ▸ List.mem_map_of_mem hx
    have hlane : lane P k = [a] := lane_of_mem (hP ▸ hnd) hx
    have hhead := hf k hk
    rw [lane_append, hlane] at hhead
    exact congrArg (Prod.mk k) (Option.some.inj hhead).symm
  exact (List.map_congr_left helem).trans (List.map_id P)

end Lanes
