import Mathlib.Data.List.Basic
import Mathlib.Data.List.Infix

/-!
# Groups with an end mark

A stream of groups in which the last element of every group is marked, and no other. Whoever follows
the stream and counts the marks knows how many groups are complete.

## Main definitions

* `Ends p g`: the last element of `g` is marked by `p`, and no other.

## Main results

* `take_countP`: what has been seen of the stream is as many whole groups as marks, and a rest
  without a mark.
-/

namespace Groups

variable {α β : Type*} {p : β → Bool}

/-- The last element is marked, and no other. -/
def Ends (p : β → Bool) (g : List β) : Prop :=
  ∃ l b, g = l ++ [b] ∧ p b = true ∧ ∀ x ∈ l, p x = false

theorem countP_eq_zero {l : List β} (h : ∀ x ∈ l, p x = false) : l.countP p = 0 :=
  List.countP_eq_zero.mpr fun x hx => by rw [h x hx]; exact Bool.false_ne_true

/-- A group has one mark. -/
theorem Ends.countP {g : List β} (h : Ends p g) : g.countP p = 1 := by
  obtain ⟨l, b, rfl, hb, hl⟩ := h
  rw [List.countP_append, countP_eq_zero hl, List.countP_singleton, if_pos hb]

/-- **The counting rule.** A prefix of the stream has as many whole groups as marks, and then no
mark. -/
theorem take_countP {f : α → List β} {T : List α} (hT : ∀ a ∈ T, Ends p (f a)) {A : List β}
    (hA : A <+: T.flatMap f) :
    ∃ rest, A = (T.take (A.countP p)).flatMap f ++ rest ∧ ∀ x ∈ rest, p x = false := by
  induction T generalizing A with
  | nil =>
    obtain rfl := List.prefix_nil.mp hA
    exact ⟨[], rfl, fun x hx => absurd hx List.not_mem_nil⟩
  | cons a T ih =>
    have hend := hT a (List.mem_cons_self ..)
    have hcount := hend.countP
    obtain ⟨l, b, hf, hb, hl⟩ := hend
    rw [List.flatMap_cons] at hA
    have hcase : (∀ x ∈ A, p x = false) ∨ ∃ B, A = f a ++ B := by
      rcases List.prefix_or_prefix_of_prefix hA (List.prefix_append _ _) with h | ⟨B, rfl⟩
      · rw [hf, List.prefix_concat_iff] at h
        rcases h with rfl | h
        · exact .inr ⟨[], by rw [hf, List.append_nil]⟩
        · exact .inl fun x hx => hl x (h.subset hx)
      · exact .inr ⟨B, rfl⟩
    rcases hcase with hnone | ⟨B, rfl⟩
    · refine ⟨A, ?_, hnone⟩
      rw [countP_eq_zero hnone]
      rfl
    · obtain ⟨rest, hB, hrest⟩ := ih (fun a ha => hT a (List.mem_cons_of_mem _ ha))
        ((List.prefix_append_right_inj _).mp hA)
      refine ⟨rest, ?_, hrest⟩
      rw [List.countP_append, hcount, Nat.add_comm, List.take_succ_cons, List.flatMap_cons,
        List.append_assoc, ← hB]

end Groups
