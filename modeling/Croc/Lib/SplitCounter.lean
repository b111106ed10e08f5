import Mathlib.Order.Basic
import Mathlib.Tactic.Linarith

/-!
# A counter read in two halves

A counter that is wider than the bus is read in two accesses, the upper half and the lower half. If
it moves in between, the halves belong to two different values, and what they are put together to is
a value the counter may never have had.

All values here are natural numbers, and `B` is the size of the lower half. What a bus of a fixed
width returns are the halves of the value; a counter that wraps around is the remainder of one that
does not.

## Main results

* `join_le`: put together from an earlier upper half, the value is never too large.
* `le_join_iff`: it is not too small exactly if no roll-over of the lower half has been missed.
* `join_eq_of_div_eq`: with the same upper half before and after, it is the value in between.
-/

namespace SplitCounter

variable {B a b c d : ℕ}

/-- The value put together from the upper half of `b` and the lower half of `c`. -/
def join (B b c : ℕ) : ℕ := B * (b / B) + c % B

/-- The halves of one value. -/
@[simp] theorem join_self (B a : ℕ) : join B a a = a := Nat.div_add_mod a B

theorem join_eq_of_div_eq_left (h : b / B = c / B) : join B b c = c := by
  rw [join, h, Nat.div_add_mod]

/-- The upper half is read first, so the value is at most the one the lower half is taken from. -/
theorem join_le (h : b ≤ c) : join B b c ≤ c := by
  have hdiv : B * (b / B) ≤ B * (c / B) := Nat.mul_le_mul_left B (Nat.div_le_div_right h)
  have hc := Nat.div_add_mod c B
  rw [join]
  omega

theorem lt_join_add (hB : 0 < B) : b < join B b c + B := by
  have hb := Nat.div_add_mod b B
  have hmod := Nat.mod_lt b hB
  rw [join]
  omega

/-- **A torn read.** Of a counter that goes from `a` over `b` to `c`, the upper half of `b` and the
lower half of `c` make a value of at least `a` exactly if the upper half is still that of `c`, or
has moved since `a`, or the lower half is not below that of `a`. -/
theorem le_join_iff (hB : 0 < B) (hab : a ≤ b) (hbc : b ≤ c) :
    a ≤ join B b c ↔ b / B = c / B ∨ a / B < b / B ∨ a % B ≤ c % B := by
  have ha := Nat.div_add_mod a B
  have hamod := Nat.mod_lt a hB
  have hdiv : a / B ≤ b / B := Nat.div_le_div_right hab
  constructor
  · intro h
    rcases hdiv.lt_or_eq with hlt | heq
    · exact Or.inr (Or.inl hlt)
    · rw [join, ← heq] at h
      exact Or.inr (Or.inr (by omega))
  · rintro (heq | hlt | hmod)
    · rw [join_eq_of_div_eq_left heq]
      exact hab.trans hbc
    · have hmul : B * (a / B + 1) ≤ B * (b / B) := Nat.mul_le_mul_left B hlt
      rw [Nat.mul_add, Nat.mul_one] at hmul
      rw [join]
      omega
    · have hmul : B * (a / B) ≤ B * (b / B) := Nat.mul_le_mul_left B hdiv
      rw [join]
      omega

/-- **A checked read.** If the upper half is the same before and after the lower half is read, the
value is the one that the lower half is taken from. -/
theorem join_eq_of_div_eq (hbc : b ≤ c) (hcd : c ≤ d) (h : b / B = d / B) : join B d c = c := by
  have h1 : b / B ≤ c / B := Nat.div_le_div_right hbc
  have h2 : c / B ≤ d / B := Nat.div_le_div_right hcd
  exact join_eq_of_div_eq_left (by omega)

end SplitCounter
