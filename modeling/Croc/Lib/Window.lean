import Mathlib.Data.Int.ModEq
import Mathlib.Tactic.Common
import Mathlib.Tactic.Ring
import Mathlib.Tactic.Linarith

/-!
# Residues seen through a sliding window

A compressed bound keeps only the residue of the bound modulo a window `W`. The rest is borrowed
from an address near it: of all integers with that residue, the bound is the greatest one that is
not above the address. `Window.anchor` names that integer. It is the same for every address in the
window of length `W` that starts there, which is why such an address may be moved freely inside the
window and nowhere else.

## Main definitions

* `Window.anchor W r a`: the greatest integer at most `a` that is congruent to `r` modulo `W`.

## Main results

* `Window.anchor_unique`: the anchor is the only such integer less than `W` below `a`.
* `Window.anchor_eq_anchor`: the anchor is the same throughout its window.
* `Window.anchor_eq_region`: the anchor from the aligned region of `a`, one region lower when the
  residue of `a` is below `r`.
-/

namespace Window

variable {W r a x p : ℤ}

/-- The greatest integer at most `a` that is congruent to `r` modulo `W`. -/
def anchor (W r a : ℤ) : ℤ := a - (a - r) % W

/-- The window starts at or below the point, -/
theorem anchor_le (hW : 0 < W) : anchor W r a ≤ a := by
  have := Int.emod_nonneg (a - r) hW.ne'
  unfold anchor
  omega

/-- and ends above it. -/
theorem lt_anchor_add (hW : 0 < W) : a < anchor W r a + W := by
  have := Int.emod_lt_of_pos (a - r) hW
  unfold anchor
  omega

theorem anchor_emod : anchor W r a % W = r % W := by
  have h : anchor W r a = r + W * ((a - r) / W) := by
    have := Int.mul_ediv_add_emod (a - r) W
    unfold anchor
    omega
  rw [h, Int.add_mul_emod_self_left]

/-- There is only one such start. -/
theorem anchor_unique (hx : x % W = r % W) (hle : x ≤ a) (hlt : a < x + W) :
    anchor W r a = x := by
  have h : (a - r) % W = a - x := by
    rw [Int.sub_emod, ← hx, ← Int.sub_emod]
    exact Int.emod_eq_of_lt (by omega) (by omega)
  unfold anchor
  omega

/-- The anchor is the same throughout the window it opens. -/
theorem anchor_eq_anchor (h1 : anchor W r a ≤ p) (h2 : p < anchor W r a + W) :
    anchor W r p = anchor W r a :=
  anchor_unique anchor_emod h1 h2

/-- The anchor lies in the aligned region of `a`, or in the one below it when the residue of `a`
has not yet reached `r`. -/
theorem anchor_eq_region (hr0 : 0 ≤ r) (hr : r < W) :
    anchor W r a = (a / W + if a % W < r then -1 else 0) * W + r := by
  have ha := Int.mul_ediv_add_emod a W
  have h0 := Int.emod_nonneg a (show W ≠ 0 by omega)
  have hlt := Int.emod_lt_of_pos a (show 0 < W by omega)
  refine anchor_unique ?_ ?_ ?_
  · rw [Int.add_comm, Int.add_mul_emod_self_right]
  all_goals
    split
    all_goals
      rw [Int.add_mul, Int.mul_comm (a / W) W]
      omega

end Window
