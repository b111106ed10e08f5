import Mathlib.Data.Fin.Basic
import Mathlib.Data.List.Basic
import Mathlib.Data.Nat.ModEq
import Mathlib.Logic.Function.Basic

/-!
# Ring buffers

A memory of `n` cells is used as a ring: what it holds starts at a read pointer and goes on, past
the last cell, at the first. The contents are a list, whose two ends are the two operations of a
FIFO.

## Main definitions

* `Ring.contents`: the cells from the read pointer on.

## Main results

* `Ring.contents_cons`: the cell at the read pointer is the first.
* `Ring.drop_contents`: the read pointer moves on over what leaves.
* `Ring.contents_push`: a cell that is written behind the last becomes the last.
-/

namespace Ring

variable {α : Type*} {n : ℕ} [NeZero n]

/-- The contents of `c` cells of the ring, from place `r` on. -/
def contents (mem : Fin n → α) (r c : ℕ) : List α :=
  (List.range c).map fun k => mem (Fin.ofNat n (r + k))

variable (mem : Fin n → α) (r c : ℕ)

@[simp] theorem contents_zero : contents mem r 0 = [] := rfl

@[simp] theorem length_contents : (contents mem r c).length = c := by simp [contents]

/-- The cell at the read pointer comes first. -/
theorem contents_cons : contents mem r (c + 1) = mem (Fin.ofNat n r) :: contents mem (r + 1) c := by
  rw [contents, List.range_succ_eq_map, List.map_cons, List.map_map, contents, Nat.add_zero]
  congr 1
  refine List.map_congr_left fun k _ => ?_
  rw [Function.comp_apply, Nat.succ_eq_add_one, Nat.add_assoc, Nat.add_comm 1 k]

theorem contents_concat :
    contents mem r (c + 1) = contents mem r c ++ [mem (Fin.ofNat n (r + c))] := by
  rw [contents, List.range_succ, List.map_append, List.map_singleton, ← contents]

/-- The read pointer moves on over what leaves. -/
theorem drop_contents (o : ℕ) : (contents mem r (c + o)).drop o = contents mem (r + o) c := by
  induction o generalizing r with
  | zero => rfl
  | succ o ih =>
    rw [← Nat.add_assoc, contents_cons, List.drop_succ_cons, ih, Nat.add_assoc, Nat.add_comm 1 o]

/-- The read pointer may wrap. -/
theorem contents_mod : contents mem (r % n) c = contents mem r c := by
  refine List.map_congr_left fun k _ => congrArg mem ?_
  rw [Fin.ext_iff, Fin.val_ofNat, Fin.val_ofNat, Nat.mod_add_mod]

variable {c}

/-- The cells of a ring are different as long as it is not used twice round. -/
theorem ofNat_add_ne {k : ℕ} (hk : k < c) (hc : c < n) :
    Fin.ofNat n (r + k) ≠ Fin.ofNat n (r + c) := by
  intro heq
  have hmod : r + k ≡ r + c [MOD n] := congrArg Fin.val heq
  have hkc : k % n = c % n := Nat.ModEq.add_left_cancel' r hmod
  rw [Nat.mod_eq_of_lt (hk.trans hc), Nat.mod_eq_of_lt hc] at hkc
  omega

/-- A cell behind the last is not seen. -/
theorem contents_update (hc : c < n) (x : α) :
    contents (Function.update mem (Fin.ofNat n (r + c)) x) r c = contents mem r c := by
  refine List.map_congr_left fun k hk => Function.update_of_ne ?_ _ _
  exact ofNat_add_ne r (List.mem_range.mp hk) hc

/-- A cell that is written behind the last becomes the last. -/
theorem contents_push (hc : c < n) (x : α) :
    contents (Function.update mem (Fin.ofNat n (r + c)) x) r (c + 1) = contents mem r c ++ [x] := by
  rw [contents_concat, contents_update mem r hc, Function.update_self]

end Ring
