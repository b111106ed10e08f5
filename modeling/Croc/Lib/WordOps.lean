import Mathlib.Data.BitVec

/-!
# Word arithmetic and overflow

Code on machine words is usually right because nothing in it overflows, and that is a statement
about every intermediate value, not about the result. To say it, the code is written once over an
interface for the operations that can overflow, in some monad. `wrapping` reads it as the machine
does; `checked` reads it in `Option` and fails at the first overflow.

The laws of the interface say what an operation does when it does not overflow. A fact proved from
them holds of both readings, so the result of the machine and the absence of overflow are one proof.

## Main definitions

* `WordOps`: addition, subtraction and multiplication of words of `w` bits, with their laws.
* `WordOps.wrapping`, `WordOps.checked`: the two readings.

## Main results

* `WordOps.add_ofNat`, `WordOps.sub_ofNat`, `WordOps.mul_ofNat`: the laws on words given as numbers.
-/

/-- Operations on words of `w` bits in a monad `m`. -/
structure WordOps (m : Type → Type) [Monad m] (w : ℕ) where
  /-- Addition. -/
  add : BitVec w → BitVec w → m (BitVec w)
  /-- Subtraction. -/
  sub : BitVec w → BitVec w → m (BitVec w)
  /-- Multiplication. -/
  mul : BitVec w → BitVec w → m (BitVec w)
  /-- A sum that fits. -/
  add_of_lt : ∀ x y, x.toNat + y.toNat < 2 ^ w → add x y = pure (BitVec.ofNat w (x.toNat + y.toNat))
  /-- A difference that is not negative. -/
  sub_of_le : ∀ x y, y.toNat ≤ x.toNat → sub x y = pure (BitVec.ofNat w (x.toNat - y.toNat))
  /-- A product that fits. -/
  mul_of_lt : ∀ x y, x.toNat * y.toNat < 2 ^ w → mul x y = pure (BitVec.ofNat w (x.toNat * y.toNat))

namespace WordOps

variable {w : ℕ}

theorem toNat_ofNat_of_lt {a : ℕ} (h : a < 2 ^ w) : (BitVec.ofNat w a).toNat = a := by
  rw [BitVec.toNat_ofNat, Nat.mod_eq_of_lt h]

/-- A difference that is not negative, as a word. -/
theorem ofNat_toNat_sub {x y : BitVec w} (h : y.toNat ≤ x.toNat) :
    BitVec.ofNat w (x.toNat - y.toNat) = x - y := by
  apply BitVec.eq_of_toNat_eq
  have := x.isLt
  rw [BitVec.toNat_ofNat, BitVec.toNat_sub_of_le (BitVec.le_def.mpr h)]
  exact Nat.mod_eq_of_lt (by omega)

/-- The machine: the operations wrap around. -/
def wrapping : WordOps Id w where
  add x y := x + y
  sub x y := x - y
  mul x y := x * y
  add_of_lt x y _ := by
    apply BitVec.eq_of_toNat_eq
    rfl
  sub_of_le x y h := (ofNat_toNat_sub h).symm
  mul_of_lt x y _ := by
    apply BitVec.eq_of_toNat_eq
    rfl

/-- The first overflow ends the computation. -/
def checked : WordOps Option w where
  add x y := if x.toNat + y.toNat < 2 ^ w then some (x + y) else none
  sub x y := if y.toNat ≤ x.toNat then some (x - y) else none
  mul x y := if x.toNat * y.toNat < 2 ^ w then some (x * y) else none
  add_of_lt x y h := by
    rw [if_pos h]
    exact congrArg some (BitVec.eq_of_toNat_eq rfl)
  sub_of_le x y h := by
    rw [if_pos h, ofNat_toNat_sub h]
    rfl
  mul_of_lt x y h := by
    rw [if_pos h]
    exact congrArg some (BitVec.eq_of_toNat_eq rfl)

/-! ### The laws on numbers -/

section OfNat

variable {m : Type → Type} [Monad m] (ops : WordOps m w) {a b : ℕ}

/-- A sum of numbers that fits. -/
theorem add_ofNat (h : a + b < 2 ^ w) :
    ops.add (BitVec.ofNat w a) (BitVec.ofNat w b) = pure (BitVec.ofNat w (a + b)) := by
  have ha : (BitVec.ofNat w a).toNat = a := toNat_ofNat_of_lt (by omega)
  have hb : (BitVec.ofNat w b).toNat = b := toNat_ofNat_of_lt (by omega)
  rw [ops.add_of_lt _ _ (by rwa [ha, hb]), ha, hb]

/-- A difference of numbers that is not negative. -/
theorem sub_ofNat (ha : a < 2 ^ w) (h : b ≤ a) :
    ops.sub (BitVec.ofNat w a) (BitVec.ofNat w b) = pure (BitVec.ofNat w (a - b)) := by
  have ha' : (BitVec.ofNat w a).toNat = a := toNat_ofNat_of_lt ha
  have hb' : (BitVec.ofNat w b).toNat = b := toNat_ofNat_of_lt (by omega)
  rw [ops.sub_of_le _ _ (by rwa [ha', hb']), ha', hb']

/-- A product of numbers that fits. -/
theorem mul_ofNat (ha : a < 2 ^ w) (hb : b < 2 ^ w) (h : a * b < 2 ^ w) :
    ops.mul (BitVec.ofNat w a) (BitVec.ofNat w b) = pure (BitVec.ofNat w (a * b)) := by
  have ha' : (BitVec.ofNat w a).toNat = a := toNat_ofNat_of_lt ha
  have hb' : (BitVec.ofNat w b).toNat = b := toNat_ofNat_of_lt hb
  rw [ops.mul_of_lt _ _ (by rwa [ha', hb']), ha', hb']

end OfNat

end WordOps
