import Mathlib.Data.BitVec
import Mathlib.Tactic.Common

/-!
# Bit vectors as numbers

Facts that turn the mask and shift idioms of a datapath into arithmetic on the numbers behind the
vectors: masking off low bits is rounding down, merging disjoint fields is addition.

## Main definitions

* `Bits.Word`: a word of 32 bits.
* `Bits.ofFn`: the vector with given bits.
* `Bits.mergeBytes`: a word after a byte-enabled write.
* `Bits.byteMask`: byte enables as a mask of bits.
* `Bits.high`, `Bits.low`: the halves of a double word.

## Main results

* `Bits.toNat_and_mask`: masking with ones above bit `k` rounds down to a multiple of `2 ^ k`.
* `Bits.toNat_or_of_lt`: merging a small field into a vector with zero low bits is addition.
* `Bits.and_not_mask_eq_zero_iff`: no bit is set below bit `k` exactly for multiples of `2 ^ k`.
* `Bits.toNat_extractLsb'_append_zero`: replacing low bits by zeros rounds down as well.
* `Bits.getLsbD_mergeBytes`: a byte-enabled write, bit by bit.
* `Bits.and_byteMask_merges_iff`: when masking the new word is as good as merging it into the old
  one.
* `Bits.and_not_byteMask_or`: merging under the mask.
* `Bits.toNat_halves`: a double word as a number.
-/

namespace Bits

/-- A 32-bit word. -/
abbrev Word := BitVec 32

variable {w : ℕ}

/-- Masking off the low `k` bits rounds down to a multiple of `2 ^ k`. -/
theorem toNat_and_mask (x : BitVec w) (k : ℕ) :
    (x &&& (BitVec.allOnes w <<< k)).toNat = x.toNat / 2 ^ k * 2 ^ k := by
  have h : x &&& (BitVec.allOnes w <<< k) = (x >>> k) <<< k := by
    ext i hi
    by_cases hk : i < k
    · simp [hk]
    · have hadd : k + (i - k) = i := by omega
      have hki : k ≤ i := by omega
      simp [BitVec.getElem_eq_testBit_toNat, hadd, hi, hki, Nat.lt_of_le_of_lt (i.sub_le k) hi]
  have hle : x.toNat / 2 ^ k * 2 ^ k < 2 ^ w :=
    lt_of_le_of_lt (Nat.div_mul_le_self _ _) x.isLt
  rw [h, BitVec.toNat_shiftLeft, BitVec.toNat_ushiftRight, Nat.shiftLeft_eq,
    Nat.shiftRight_eq_div_pow, Nat.mod_eq_of_lt hle]

/-- Merging a field below bit `k` into a vector whose low `k` bits are zero adds it. -/
theorem toNat_or_of_lt {x y : BitVec w} {k : ℕ} (hx : 2 ^ k ∣ x.toNat) (hy : y.toNat < 2 ^ k) :
    (x ||| y).toNat = x.toNat + y.toNat := by
  obtain ⟨q, hq⟩ := hx
  rw [BitVec.toNat_or, hq, Nat.two_pow_add_eq_or_of_lt hy]

/-- No bit below `k` is set exactly in the multiples of `2 ^ k`. -/
theorem and_not_mask_eq_zero_iff (x : BitVec w) (k : ℕ) :
    x &&& ~~~(BitVec.allOnes w <<< k) = 0 ↔ x.toNat % 2 ^ k = 0 := by
  have hsum : (x &&& (BitVec.allOnes w <<< k)) + (x &&& ~~~(BitVec.allOnes w <<< k)) = x := by
    rw [BitVec.add_eq_or_of_and_eq_zero]
    · ext i hi
      simp only [BitVec.getElem_or, BitVec.getElem_and, BitVec.getElem_not]
      cases x[i] <;> simp
    · ext i hi
      simp only [BitVec.getElem_and, BitVec.getElem_not]
      cases x[i] <;> simp
  have hmask := toNat_and_mask x k
  have hdm := Nat.div_add_mod x.toNat (2 ^ k)
  rw [Nat.mul_comm] at hdm
  constructor
  · intro h
    rw [h] at hsum
    have hx : x &&& (BitVec.allOnes w <<< k) = x := by simpa using hsum
    rw [hx] at hmask
    omega
  · intro h
    have hx : x &&& (BitVec.allOnes w <<< k) = x := BitVec.eq_of_toNat_eq (by omega)
    rw [hx] at hsum
    exact BitVec.add_right_eq_self.mp hsum

/-- The upper bits of a vector, from bit `k` on. -/
theorem toNat_extractLsb'_upper (x : BitVec w) {k n : ℕ} (h : w = k + n) :
    (x.extractLsb' k n).toNat = x.toNat / 2 ^ k := by
  subst h
  rw [BitVec.extractLsb'_toNat, Nat.shiftRight_eq_div_pow, Nat.mod_eq_of_lt]
  rw [Nat.div_lt_iff_lt_mul (Nat.two_pow_pos k), ← pow_add, Nat.add_comm n k]
  exact x.isLt

/-- Some bit from `k` on is set exactly in the numbers from `2 ^ k` on. -/
theorem extractLsb'_upper_ne_zero_iff (x : BitVec w) {k n : ℕ} (h : w = k + n) :
    x.extractLsb' k n ≠ 0 ↔ 2 ^ k ≤ x.toNat := by
  have hzero : (0 : BitVec n).toNat = 0 := rfl
  rw [ne_eq, ← BitVec.toNat_inj, toNat_extractLsb'_upper x h, hzero, Nat.div_eq_zero_iff]
  have := Nat.two_pow_pos k
  omega

/-- Replacing the low `k` bits by zeros rounds down to a multiple of `2 ^ k`. -/
theorem toNat_extractLsb'_append_zero (x : BitVec w) {k n : ℕ} (h : w = k + n) :
    (x.extractLsb' k n ++ (0 : BitVec k)).toNat = x.toNat / 2 ^ k * 2 ^ k := by
  have hzero : (0 : BitVec k).toNat = 0 := rfl
  rw [BitVec.toNat_append, toNat_extractLsb'_upper x h, hzero, Nat.or_zero, Nat.shiftLeft_eq]

/-- The vector whose bit `i` is `f i`. -/
def ofFn (f : ℕ → Bool) : BitVec w := (BitVec.ofBoolListLE ((List.range w).map f)).setWidth w

@[simp] theorem getLsbD_ofFn (f : ℕ → Bool) (i : ℕ) :
    (ofFn f : BitVec w).getLsbD i = (decide (i < w) && f i) := by
  rw [ofFn, BitVec.getLsbD_setWidth, BitVec.getLsbD_ofBoolListLE]
  by_cases hi : i < w <;> simp [hi]

/-- A word after a write whose byte enables are `be`: byte `b` is taken from the new word exactly
if bit `b` of `be` is set. -/
def mergeBytes (old new : BitVec 32) (be : BitVec 4) : BitVec 32 :=
  let byte (b : ℕ) := (if be.getLsbD b then new else old).extractLsb' (8 * b) 8
  byte 3 ++ byte 2 ++ byte 1 ++ byte 0

theorem getLsbD_mergeBytes (old new : BitVec 32) (be : BitVec 4) {i : ℕ} (hi : i < 32) :
    (mergeBytes old new be).getLsbD i = (if be.getLsbD (i / 8) then new else old).getLsbD i := by
  have hdiv : i / 8 = 0 ∨ i / 8 = 1 ∨ i / 8 = 2 ∨ i / 8 = 3 := by omega
  have hmod : 8 * (i / 8) + i % 8 = i := Nat.div_add_mod i 8
  simp only [mergeBytes, BitVec.getLsbD_append, BitVec.getLsbD_extractLsb']
  rcases hdiv with h | h | h | h <;> rw [h] at hmod ⊢
  · have : i < 8 := by omega
    simp [this]
  · have h1 : ¬ i < 8 := by omega
    have h2 : i - 8 < 8 := by omega
    simp [h1, h2, show 8 + (i - 8) = i by omega]
  · have h1 : ¬ i < 8 := by omega
    have h2 : ¬ i - 8 < 8 := by omega
    have h3 : i - 8 - 8 < 8 := by omega
    simp [h1, h2, h3, show 16 + (i - 8 - 8) = i by omega]
  · have h1 : ¬ i < 8 := by omega
    have h2 : ¬ i - 8 < 8 := by omega
    have h3 : ¬ i - 8 - 8 < 8 := by omega
    have h4 : i - 8 - 8 - 8 < 8 := by omega
    simp [h1, h2, h3, h4, show 24 + (i - 8 - 8 - 8) = i by omega]

/-- A write of all four bytes replaces the word. -/
@[simp] theorem mergeBytes_full (old new : BitVec 32) : mergeBytes old new 15#4 = new := by
  apply BitVec.eq_of_getLsbD_eq
  intro i hi
  have hbe : ∀ b, b < 4 → (15#4).getLsbD b = true := by decide
  rw [getLsbD_mergeBytes old new _ hi, hbe _ (by omega)]
  rfl

/-- The byte enables of a write as a mask of bits. -/
def byteMask (be : BitVec 4) : BitVec 32 := ofFn fun i => be.getLsbD (i / 8)

theorem getLsbD_byteMask (be : BitVec 4) {i : ℕ} (hi : i < 32) :
    (byteMask be).getLsbD i = be.getLsbD (i / 8) := by
  rw [byteMask, getLsbD_ofFn, decide_eq_true hi, Bool.true_and]

/-- Masking a word with the byte enables merges it into an old one exactly if the old one holds
nothing in the bytes that are not enabled. -/
theorem and_byteMask_merges_iff (old new : BitVec 32) (be : BitVec 4) :
    (∀ b < 4, (new &&& byteMask be).extractLsb' (8 * b) 8 =
        (if be.getLsbD b then new else old).extractLsb' (8 * b) 8) ↔
      old &&& ~~~byteMask be = 0 := by
  constructor
  · intro h
    refine BitVec.eq_of_getLsbD_eq fun i hi => ?_
    have hbit := congrArg (BitVec.getLsbD · (i % 8)) (h (i / 8) (by omega))
    have hmod : i % 8 < 8 := Nat.mod_lt i (by omega)
    simp only [BitVec.getLsbD_extractLsb', hmod, Nat.div_add_mod, BitVec.getLsbD_and, decide_true,
      Bool.true_and, getLsbD_byteMask be hi] at hbit
    rw [BitVec.getLsbD_and, BitVec.getLsbD_not, getLsbD_byteMask be hi]
    cases hbe : be.getLsbD (i / 8) with
    | true => simp
    | false => simpa [hbe, hi] using hbit.symm
  · intro h b hb
    refine BitVec.eq_of_getLsbD_eq fun j hj => ?_
    have hi : 8 * b + j < 32 := by omega
    have hdiv : (8 * b + j) / 8 = b := by omega
    have hbit := congrArg (BitVec.getLsbD · (8 * b + j)) h
    simp only [BitVec.getLsbD_and, BitVec.getLsbD_not, getLsbD_byteMask be hi, hdiv, hi,
      decide_true, Bool.true_and] at hbit
    simp only [BitVec.getLsbD_extractLsb', hj, BitVec.getLsbD_and, decide_true, Bool.true_and,
      getLsbD_byteMask be hi, hdiv]
    cases hbe : be.getLsbD b with
    | true => simp
    | false => simpa [hbe] using hbit.symm

/-- Merging under a mask of bits is merging the bytes. -/
theorem and_not_byteMask_or (old new : BitVec 32) (be : BitVec 4) :
    (old &&& ~~~byteMask be) ||| (new &&& byteMask be) = mergeBytes old new be := by
  refine BitVec.eq_of_getLsbD_eq fun i hi => ?_
  rw [getLsbD_mergeBytes old new be hi, BitVec.getLsbD_or, BitVec.getLsbD_and, BitVec.getLsbD_and,
    BitVec.getLsbD_not, getLsbD_byteMask be hi]
  cases be.getLsbD (i / 8) <;> simp [hi]

/-! ### The halves of a double word -/

section Halves

variable (x y : BitVec 64) (h l : BitVec 32)

/-- Bits 63 to 32. -/
def high : BitVec 32 := x.extractLsb' 32 32

/-- Bits 31 to 0. -/
def low : BitVec 32 := x.extractLsb' 0 32

theorem toNat_high : (high x).toNat = x.toNat / 2 ^ 32 := by
  have := x.isLt
  rw [high, BitVec.extractLsb'_toNat, Nat.shiftRight_eq_div_pow]
  omega

theorem toNat_low : (low x).toNat = x.toNat % 2 ^ 32 := by
  rw [low, BitVec.extractLsb'_toNat, Nat.shiftRight_zero]

theorem toNat_halves : (h ++ l : BitVec 64).toNat = 2 ^ 32 * h.toNat + l.toNat := by
  rw [BitVec.toNat_append, ← Nat.shiftLeft_add_eq_or_of_lt l.isLt, Nat.shiftLeft_eq, Nat.mul_comm]

@[simp] theorem high_append : high (h ++ l) = h := by
  apply BitVec.eq_of_toNat_eq
  have := l.isLt
  rw [toNat_high, toNat_halves]
  omega

@[simp] theorem low_append : low (h ++ l) = l := by
  apply BitVec.eq_of_toNat_eq
  have := l.isLt
  rw [toNat_low, toNat_halves]
  omega

@[simp] theorem high_append_low : high x ++ low x = x := by
  apply BitVec.eq_of_toNat_eq
  rw [toNat_halves, toNat_high, toNat_low, Nat.div_add_mod]

@[simp] theorem high_and : high (x &&& y) = high x &&& high y := BitVec.extractLsb'_and

@[simp] theorem low_and : low (x &&& y) = low x &&& low y := BitVec.extractLsb'_and

@[simp] theorem high_or : high (x ||| y) = high x ||| high y := BitVec.extractLsb'_or

@[simp] theorem low_or : low (x ||| y) = low x ||| low y := BitVec.extractLsb'_or

@[simp] theorem high_not : high (~~~x) = ~~~high x := by
  refine BitVec.eq_of_getLsbD_eq fun i hi => ?_
  have hi' : 32 + i < 64 := by omega
  simp [high, hi, hi']

@[simp] theorem low_not : low (~~~x) = ~~~low x := by
  refine BitVec.eq_of_getLsbD_eq fun i hi => ?_
  have hi' : i < 64 := by omega
  simp [low, hi, hi']

end Halves

end Bits
