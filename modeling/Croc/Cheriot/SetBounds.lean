import Mathlib.Data.Nat.Size
import Mathlib.Tactic.Linarith
import Croc.Cheriot.Bounds

/-!
# Narrowing the bounds of a capability

`cheriot_set_bounds_ex` and `cheriot_set_bounds_rounddown` give a capability new bounds that start
at its address. The requested top need not be representable. The first function rounds the bounds
outwards, at the exponent that the requested length needs or, if the rounding overflows the nine
mantissa bits, at the next larger one. The second rounds the top down.

The request is compared with the bounds of the parent before the rounding. That the rounded child
still lies inside its parent is an argument about exponents: the child gets the least exponent at
which its bounds fit into nine bits, which never exceeds the one of the parent, and the bounds of
the parent are multiples of its own granule. After 14 the next exponent is 24; the argument goes
through because a parent with exponent 14 is too short to push its child over the edge.

## Main definitions

* `msbPosition`, `countTrailingZeros`: the priority encoders.
* `prepBounds`, `setBoundsEx`, `setBoundsRounddown`: the datapath.

## Main results

* `toNat_msbPosition`, `le_countTrailingZeros_iff`: what the encoders compute.
* `wellFormed_of_mantissas`: bounds that start at the granule of the address decode to themselves.
* `selectedExp_isLeast`: the exponent is the least at which the request fits.
* `setBoundsEx_bounds`, `setBoundsRounddown_bounds`: the bounds of the result.
* `setBoundsEx_spec`, `setBoundsRounddown_spec`: the child of a well-formed parent is well formed
  and lies inside it.
-/

namespace Croc

namespace Cheriot

open Bits (Word)

/-! ### Priority encoders -/

/-- `cheriot_thermometer_count`: the number of ones in a vector of the form `0…01…1`. -/
def thermometerCount (a32 : Word) : BitVec 6 :=
  if a32.getLsbD 31 then 32
  else
    let c4 := a32.getLsbD 15
    let b16 : BitVec 16 := if c4 then a32.extractLsb' 16 16 else a32.extractLsb' 0 16
    let c3 := b16.getLsbD 7
    let b8 : BitVec 8 := if c3 then b16.extractLsb' 8 8 else b16.extractLsb' 0 8
    let c2 := b8.getLsbD 3
    let b4 : BitVec 4 := if c2 then b8.extractLsb' 4 4 else b8.extractLsb' 0 4
    let c1 := b4.getLsbD 1
    let b2 : BitVec 2 := if c1 then b4.extractLsb' 2 2 else b4.extractLsb' 0 2
    let c0 := b2.getLsbD 0
    BitVec.ofBoolListBE [false, c4, c3, c2, c1, c0]

/-- The loops of the two encoders: each bit is its input or the bit before. -/
def orScan (din : ℕ → Bool) : ℕ → Bool
  | 0 => din 0
  | n + 1 => orScan din n || din (n + 1)

/-- `cheriot_msb_position`: the number of bits needed to represent `din`. -/
def msbPosition (din : Word) : BitVec 6 :=
  -- from bit 31 downwards, `a32[i] = a32[i+1] | din[i]`
  let a32 : Word := Bits.ofFn fun i => orScan (fun n => din.getLsbD (31 - n)) (31 - i)
  thermometerCount a32

/-- `cheriot_count_trailing_zeros`, 32 for zero. -/
def countTrailingZeros (din : Word) : BitVec 6 :=
  -- from bit 0 upwards, `a32[i] = a32[i-1] | din[i]`
  let a32 : Word := Bits.ofFn fun i => orScan (fun n => din.getLsbD n) i
  thermometerCount (~~~a32)

/-! ### The datapath -/

/-- `bound_req_t`. -/
structure BoundReq where
  /-- The requested top. -/
  top33req : BitVec 33
  /-- The exponent for the length. -/
  exp1 : BitVec 5
  /-- The exponent to use when the rounding overflows at `exp1`. -/
  exp2 : BitVec 5
  /-- The exponent for the length, not saturated. -/
  explen : BitVec 6
  /-- The alignment of the address. -/
  expb : BitVec 6
  /-- The request lies inside the bounds of the parent. -/
  inBound : Bool
  deriving DecidableEq, Repr, Inhabited

/-- `bound_result_t`. -/
structure BoundResult where
  /-- The resulting capability. -/
  cap : DecodedCap
  /-- The alignment mask. -/
  maska : Word
  /-- The representable length. -/
  rlen : Word
  deriving DecidableEq, Repr, Inhabited

/-- Saturation of an exponent candidate: from `MAXCEXP` on only `MAXEXP` is left. -/
def saturateExp (sizeResult : BitVec 6) : BitVec 5 :=
  if 15 ≤ sizeResult then maxExp else sizeResult.setWidth 5

/-- `cheriot_prep_bounds`. -/
def prepBounds (inCap : DecodedCap) (addr length : Word) : BoundReq :=
  let top33req : BitVec 33 := addr.setWidth 33 + length.setWidth 33
  let explen := msbPosition ((length.extractLsb' 9 23).setWidth 32)
  { top33req := top33req
    expb := countTrailingZeros addr
    explen := explen
    exp1 := saturateExp explen
    exp2 := saturateExp (explen + 1)
    inBound := !(inCap.top33 < top33req || addr < inCap.base32) }

/-- One of the two parallel paths of `cheriot_set_bounds_ex`. -/
structure BoundPath where
  /-- The mask of the granule. -/
  mask : BitVec 33
  /-- The base, in granules. -/
  base : BitVec 10
  /-- The top, in granules, rounded up. -/
  top : BitVec 10
  /-- The length, in granules. -/
  len : BitVec 10
  /-- The top was rounded. -/
  topoff : Bool
  /-- The base was rounded. -/
  baseoff : Bool
  /-- The top mantissa is not below the base mantissa. -/
  tophi : Bool
  deriving DecidableEq, Repr, Inhabited

/-- The path for the exponent `exp`. -/
def boundPath (addr : Word) (top33req : BitVec 33) (exp : BitVec 5) : BoundPath :=
  let mask : BitVec 33 := BitVec.allOnes 33 <<< exp.toNat
  let base : BitVec 10 := (addr >>> exp.toNat).setWidth 10
  let topoff := top33req &&& ~~~mask != 0
  let baseoff := addr.setWidth 33 &&& ~~~mask != 0
  let top : BitVec 10 := (top33req >>> exp.toNat).setWidth 10 + (BitVec.ofBool topoff).setWidth 10
  { mask := mask
    base := base
    top := top
    len := top - base
    topoff := topoff
    baseoff := baseoff
    tophi := base.setWidth 9 ≤ top.setWidth 9 }

/-- The corrections of a capability whose base is the granule of its address. -/
def freshCor (tophi : Bool) : BitVec 2 := if tophi then 0b00 else 0b10

/-- `cheriot_set_bounds_ex`. -/
def setBoundsEx (inCap : DecodedCap) (addr : Word) (boundReq : BoundReq) (reqExact : Bool) :
    BoundResult :=
  let path1 := boundPath addr boundReq.top33req boundReq.exp1
  let path2 := boundPath addr boundReq.top33req boundReq.exp2
  let ovrflw := path1.len.getLsbD 9
  let expSel := if !ovrflw then boundReq.exp1 else boundReq.exp2
  let path := if !ovrflw then path1 else path2
  { cap := { inCap with
      top := path.top.setWidth 9
      base := path.base.setWidth 9
      cexp := compressExp expSel
      capCor := freshCor path.tophi
      valid := inCap.valid && !(reqExact && (path.topoff || path.baseoff)) && boundReq.inBound }
    maska := path.mask.setWidth 32
    rlen := path.len.setWidth 32 <<< expSel.toNat }

/-- `cheriot_set_bounds_rounddown`. -/
def setBoundsRounddown (inCap : DecodedCap) (addr : Word) (boundReq : BoundReq) : DecodedCap :=
  let explen := boundReq.explen
  let expb := boundReq.expb
  let elGtEb := expb < explen
  let elGt14 := 14 < explen
  let ebGt14 := 14 < expb
  let expFinal : BitVec 6 := if elGtEb ∧ ¬ebGt14 then expb else if elGt14 then 14 else explen
  let base : BitVec 9 := (addr >>> expFinal.toNat).setWidth 9
  let top : BitVec 9 :=
    if elGtEb ∨ elGt14 then base - 1 else (boundReq.top33req >>> expFinal.toNat).setWidth 9
  { inCap with
    cexp := compressExp (expFinal.setWidth 5)
    base := base
    top := top
    valid := inCap.valid && boundReq.inBound
    capCor := freshCor (base ≤ top) }

/-! ### What the encoders compute -/

theorem orScan_eq_true_iff {din : ℕ → Bool} {n : ℕ} :
    orScan din n = true ↔ ∃ k, k ≤ n ∧ din k = true := by
  induction n with
  | zero => simp [orScan]
  | succ n ih =>
    rw [orScan, Bool.or_eq_true, ih]
    constructor
    · rintro (⟨k, hk, h⟩ | h)
      · exact ⟨k, by omega, h⟩
      · exact ⟨n + 1, le_rfl, h⟩
    · rintro ⟨k, hk, h⟩
      by_cases hkn : k = n + 1
      · exact .inr (hkn ▸ h)
      · exact .inl ⟨k, by omega, h⟩

theorem toNat_thermometerCount (k : Fin 33) :
    (thermometerCount (Bits.ofFn fun i => decide (i < k.val))).toNat = k.val := by
  revert k
  decide +kernel

/-- A thermometer is determined by the number of its ones. -/
theorem toNat_thermometerCount_of_bits {a32 : Word} {k : ℕ} (hk : k ≤ 32)
    (h : ∀ i, i < 32 → a32.getLsbD i = decide (i < k)) : (thermometerCount a32).toNat = k := by
  have heq : a32 = Bits.ofFn fun i => decide (i < k) := by
    refine BitVec.eq_of_getLsbD_eq fun i hi => ?_
    rw [h i hi, Bits.getLsbD_ofFn]
    simp [hi]
  rw [heq]
  exact toNat_thermometerCount ⟨k, by omega⟩

/-- **The highest set bit.** -/
theorem toNat_msbPosition (d : Word) : (msbPosition d).toNat = d.toNat.size := by
  refine toNat_thermometerCount_of_bits (Nat.size_le.mpr d.isLt) ?_
  intro i hi
  -- bit `i` of the scan is set exactly if some bit from `i` on is
  rw [Bits.getLsbD_ofFn, decide_eq_true hi, Bool.true_and, Bool.eq_iff_iff, orScan_eq_true_iff,
    decide_eq_true_iff, Nat.lt_size]
  constructor
  · rintro ⟨k, hk, h⟩
    exact le_trans (Nat.pow_le_pow_right (by norm_num) (by omega)) (Nat.ge_two_pow_of_testBit h)
  · intro h
    obtain ⟨j, hj, htest⟩ := Nat.exists_ge_and_testBit_of_ge_two_pow h
    have hj32 : j < 32 := by
      by_contra hge
      have h1 := Nat.ge_two_pow_of_testBit htest
      have h2 := Nat.pow_le_pow_right (show 0 < 2 by norm_num) (show 32 ≤ j by omega)
      have h3 := d.isLt
      omega
    exact ⟨31 - j, by omega, by rwa [show 31 - (31 - j) = j by omega]⟩

/-- Divisibility by powers of two is monotone, so the greatest one decides. -/
theorem le_findGreatest_pow_dvd_iff {n k : ℕ} (hk : k ≤ 32) :
    k ≤ Nat.findGreatest (fun k => 2 ^ k ∣ n) 32 ↔ 2 ^ k ∣ n := by
  have hdvd : 2 ^ Nat.findGreatest (fun k => 2 ^ k ∣ n) 32 ∣ n :=
    Nat.findGreatest_spec (P := fun k => 2 ^ k ∣ n) (Nat.zero_le 32) (one_dvd _)
  exact ⟨fun h => (Nat.pow_dvd_pow 2 h).trans hdvd, fun h => Nat.le_findGreatest hk h⟩

/-- **The alignment.** -/
theorem toNat_countTrailingZeros (d : Word) :
    (countTrailingZeros d).toNat = Nat.findGreatest (fun k => 2 ^ k ∣ d.toNat) 32 := by
  refine toNat_thermometerCount_of_bits (Nat.findGreatest_le 32) ?_
  intro i hi
  -- bit `i` of the complemented scan is set exactly if all bits up to `i` are clear
  rw [BitVec.getLsbD_not, Bits.getLsbD_ofFn, decide_eq_true hi, Bool.true_and, Bool.true_and,
    Bool.eq_iff_iff, Bool.not_eq_true', ← Bool.not_eq_true, orScan_eq_true_iff,
    decide_eq_true_iff, Nat.lt_iff_add_one_le, le_findGreatest_pow_dvd_iff (by omega)]
  push Not
  constructor
  · intro h
    refine Nat.dvd_of_mod_eq_zero (Nat.eq_of_testBit_eq fun j => ?_)
    rw [Nat.testBit_mod_two_pow, Nat.zero_testBit]
    by_cases hj : j < i + 1
    · have := h j (by omega)
      simp only [ne_eq, Bool.not_eq_true, BitVec.getLsbD] at this
      simp [this]
    · simp [hj]
  · rintro ⟨q, hq⟩ j hj
    have : d.toNat.testBit j = false := by
      rw [hq, Nat.testBit_two_pow_mul]
      simp
      omega
    simpa [BitVec.getLsbD] using this

theorem le_countTrailingZeros_iff (d : Word) {k : ℕ} (hk : k ≤ 32) :
    k ≤ (countTrailingZeros d).toNat ↔ 2 ^ k ∣ d.toNat := by
  rw [toNat_countTrailingZeros, le_findGreatest_pow_dvd_iff hk]

/-- **Both encoders are exact.** The search counts the ones of every thermometer. The position of
the highest set bit plus one is 0 for zero, and the number of trailing zeros is the largest power of
two that divides the word, up to 32. -/
theorem bitPositions_exact (x : Word) :
    (∀ k ≤ 32, ∀ a32 : Word, (∀ i < 32, a32.getLsbD i = decide (i < k)) →
      (thermometerCount a32).toNat = k) ∧
    (x = 0 → (msbPosition x).toNat = 0) ∧
    (x ≠ 0 → ∃ i, IsGreatest {j | x.getLsbD j = true} i ∧ (msbPosition x).toNat = i + 1) ∧
    IsGreatest {k | k ≤ 32 ∧ 2 ^ k ∣ x.toNat} (countTrailingZeros x).toNat ∧
    (x = 0 → (countTrailingZeros x).toNat = 32) := by
  have hctz : (countTrailingZeros x).toNat ≤ 32 := by
    rw [toNat_countTrailingZeros]
    exact Nat.findGreatest_le 32
  refine ⟨fun k hk a32 h => toNat_thermometerCount_of_bits hk h, ?_, ?_, ⟨⟨hctz, ?_⟩, ?_⟩, ?_⟩
  · rintro rfl
    rw [toNat_msbPosition]
    exact Nat.size_zero
  · intro hx
    -- the size of a positive number is one more than its highest bit
    have hne : x.toNat ≠ 0 := fun h => hx (BitVec.eq_of_toNat_eq h)
    have hpos : 0 < x.toNat.size := Nat.size_pos.mpr (Nat.pos_of_ne_zero hne)
    refine ⟨x.toNat.size - 1, ⟨?_, ?_⟩, by rw [toNat_msbPosition]; omega⟩
    · obtain ⟨j, hj, htest⟩ := Nat.exists_ge_and_testBit_of_ge_two_pow
        (Nat.lt_size.mp (by omega : x.toNat.size - 1 < x.toNat.size))
      have hlt : j < x.toNat.size := Nat.lt_size.mpr (Nat.ge_two_pow_of_testBit htest)
      rwa [show x.toNat.size - 1 = j by omega]
    · intro j hj
      have hlt : j < x.toNat.size := Nat.lt_size.mpr (Nat.ge_two_pow_of_testBit hj)
      omega
  · exact (le_countTrailingZeros_iff x hctz).mp le_rfl
  · rintro k ⟨hk, hdvd⟩
    exact (le_countTrailingZeros_iff x hk).mpr hdvd
  · rintro rfl
    exact Nat.le_antisymm hctz ((le_countTrailingZeros_iff 0 le_rfl).mpr (dvd_zero _))

/-! ### Bounds that start at the address -/

theorem freshCor_coherent {c : Cap} {a : Word} (hbase : c.base = addrMid a (expandExp c.cexp))
    (hcor : c.capCor = freshCor (c.base ≤ c.top)) : c.Coherent a := by
  have hself : decide (c.base < c.base) = false := by simp
  have hnot : decide (c.base ≤ c.top) = !decide (c.top < c.base) := by
    rw [← decide_not]
    refine decide_eq_decide.mpr ?_
    rw [BitVec.le_def, BitVec.lt_def]
    omega
  have hcor' : ∀ t : Bool, freshCor (!t) = BitVec.ofBoolListBE [t ^^ false, false] := by decide
  rw [Cap.Coherent, hcor, ← hbase, computeCorrections, hnot, hcor', hself]

/-- A capability whose base is the granule of its address decodes to the bounds that its mantissas
were cut from. -/
theorem wellFormed_of_mantissas {c : Cap} {a : Word} {T : ℕ}
    (hbase : c.base = addrMid a (expandExp c.cexp)) (htop : c.top.toNat = T % 512)
    (hcor : c.capCor = freshCor (c.base ≤ c.top)) (hle : a.toNat / 2 ^ c.exp ≤ T)
    (hlt : T < a.toNat / 2 ^ c.exp + 512) (hT : T * 2 ^ c.exp ≤ 2 ^ 32) :
    c.WellFormed a ∧ c.base33 a = a.toNat / 2 ^ c.exp * 2 ^ c.exp ∧ c.top33 a = T * 2 ^ c.exp := by
  have hco := freshCor_coherent hbase hcor
  set b := a.toNat / 2 ^ c.exp with hb
  have hg : 0 < 2 ^ c.exp := Nat.two_pow_pos _
  have hbmod : c.base.toNat = b % 512 := by
    rw [hbase, addrMid, BitVec.toNat_setWidth, BitVec.toNat_ushiftRight, Nat.shiftRight_eq_div_pow]
    rfl
  have hba : b * 2 ^ c.exp ≤ a.toNat := Nat.div_mul_le_self _ _
  have hab : a.toNat < b * 2 ^ c.exp + 2 ^ c.exp := by
    have := Nat.lt_div_mul_add (a := a.toNat) hg
    omega
  have ha := a.isLt
  -- the anchor of the base mantissa is the granule of the address
  have hanchor : Window.anchor (2 ^ (c.exp + 9)) (c.base.toNat * 2 ^ c.exp) a.toNat =
      b * 2 ^ c.exp := by
    have hW : (2 : ℤ) ^ (c.exp + 9) = 512 * 2 ^ c.exp := by ring
    have hpow : (0 : ℤ) < 2 ^ c.exp := by positivity
    refine Window.anchor_unique ?_ (by exact_mod_cast hba) ?_
    · rw [hbmod, hW, Int.natCast_mod, Int.mul_comm (b : ℤ), Int.mul_comm 512,
        Int.mul_emod_mul_of_pos _ _ hpow, Int.mul_comm _ (2 ^ c.exp),
        Int.mul_emod_mul_of_pos _ _ hpow]
      simp
    · have : (a.toNat : ℤ) < b * 2 ^ c.exp + 2 ^ c.exp := by exact_mod_cast hab
      rw [hW]
      linarith
  have hbase33 : c.base33 a = b * 2 ^ c.exp := by
    have h := Cap.base33_eq_anchor hco
    rw [hanchor] at h
    have hsmall : (b * 2 ^ c.exp : ℤ) < 2 ^ 33 := by
      exact_mod_cast (by omega : b * 2 ^ c.exp < 2 ^ 33)
    rw [Int.emod_eq_of_lt (by positivity) hsmall] at h
    exact_mod_cast h
  have hspan : c.span = (T - b) * 2 ^ c.exp := by
    rw [Cap.span, htop, hbmod]
    congr 1
    omega
  have hsum : c.base33 a + c.span = T * 2 ^ c.exp := by
    rw [hbase33, hspan, ← Nat.add_mul, Nat.add_sub_cancel' hle]
  have hwf : c.WellFormed a := Cap.wellFormed_iff.mpr ⟨hco, by omega, by omega⟩
  exact ⟨hwf, hbase33, by rw [hwf.top_eq, hsum]⟩

/-! ### The parent -/

namespace Cap

variable {c : Cap} {a : Word}

/-- The base is a multiple of the granule. -/
theorem Coherent.pow_dvd_base33 (h : c.Coherent a) : 2 ^ c.exp ∣ c.base33 a := by
  have hW : ((2 : ℤ) ^ c.exp) ∣ 2 ^ (c.exp + 9) := pow_dvd_pow 2 (by omega)
  have h33 : ((2 : ℤ) ^ c.exp) ∣ 2 ^ 33 := pow_dvd_pow 2 (by have := c.exp_le; omega)
  have hanchor : Window.anchor (2 ^ (c.exp + 9)) (c.base.toNat * 2 ^ c.exp) a.toNat %
      2 ^ (c.exp + 9) = (c.base.toNat * 2 ^ c.exp) % 2 ^ (c.exp + 9) := Window.anchor_emod
  have hmod : (c.base33 a : ℤ) % 2 ^ c.exp = 0 := by
    rw [base33_eq_anchor h, Int.emod_emod_of_dvd _ h33, ← Int.emod_emod_of_dvd _ hW, hanchor,
      Int.emod_emod_of_dvd _ hW, Int.mul_emod_left]
  exact_mod_cast Int.dvd_of_emod_eq_zero hmod

/-- What the bounds of a well-formed parent are: multiples of its granule, at most 511 granules
apart. -/
theorem WellFormed.granules (h : c.WellFormed a) :
    ∃ b T, c.base33 a = b * 2 ^ c.exp ∧ c.top33 a = T * 2 ^ c.exp ∧ b ≤ T ∧ T ≤ b + 511 := by
  obtain ⟨b, hb⟩ := h.coherent.pow_dvd_base33
  refine ⟨b, b + (c.top.toNat + 512 - c.base.toNat) % 512, by rw [hb, Nat.mul_comm], ?_, by omega,
    by omega⟩
  rw [h.top_eq, hb, span, Nat.mul_comm, Nat.add_mul]

/-- The same for the bounds of a parent as the core decodes them. -/
theorem Bounded.granules (h : c.Bounded a) :
    ∃ b T, (decodeCap c a).base32.toNat = b * 2 ^ c.exp ∧
      (decodeCap c a).top33.toNat = T * 2 ^ c.exp ∧ T ≤ b + 511 := by
  obtain hwf | he := h.wellFormed_or
  · obtain ⟨b, T, hb, hT, -, hspan⟩ := hwf.granules
    exact ⟨b, T, hwf.base32_eq.trans hb, hT, hspan⟩
  · have htop := h.top_le
    rw [toNat_decodeCap_top33, top33_of_exp he] at htop
    refine ⟨c.base.toNat % 256, c.top.toNat, ?_, ?_, by omega⟩
    · rw [toNat_decodeCap_base32, base33_of_exp he, he]
      omega
    · rw [toNat_decodeCap_top33, top33_of_exp he, he]

end Cap

/-! ### Rounding outwards -/

/-- The top in granules of `2 ^ e`, rounded up. -/
def granulesUp (t e : ℕ) : ℕ := (t + 2 ^ e - 1) / 2 ^ e

theorem granulesUp_bounds (t e : ℕ) :
    t ≤ granulesUp t e * 2 ^ e ∧ granulesUp t e * 2 ^ e < t + 2 ^ e := by
  have hg : 0 < 2 ^ e := Nat.two_pow_pos e
  have h1 := Nat.div_mul_le_self (t + 2 ^ e - 1) (2 ^ e)
  have h2 := Nat.lt_div_mul_add (a := t + 2 ^ e - 1) hg
  unfold granulesUp
  omega

/-- A multiple of the granule that is not below `t` is not below the rounded top. -/
theorem granulesUp_mul_le {t e x : ℕ} (hx : 2 ^ e ∣ x) (h : t ≤ x) :
    granulesUp t e * 2 ^ e ≤ x := by
  obtain ⟨q, rfl⟩ := hx
  have hlt := (granulesUp_bounds t e).2
  have hq : granulesUp t e < q + 1 := by
    refine Nat.lt_of_mul_lt_mul_right (a := 2 ^ e) ?_
    rw [Nat.add_mul, Nat.one_mul, Nat.mul_comm q]
    omega
  rw [Nat.mul_comm (2 ^ e) q]
  exact Nat.mul_le_mul_right _ (by omega)

/-- A multiple of the granule that is not above `a` is not above the rounded base. -/
theorem le_granulesDown_mul {a e x : ℕ} (hx : 2 ^ e ∣ x) (h : x ≤ a) : x ≤ a / 2 ^ e * 2 ^ e := by
  obtain ⟨q, rfl⟩ := hx
  rw [Nat.mul_comm (2 ^ e) q] at h ⊢
  exact Nat.mul_le_mul_right _ ((Nat.le_div_iff_mul_le (Nat.two_pow_pos e)).mpr h)

/-- Rounding up is exact for the multiples of the granule. -/
theorem granulesUp_mul_eq_iff {t e : ℕ} : granulesUp t e * 2 ^ e = t ↔ 2 ^ e ∣ t :=
  ⟨fun h => ⟨granulesUp t e, by rw [Nat.mul_comm, h]⟩,
    fun h => le_antisymm (granulesUp_mul_le h le_rfl) (granulesUp_bounds t e).1⟩

theorem granulesUp_mono {t u e : ℕ} (h : t ≤ u) : granulesUp t e ≤ granulesUp u e :=
  Nat.div_le_div_right (by omega)

/-- The number of granules is bounded by the requested length. -/
theorem granulesUp_sub_lt {a len e n : ℕ} (h : len ≤ n * 2 ^ e) :
    granulesUp (a + len) e < a / 2 ^ e + n + 2 := by
  have hg : 0 < 2 ^ e := Nat.two_pow_pos e
  have h1 := (granulesUp_bounds (a + len) e).2
  have h2 := Nat.lt_div_mul_add (a := a) hg
  refine Nat.lt_of_mul_lt_mul_right (a := 2 ^ e) ?_
  rw [Nat.add_mul, Nat.add_mul]
  omega

theorem div_le_granulesUp (a len e : ℕ) : a / 2 ^ e ≤ granulesUp (a + len) e := by
  have h1 := (granulesUp_bounds (a + len) e).1
  have h2 := Nat.div_mul_le_self a (2 ^ e)
  exact Nat.le_of_mul_le_mul_right (by omega : a / 2 ^ e * 2 ^ e ≤ _) (Nat.two_pow_pos e)

section Path

variable {a : Word} {t33 : BitVec 33} {exp : BitVec 5}

theorem toNat_boundPath_base :
    (boundPath a t33 exp).base.toNat = a.toNat / 2 ^ exp.toNat % 1024 := by
  rw [boundPath, BitVec.toNat_setWidth, BitVec.toNat_ushiftRight, Nat.shiftRight_eq_div_pow]

theorem toNat_boundPath_top :
    (boundPath a t33 exp).top.toNat = granulesUp t33.toNat exp.toNat % 1024 := by
  have hoff : (t33 &&& ~~~(BitVec.allOnes 33 <<< exp.toNat) != 0) =
      decide (t33.toNat % 2 ^ exp.toNat ≠ 0) := by
    rw [Bool.eq_iff_iff, bne_iff_ne, decide_eq_true_iff, ne_eq, Bits.and_not_mask_eq_zero_iff]
  have hup : granulesUp t33.toNat exp.toNat = t33.toNat / 2 ^ exp.toNat +
      (decide (t33.toNat % 2 ^ exp.toNat ≠ 0)).toNat := by
    have hg : 0 < 2 ^ exp.toNat := Nat.two_pow_pos _
    have hdm := Nat.div_add_mod t33.toNat (2 ^ exp.toNat)
    have hlt := Nat.mod_lt t33.toNat hg
    have hdm' : t33.toNat / 2 ^ exp.toNat * 2 ^ exp.toNat + t33.toNat % 2 ^ exp.toNat =
        t33.toNat := by rw [Nat.mul_comm]; exact hdm
    rw [granulesUp, Nat.div_eq_iff hg]
    by_cases hz : t33.toNat % 2 ^ exp.toNat = 0
    · simp only [hz, ne_eq, not_true_eq_false, decide_false, Bool.toNat_false, Nat.add_zero]
      omega
    · simp only [hz, ne_eq, not_false_eq_true, decide_true, Bool.toNat_true, Nat.add_mul]
      omega
  rw [boundPath, BitVec.toNat_add, BitVec.toNat_setWidth, BitVec.toNat_setWidth,
    BitVec.toNat_ushiftRight, Nat.shiftRight_eq_div_pow, hoff, BitVec.toNat_ofBool, hup]
  have := Bool.toNat_le (decide (t33.toNat % 2 ^ exp.toNat ≠ 0))
  omega

theorem toNat_boundPath_len (a : Word) (t33 : BitVec 33) (exp : BitVec 5)
    (hle : a.toNat / 2 ^ exp.toNat ≤ granulesUp t33.toNat exp.toNat)
    (hlt : granulesUp t33.toNat exp.toNat < a.toNat / 2 ^ exp.toNat + 1024) :
    (boundPath a t33 exp).len.toNat =
      granulesUp t33.toNat exp.toNat - a.toNat / 2 ^ exp.toNat := by
  have hdef : (boundPath a t33 exp).len = (boundPath a t33 exp).top - (boundPath a t33 exp).base :=
    rfl
  rw [hdef, BitVec.toNat_sub, toNat_boundPath_base, toNat_boundPath_top]
  omega

/-- The overflow bit of a path. -/
theorem boundPath_overflow (a : Word) (t33 : BitVec 33) (exp : BitVec 5)
    (hle : a.toNat / 2 ^ exp.toNat ≤ granulesUp t33.toNat exp.toNat)
    (hlt : granulesUp t33.toNat exp.toNat < a.toNat / 2 ^ exp.toNat + 1024) :
    (boundPath a t33 exp).len.getLsbD 9 =
      decide (a.toNat / 2 ^ exp.toNat + 512 ≤ granulesUp t33.toNat exp.toNat) := by
  rw [BitVec.getLsbD, toNat_boundPath_len a t33 exp hle hlt, Nat.testBit_eq_decide_div_mod_eq,
    decide_eq_decide]
  omega

/-- The base of a path is the granule of the address. -/
theorem setWidth_boundPath_base (a : Word) (t33 : BitVec 33) (exp : BitVec 5)
    (hexp : exp.toNat ≤ 14 ∨ exp.toNat = 24) :
    (boundPath a t33 exp).base.setWidth 9 = addrMid a (expandExp (compressExp exp)) := by
  refine BitVec.eq_of_toNat_eq ?_
  rw [BitVec.toNat_setWidth, toNat_boundPath_base, addrMid, BitVec.toNat_setWidth,
    BitVec.toNat_ushiftRight, Nat.shiftRight_eq_div_pow, expandExp_compressExp hexp]
  omega

/-- The capability of a path decodes to the rounded bounds. -/
theorem boundPath_wellFormed (a : Word) (t33 : BitVec 33) (exp : BitVec 5) {c : Cap}
    (hexp : exp.toNat ≤ 14 ∨ exp.toNat = 24)
    (hcexp : c.cexp = compressExp exp) (hbase : c.base = (boundPath a t33 exp).base.setWidth 9)
    (htop : c.top = (boundPath a t33 exp).top.setWidth 9)
    (hcor : c.capCor = freshCor (boundPath a t33 exp).tophi)
    (hle : a.toNat / 2 ^ exp.toNat ≤ granulesUp t33.toNat exp.toNat)
    (hlt : granulesUp t33.toNat exp.toNat < a.toNat / 2 ^ exp.toNat + 512)
    (hT : granulesUp t33.toNat exp.toNat * 2 ^ exp.toNat ≤ 2 ^ 32) :
    c.WellFormed a ∧ c.base33 a = a.toNat / 2 ^ exp.toNat * 2 ^ exp.toNat ∧
      c.top33 a = granulesUp t33.toNat exp.toNat * 2 ^ exp.toNat := by
  have he : c.exp = exp.toNat := by rw [Cap.exp, hcexp, expandExp_compressExp hexp]
  have htop' : c.top.toNat = granulesUp t33.toNat exp.toNat % 512 := by
    rw [htop, BitVec.toNat_setWidth, toNat_boundPath_top]
    omega
  have hbase' : c.base = addrMid a (expandExp c.cexp) := by
    rw [hbase, hcexp, setWidth_boundPath_base a t33 exp hexp]
  have hcor' : c.capCor = freshCor (c.base ≤ c.top) := by rw [hcor, hbase, htop]; rfl
  rw [← he] at htop' hle hlt hT ⊢
  exact wellFormed_of_mantissas hbase' htop' hcor' hle hlt hT

end Path

/-! ### The request -/

theorem toNat_saturateExp (s : BitVec 6) :
    (saturateExp s).toNat = if 15 ≤ s.toNat then 24 else s.toNat := by
  revert s
  decide

/-- A saturated exponent has an encoding. -/
theorem saturateExp_range (s : BitVec 6) :
    (saturateExp s).toNat ≤ 14 ∨ (saturateExp s).toNat = 24 := by
  rw [toNat_saturateExp]
  split_ifs <;> omega

section Request

variable {c : Cap} {a len : Word}

theorem toNat_prepBounds_top33req (d : DecodedCap) :
    (prepBounds d a len).top33req.toNat = a.toNat + len.toNat := by
  have := a.isLt
  have := len.isLt
  rw [prepBounds, BitVec.toNat_add, BitVec.toNat_setWidth, BitVec.toNat_setWidth]
  omega

theorem toNat_prepBounds_explen (d : DecodedCap) :
    (prepBounds d a len).explen.toNat = (len.toNat / 512).size := by
  have := len.isLt
  rw [prepBounds, toNat_msbPosition, BitVec.toNat_setWidth, BitVec.extractLsb'_toNat,
    Nat.shiftRight_eq_div_pow]
  congr 1
  omega

/-- The exponent for a length is the least whose 512 granules exceed it. -/
theorem explen_le_iff (d : DecodedCap) {k : ℕ} :
    (prepBounds d a len).explen.toNat ≤ k ↔ len.toNat < 512 * 2 ^ k := by
  rw [toNat_prepBounds_explen, Nat.size_le, Nat.div_lt_iff_lt_mul (by norm_num), Nat.mul_comm]

theorem explen_le (d : DecodedCap) : (prepBounds d a len).explen.toNat ≤ 23 := by
  have := len.isLt
  rw [explen_le_iff]
  omega

theorem prepBounds_inBound_iff (d : DecodedCap) :
    (prepBounds d a len).inBound = true ↔
      d.base32.toNat ≤ a.toNat ∧ a.toNat + len.toNat ≤ d.top33.toNat := by
  have hdef : (prepBounds d a len).inBound =
      !(decide (d.top33 < (prepBounds d a len).top33req) || decide (a < d.base32)) := rfl
  rw [hdef, Bool.not_eq_true', Bool.or_eq_false_iff, decide_eq_false_iff_not,
    decide_eq_false_iff_not, BitVec.lt_def, BitVec.lt_def, toNat_prepBounds_top33req]
  omega

/-! ### The exponent -/

/-- The request `[a, t)` fits into nine bits at the exponent `e`, once it is rounded outwards. -/
def Fits (a t e : ℕ) : Prop := granulesUp t e < a / 2 ^ e + 512

/-- A request that fits is shorter than 512 granules. -/
theorem Fits.lt {x n e : ℕ} (h : Fits x (x + n) e) : n < 512 * 2 ^ e := by
  have h1 := (granulesUp_bounds (x + n) e).1
  have h2 := Nat.div_mul_le_self x (2 ^ e)
  have h3 : granulesUp (x + n) e * 2 ^ e < (x / 2 ^ e + 512) * 2 ^ e :=
    Nat.mul_lt_mul_of_pos_right h (Nat.two_pow_pos e)
  rw [Nat.add_mul] at h3
  omega

/-- A request inside at most 511 granules fits. -/
theorem Fits.of_granules {x t e b T : ℕ} (hb : b * 2 ^ e ≤ x) (hT : t ≤ T * 2 ^ e)
    (hspan : T ≤ b + 511) :
    Fits x t e := by
  have h1 : granulesUp t e ≤ T :=
    Nat.le_of_mul_le_mul_right (granulesUp_mul_le (Nat.dvd_mul_left _ _) hT) (Nat.two_pow_pos e)
  have h2 : b ≤ x / 2 ^ e := (Nat.le_div_iff_mul_le (Nat.two_pow_pos e)).mpr hb
  rw [Fits]
  omega

/-- At the largest exponent every request fits. -/
theorem fits_of_exp {x t : ℕ} (h : t ≤ 2 ^ 32) : Fits x t 24 :=
  .of_granules (b := 0) (T := 256) (by simp) (h.trans_eq (by norm_num)) (by norm_num)

/-- The exponent that `setBoundsEx` selects: the overflow decides. -/
def selectedExp (a : Word) (req : BoundReq) : BitVec 5 :=
  if (boundPath a req.top33req req.exp1).len.getLsbD 9 then req.exp2 else req.exp1

/-- The overflow says that the request does not fit. -/
theorem toNat_selectedExp (h : a.toNat + len.toNat ≤ 2 ^ 32) (d : DecodedCap)
    [Decidable (Fits a.toNat (a.toNat + len.toNat) (prepBounds d a len).exp1.toNat)] :
    (selectedExp a (prepBounds d a len)).toNat =
      if Fits a.toNat (a.toNat + len.toNat) (prepBounds d a len).exp1.toNat then
        (prepBounds d a len).exp1.toNat
      else (prepBounds d a len).exp2.toNat := by
  set s := (prepBounds d a len).explen with hs
  have hexp1 : (prepBounds d a len).exp1 = saturateExp s := rfl
  have hreq : (prepBounds d a len).top33req.toNat = a.toNat + len.toNat :=
    toNat_prepBounds_top33req d
  have hlen : len.toNat < 512 * 2 ^ s.toNat := (explen_le_iff d).mp le_rfl
  have hpath : granulesUp (a.toNat + len.toNat) (saturateExp s).toNat <
      a.toNat / 2 ^ (saturateExp s).toNat + 514 := by
    rw [toNat_saturateExp]
    split
    · have := fits_of_exp (x := a.toNat) h
      rw [Fits] at this
      omega
    · exact granulesUp_sub_lt (n := 512) (by omega)
  have hov := boundPath_overflow a (prepBounds d a len).top33req (prepBounds d a len).exp1
    (by rw [hreq]; exact div_le_granulesUp _ _ _) (by rw [hreq, hexp1]; omega)
  rw [hreq] at hov
  rw [selectedExp, hov]
  split_ifs with h1 h2 h2
  · rw [Fits] at h2
    rw [decide_eq_true_iff] at h1
    omega
  · rfl
  · rfl
  · rw [Fits] at h2
    rw [decide_eq_true_iff] at h1
    omega

/-- **The exponent.** It is the least one that exists and at which the request fits. -/
theorem selectedExp_isLeast (h : a.toNat + len.toNat ≤ 2 ^ 32) (d : DecodedCap) :
    IsLeast {e | (e ≤ 14 ∨ e = 24) ∧ Fits a.toNat (a.toNat + len.toNat) e}
      (selectedExp a (prepBounds d a len)).toNat := by
  classical
  set s := (prepBounds d a len).explen with hs
  have hexp1 : (prepBounds d a len).exp1 = saturateExp s := rfl
  have hexp2 : (prepBounds d a len).exp2 = saturateExp (s + 1) := rfl
  have hs23 : s.toNat ≤ 23 := explen_le d
  have hs1 : (s + 1).toNat = s.toNat + 1 := by
    have hone : (1 : BitVec 6).toNat = 1 := rfl
    rw [BitVec.toNat_add, hone]
    omega
  have hlen : len.toNat < 512 * 2 ^ s.toNat := (explen_le_iff d).mp le_rfl
  -- no exponent below the one of the length will do
  have hlow : ∀ e, Fits a.toNat (a.toNat + len.toNat) e → s.toNat ≤ e := by
    intro e he
    exact (explen_le_iff d).mpr he.lt
  have hsel := toNat_selectedExp h d
  rw [hexp1, hexp2, toNat_saturateExp, toNat_saturateExp, hs1] at hsel
  have h24 := fits_of_exp (x := a.toNat) h
  rw [hsel]
  by_cases hbig : 15 ≤ s.toNat
  · rw [if_pos hbig, if_pos h24]
    refine ⟨⟨.inr rfl, h24⟩, ?_⟩
    rintro e ⟨he, hfit⟩
    have := hlow e hfit
    omega
  · rw [if_neg hbig]
    split_ifs with hfit h15
    · exact ⟨⟨.inl (by omega), hfit⟩, fun e he => hlow e he.2⟩
    · refine ⟨⟨.inr rfl, h24⟩, ?_⟩
      rintro e ⟨he, hfit'⟩
      have := hlow e hfit'
      have hne : e ≠ s.toNat := fun heq => hfit (heq ▸ hfit')
      omega
    · refine ⟨⟨.inl (by omega), ?_⟩, ?_⟩
      · -- at the next exponent the request has at most 256 granules
        have hlen' : len.toNat ≤ 256 * 2 ^ (s.toNat + 1) := by
          rw [pow_succ]
          omega
        have := granulesUp_sub_lt (a := a.toNat) hlen'
        rw [Fits]
        omega
      · rintro e ⟨he, hfit'⟩
        have := hlow e hfit'
        have hne : e ≠ s.toNat := fun heq => hfit (heq ▸ hfit')
        omega

end Request

/-! ### Rounding outwards inside a parent -/

section Child

variable {c : Cap} {a len : Word}

/-- The bounds of a child that is cut out of a parent. -/
structure ChildOf (child parent : Cap) (a : Word) : Prop where
  /-- The child is well formed at the same address. -/
  wellFormed : child.WellFormed a
  /-- Its base is not below the base of the parent. -/
  base_le : parent.base33 a ≤ child.base33 a
  /-- Its top is not above the top of the parent. -/
  top_le : child.top33 a ≤ parent.top33 a

/-- The request lies inside the bounds of the parent, as the core decodes them. -/
def Inside (d : DecodedCap) (a len : Word) : Prop :=
  d.base32.toNat ≤ a.toNat ∧ a.toNat + len.toNat ≤ d.top33.toNat

/-- The exponent of the child does not exceed the exponent of the parent. -/
theorem selectedExp_le_exp (h : c.Bounded a) (hin : Inside (decodeCap c a) a len) (d : DecodedCap) :
    (selectedExp a (prepBounds d a len)).toNat ≤ c.exp := by
  obtain ⟨b, T, hb, hT, hspan⟩ := h.granules
  refine (selectedExp_isLeast (hin.2.trans h.top_le) d).2 ⟨c.exp_cases, ?_⟩
  exact .of_granules (hb ▸ hin.1) (hT ▸ hin.2) hspan

/-- Rounding both bounds outwards at an exponent that does not exceed the parent's stays inside the
parent. -/
theorem rounded_inside (h : c.Bounded a) (hin : Inside (decodeCap c a) a len) {e : ℕ}
    (he : e ≤ c.exp) :
    (decodeCap c a).base32.toNat ≤ a.toNat / 2 ^ e * 2 ^ e ∧
      granulesUp (a.toNat + len.toNat) e * 2 ^ e ≤ (decodeCap c a).top33.toNat := by
  obtain ⟨b, T, hb, hT, -⟩ := h.granules
  have hdvd : (2 : ℕ) ^ e ∣ 2 ^ c.exp := Nat.pow_dvd_pow 2 he
  exact ⟨le_granulesDown_mul (hb ▸ hdvd.mul_left b) hin.1,
    granulesUp_mul_le (hT ▸ hdvd.mul_left T) hin.2⟩

/-- The two paths and the choice between them, as the path of the selected exponent. -/
theorem setBoundsEx_eq (d : DecodedCap) (req : BoundReq) (exact : Bool) :
    setBoundsEx d a req exact =
      let path := boundPath a req.top33req (selectedExp a req)
      { cap := { d with
          top := path.top.setWidth 9
          base := path.base.setWidth 9
          cexp := compressExp (selectedExp a req)
          capCor := freshCor path.tophi
          valid := d.valid && !(exact && (path.topoff || path.baseoff)) && req.inBound }
        maska := path.mask.setWidth 32
        rlen := path.len.setWidth 32 <<< (selectedExp a req).toNat } := by
  rw [setBoundsEx, selectedExp]
  cases (boundPath a req.top33req req.exp1).len.getLsbD 9 <;> rfl

/-- Whatever the request, the corrections of the result match the address. -/
theorem setBoundsEx_coherent (d : DecodedCap) (exact : Bool) :
    (setBoundsEx d a (prepBounds d a len) exact).cap.toCap.Coherent a := by
  rw [setBoundsEx_eq]
  have hexp : (selectedExp a (prepBounds d a len)).toNat ≤ 14 ∨
      (selectedExp a (prepBounds d a len)).toNat = 24 := by
    rw [selectedExp]
    split
    · exact saturateExp_range _
    · exact saturateExp_range _
  exact freshCor_coherent (setWidth_boundPath_base a _ _ hexp) rfl

/-- **The rounded bounds.** Whatever the parent, the result decodes to the request rounded outwards
at the selected exponent. -/
theorem setBoundsEx_bounds (h : a.toNat + len.toNat ≤ 2 ^ 32) (d : DecodedCap) (exact : Bool) :
    let req := prepBounds d a len
    let c' := (setBoundsEx d a req exact).cap.toCap
    let e := (selectedExp a req).toNat
    c'.exp = e ∧ c'.WellFormed a ∧ c'.base33 a = a.toNat / 2 ^ e * 2 ^ e ∧
      c'.top33 a = granulesUp (a.toNat + len.toNat) e * 2 ^ e := by
  intro req c' e
  have ht33 : req.top33req.toNat = a.toNat + len.toNat := toNat_prepBounds_top33req _
  obtain ⟨⟨he, hfit⟩, -⟩ := selectedExp_isLeast h d
  have hc' : c' = _ := congrArg (fun r => r.cap.toCap) (setBoundsEx_eq (a := a) d req exact)
  have hexp : c'.exp = e := by rw [Cap.exp, hc', expandExp_compressExp he]
  have htop : granulesUp (a.toNat + len.toNat) e * 2 ^ e ≤ 2 ^ 32 :=
    granulesUp_mul_le (Nat.pow_dvd_pow 2 (by omega)) h
  obtain ⟨hwf, hbase, htop'⟩ := boundPath_wellFormed a req.top33req (selectedExp a req) (c := c') he
    (by rw [hc']) (by rw [hc']) (by rw [hc']) (by rw [hc'])
    (by rw [ht33]; exact div_le_granulesUp _ _ _) (by rw [ht33]; exact hfit)
      (by rw [ht33]; exact htop)
  rw [ht33] at htop'
  exact ⟨hexp, hwf, hbase, htop'⟩

/-- The tag of the result. -/
theorem setBoundsEx_valid (d : DecodedCap) (exact : Bool) :
    let req := prepBounds d a len
    let e := (selectedExp a req).toNat
    (setBoundsEx d a req exact).cap.valid = true ↔
      d.valid = true ∧ Inside d a len ∧
        (exact = true → 2 ^ e ∣ a.toNat ∧ 2 ^ e ∣ a.toNat + len.toNat) := by
  intro req e
  have ht33 : req.top33req.toNat = a.toNat + len.toNat := toNat_prepBounds_top33req _
  have hvalid := congrArg (fun r => r.cap.valid) (setBoundsEx_eq (a := a) d req exact)
  have htopoff : (boundPath a req.top33req (selectedExp a req)).topoff = false ↔
      2 ^ e ∣ a.toNat + len.toNat := by
    rw [Nat.dvd_iff_mod_eq_zero, ← ht33]
    exact bne_eq_false_iff_eq.trans (Bits.and_not_mask_eq_zero_iff _ _)
  have hbaseoff : (boundPath a req.top33req (selectedExp a req)).baseoff = false ↔
      2 ^ e ∣ a.toNat := by
    have ha : (a.setWidth 33).toNat = a.toNat := by
      have := a.isLt
      rw [BitVec.toNat_setWidth]
      omega
    rw [Nat.dvd_iff_mod_eq_zero, ← ha]
    exact bne_eq_false_iff_eq.trans (Bits.and_not_mask_eq_zero_iff _ _)
  rw [hvalid, Bool.and_eq_true, Bool.and_eq_true, prepBounds_inBound_iff, ← htopoff, ← hbaseoff]
  generalize (boundPath a req.top33req (selectedExp a req)).topoff = x
  generalize (boundPath a req.top33req (selectedExp a req)).baseoff = y
  rw [and_right_comm, and_assoc]
  have hexact : ∀ z x y : Bool, (!(z && (x || y))) = true ↔ (z = true → y = false ∧ x = false) := by
    decide
  exact and_congr_right' (and_congr_right' (hexact exact x y))

/-- **Setting bounds.** The result keeps its tag only if the request lies inside the parent, and
then the rounded child is well formed and lies inside the parent too. -/
theorem setBoundsEx_spec (h : c.WellFormed a) {exact : Bool}
    (hv : (setBoundsEx (decodeCap c a) a (prepBounds (decodeCap c a) a len) exact).cap.valid =
      true) :
    c.valid = true ∧
      ChildOf (setBoundsEx (decodeCap c a) a (prepBounds (decodeCap c a) a len) exact).cap.toCap
        c a := by
  obtain ⟨hcv, hin, -⟩ := (setBoundsEx_valid _ _).mp hv
  obtain ⟨-, hwf, hbase, htop⟩ :=
    setBoundsEx_bounds (hin.2.trans h.top_le) (decodeCap c a) exact
  obtain ⟨hbase', htop'⟩ :=
    rounded_inside h.bounded hin (selectedExp_le_exp h.bounded hin (decodeCap c a))
  rw [h.base32_eq, ← hbase] at hbase'
  rw [← htop] at htop'
  exact ⟨hcv, hwf, hbase', htop'⟩

end Child

/-! ### Rounding down -/

section Rounddown

variable {c : Cap} {a len : Word}

/-- The exponent that `setBoundsRounddown` selects. -/
def rounddownExp (req : BoundReq) : BitVec 6 :=
  if req.expb < req.explen ∧ ¬14 < req.expb then req.expb
  else if 14 < req.explen then 14 else req.explen

/-- The exponent is the least of 14, what the length needs and what the alignment allows. -/
theorem toNat_rounddownExp (req : BoundReq) :
    (rounddownExp req).toNat = min 14 (min req.explen.toNat req.expb.toNat) := by
  have h14 : (14 : BitVec 6).toNat = 14 := rfl
  simp only [rounddownExp, BitVec.lt_def, h14]
  split_ifs <;> omega

/-- The base, rounded down, is the granule of the address at the selected exponent. -/
theorem setBoundsRounddown_base (d : DecodedCap) (req : BoundReq) :
    let c' := (setBoundsRounddown d a req).toCap
    c'.exp = (rounddownExp req).toNat ∧ c'.base = addrMid a (expandExp c'.cexp) := by
  intro c'
  have hmin := toNat_rounddownExp req
  have hexp5 : ((rounddownExp req).setWidth 5).toNat = (rounddownExp req).toNat := by
    rw [BitVec.toNat_setWidth]
    omega
  have hexpand : expandExp c'.cexp = (rounddownExp req).setWidth 5 :=
    expandExp_compressExp (e := (rounddownExp req).setWidth 5) (.inl (by omega))
  refine ⟨by rw [Cap.exp, hexpand, hexp5], ?_⟩
  rw [hexpand, addrMid, hexp5]
  rfl

/-- Whatever the request, the corrections of the result match the address. -/
theorem setBoundsRounddown_coherent (d : DecodedCap) (req : BoundReq) :
    (setBoundsRounddown d a req).toCap.Coherent a :=
  freshCor_coherent (setBoundsRounddown_base d req).2 rfl

/-- **The bounds, rounded down.** Whatever the parent, the result starts at the address and takes as
many granules of the request as it can. -/
theorem setBoundsRounddown_bounds (h : a.toNat + len.toNat ≤ 2 ^ 32) (d : DecodedCap) :
    let req := prepBounds d a len
    let c' := (setBoundsRounddown d a req).toCap
    let e := (rounddownExp req).toNat
    c'.exp = e ∧ c'.WellFormed a ∧ c'.base33 a = a.toNat ∧
      c'.top33 a = a.toNat + min (511 * 2 ^ e) (len.toNat / 2 ^ e * 2 ^ e) := by
  intro req c' e
  have ht33 : req.top33req.toNat = a.toNat + len.toNat := toNat_prepBounds_top33req _
  have hexplen : ∀ k, req.explen.toNat ≤ k ↔ len.toNat < 512 * 2 ^ k := fun k => explen_le_iff d
  have hmin : e = min 14 (min req.explen.toNat req.expb.toNat) := toNat_rounddownExp req
  have hg : 0 < 2 ^ e := Nat.two_pow_pos e
  obtain ⟨hexp, hbase⟩ : c'.exp = e ∧ c'.base = addrMid a (expandExp c'.cexp) :=
    setBoundsRounddown_base d req
  -- the address is aligned to the selected granule
  have halign : 2 ^ e ∣ a.toNat := by
    refine (le_countTrailingZeros_iff a (by omega)).mp ?_
    have : req.expb = countTrailingZeros a := rfl
    rw [← this]
    omega
  have hdown : a.toNat / 2 ^ e * 2 ^ e = a.toNat := Nat.div_mul_cancel halign
  have hbaseNat : c'.base.toNat = a.toNat / 2 ^ e % 512 := by
    rw [← hexp, hbase, addrMid, BitVec.toNat_setWidth, BitVec.toNat_ushiftRight,
      Nat.shiftRight_eq_div_pow, Cap.exp]
  have htop : c'.top = if req.expb < req.explen ∨ 14 < req.explen then c'.base - 1
      else (req.top33req >>> e).setWidth 9 := rfl
  have h14 : (14 : BitVec 6).toNat = 14 := rfl
  have hone : (1 : BitVec 9).toNat = 1 := rfl
  simp only [BitVec.lt_def, h14] at htop
  -- it is enough to find the length in granules
  suffices hL : ∃ L ≤ 511, c'.top.toNat = (a.toNat / 2 ^ e + L) % 512 ∧
      L * 2 ^ e = min (511 * 2 ^ e) (len.toNat / 2 ^ e * 2 ^ e) by
    obtain ⟨L, hL, htopL, hmul⟩ := hL
    have hsum : (a.toNat / 2 ^ e + L) * 2 ^ e = a.toNat + L * 2 ^ e := by rw [Nat.add_mul, hdown]
    have hle : len.toNat / 2 ^ e * 2 ^ e ≤ len.toNat := Nat.div_mul_le_self _ _
    obtain ⟨hwf, hb33, ht33'⟩ := wellFormed_of_mantissas hbase htopL rfl (by rw [hexp]; omega)
      (by rw [hexp]; omega) (by rw [hexp, hsum]; omega)
    rw [hexp, hdown] at hb33
    rw [hexp, hsum, hmul] at ht33'
    exact ⟨hexp, hwf, hb33, ht33'⟩
  by_cases hlong : req.expb.toNat < req.explen.toNat ∨ 14 < req.explen.toNat
  · -- the request is longer than 511 granules: take as much as fits
    have hlen : 512 * 2 ^ e ≤ len.toNat := by
      rw [← not_lt, ← hexplen]
      omega
    have hlen' : 511 * 2 ^ e ≤ len.toNat / 2 ^ e * 2 ^ e :=
      Nat.mul_le_mul_right _ ((Nat.le_div_iff_mul_le hg).mpr (by omega))
    refine ⟨511, le_rfl, ?_, (min_eq_left hlen').symm⟩
    rw [htop, if_pos hlong, BitVec.toNat_sub, hbaseNat, hone]
    omega
  · -- the exponent is the one of the length, and the top is cut off
    rw [if_neg hlong] at htop
    have hlen : len.toNat < 512 * 2 ^ e := (hexplen e).mp (by omega)
    have hL : len.toNat / 2 ^ e ≤ 511 := Nat.le_of_lt_succ ((Nat.div_lt_iff_lt_mul hg).mpr hlen)
    refine ⟨len.toNat / 2 ^ e, hL, ?_, (min_eq_right (Nat.mul_le_mul_right _ hL)).symm⟩
    rw [htop, BitVec.toNat_setWidth, BitVec.toNat_ushiftRight, Nat.shiftRight_eq_div_pow, ht33,
      Nat.add_div_of_dvd_right halign]

theorem setBoundsRounddown_valid (d : DecodedCap) :
    (setBoundsRounddown d a (prepBounds d a len)).valid = true ↔
      d.valid = true ∧ Inside d a len := by
  rw [Inside, ← prepBounds_inBound_iff]
  exact Bool.and_eq_true_iff

/-- **Rounding down.** The result keeps its tag only if the request lies inside the parent; the
child then lies inside the request. -/
theorem setBoundsRounddown_spec (h : c.WellFormed a)
    (hv : (setBoundsRounddown (decodeCap c a) a (prepBounds (decodeCap c a) a len)).valid = true) :
    c.valid = true ∧
      ChildOf (setBoundsRounddown (decodeCap c a) a (prepBounds (decodeCap c a) a len)).toCap
        c a := by
  obtain ⟨hcv, hbase, htop⟩ := (setBoundsRounddown_valid _).mp hv
  obtain ⟨-, hwf, hb33, ht33⟩ := setBoundsRounddown_bounds (htop.trans h.top_le) (decodeCap c a)
  refine ⟨hcv, hwf, ?_, ?_⟩
  · rw [hb33, ← h.base32_eq]
    exact hbase
  · rw [ht33]
    refine le_trans (Nat.add_le_add_left ?_ _) htop
    exact (min_le_right _ _).trans (Nat.div_mul_le_self _ _)

end Rounddown

end Cheriot

end Croc
