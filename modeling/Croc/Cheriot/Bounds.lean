import Mathlib.Tactic.IntervalCases
import Croc.Lib.Bits
import Croc.Lib.Window
import Croc.Cheriot.Capability

/-!
# The meaning of compressed bounds

`expandBound33` masks, shifts and merges; here it is read as arithmetic. Write `e` for the exponent
of a capability, `G = 2 ^ e` for its granule and `W = 2 ^ (e + 9)` for its window. When the
correction bits match the address, the base is the anchor of `B * G` in the window below the
address, and the top lies `(T - B) mod 512` granules above it. For the largest exponent the window
is `2 ^ 33`, which no 33-bit bound can leave: there the base does not depend on the address at all.

## Main definitions

* `Cap.exp`, `Cap.base33`, `Cap.top33`: the exponent and the bounds of a capability at an address.
* `Cap.Coherent`: the correction bits match the address.
* `Cap.WellFormed`: coherent, and `base ≤ top ≤ 2 ^ 32` without a wrap.
* `Cap.Bounded`: coherent, and `base ≤ top ≤ 2 ^ 32` for the bounds as the core decodes them.

## Main results

* `Cap.base33_eq_anchor`, `Cap.top33_eq`: the bounds as arithmetic.
* `setAddress_valid_iff`: when moving the address keeps the tag.
* `setAddress_base33`, `setAddress_top33`: moving the address with the tag kept leaves both bounds
  in place.
* `setAddress_representable`: the representability check, for every capability that is bounded.
-/

namespace Croc

namespace Cheriot

open Bits (Word)

/-! ### Corrections and exponents -/

/-- The integer that a two-bit correction stands for. -/
def corInt (cor : BitVec 2) : ℤ :=
  if cor.getLsbD 1 then -1 else if cor.getLsbD 0 then 1 else 0

theorem corInt_getBaseCorrection (top base addr : BitVec 9) :
    corInt (getBaseCorrection (computeCorrections top base addr)) =
      if addr < base then -1 else 0 := by
  have h : ∀ t a : Bool, corInt (getBaseCorrection (BitVec.ofBoolListBE [xor t a, a])) =
      if a then -1 else 0 := by decide
  simpa [computeCorrections] using h (top < base) (addr < base)

theorem corInt_getTopCorrection (top base addr : BitVec 9) :
    corInt (getTopCorrection (computeCorrections top base addr)) =
      (if addr < base then -1 else 0) + if top < base then 1 else 0 := by
  have h : ∀ t a : Bool, corInt (getTopCorrection (BitVec.ofBoolListBE [xor t a, a])) =
      (if a then -1 else 0) + if t then 1 else 0 := by decide
  simpa [computeCorrections] using h (top < base) (addr < base)

theorem expandExp_cases (cexp : BitVec 4) :
    (expandExp cexp).toNat ≤ 14 ∨ (expandExp cexp).toNat = 24 := by
  revert cexp
  decide

theorem expandExp_le (cexp : BitVec 4) : (expandExp cexp).toNat ≤ 24 := by
  have := expandExp_cases cexp
  omega

theorem expandExp_compressExp {e : BitVec 5} (h : e.toNat ≤ 14 ∨ e.toNat = 24) :
    expandExp (compressExp e) = e := by
  revert e
  decide

/-! ### Expanding one bound -/

/-- The correction as a 33-bit number, all ones for `-1`. -/
def corVal (cor : BitVec 2) : BitVec 33 :=
  if cor.getLsbD 1 then BitVec.allOnes 33 else (BitVec.ofBool (cor.getLsbD 0)).setWidth 33

theorem expandBound33_def (mant : BitVec 9) (cor : BitVec 2) (exp5 : BitVec 5) (addr : Word) :
    expandBound33 mant cor exp5 addr =
      ((addr.setWidth 33 &&& BitVec.allOnes 33 <<< (exp5.toNat + 9)) +
        corVal cor <<< (exp5.toNat + 9)) ||| (mant.setWidth 33 <<< exp5.toNat) := by
  simp only [expandBound33, corVal, BitVec.shiftLeft_add]

theorem toNat_corVal_shiftLeft (cor : BitVec 2) (k : ℕ) :
    ((corVal cor <<< k).toNat : ℤ) = (corInt cor * 2 ^ k) % 2 ^ 33 := by
  unfold corInt corVal
  cases h1 : cor.getLsbD 1
  · cases h0 : cor.getLsbD 0 <;> simp [BitVec.toNat_shiftLeft, Nat.shiftLeft_eq]
  · have h : (2 ^ 33 - 1 : ℤ) * 2 ^ k = -1 * 2 ^ k + 2 ^ k * 2 ^ 33 := by ring
    simp only [if_true, BitVec.toNat_shiftLeft, BitVec.toNat_allOnes, Nat.shiftLeft_eq]
    rw [Int.natCast_mod, Nat.cast_mul]
    exact (congrArg (· % 2 ^ 33) h).trans (Int.add_mul_emod_self_right ..)

theorem toNat_mant_shiftLeft (mant : BitVec 9) {e : ℕ} (he : e ≤ 24) :
    (mant.setWidth 33 <<< e).toNat = mant.toNat * 2 ^ e := by
  have hm := mant.isLt
  have hlt : mant.toNat * 2 ^ e < 2 ^ 9 * 2 ^ 24 :=
    Nat.mul_lt_mul_of_lt_of_le hm (Nat.pow_le_pow_right (by omega) he) (by positivity)
  rw [BitVec.toNat_shiftLeft, Nat.shiftLeft_eq, BitVec.toNat_setWidth,
    Nat.mod_eq_of_lt (show mant.toNat < 2 ^ 33 by omega), Nat.mod_eq_of_lt (by omega)]

/-- The address bits above the mantissa, corrected. -/
theorem toNat_region (cor : BitVec 2) (addr : Word) (k : ℕ) :
    (((addr.setWidth 33 &&& BitVec.allOnes 33 <<< k) + corVal cor <<< k).toNat : ℤ) =
      ((addr.toNat / 2 ^ k + corInt cor) * 2 ^ k) % 2 ^ 33 := by
  have := addr.isLt
  have hhigh : (addr.setWidth 33 &&& BitVec.allOnes 33 <<< k).toNat =
      addr.toNat / 2 ^ k * 2 ^ k := by
    rw [Bits.toNat_and_mask, BitVec.toNat_setWidth,
      Nat.mod_eq_of_lt (show addr.toNat < 2 ^ 33 by omega)]
  rw [BitVec.toNat_add, Int.natCast_mod, Nat.cast_add, toNat_corVal_shiftLeft, hhigh]
  push_cast
  rw [Int.add_emod_emod, add_mul]

/-- **A bound as arithmetic.** Above the mantissa stand the address bits, corrected by at most one;
everything is modulo `2 ^ 33`. -/
theorem expandBound33_eq (mant : BitVec 9) (cor : BitVec 2) {exp5 : BitVec 5} (addr : Word)
    (he : exp5.toNat ≤ 24) :
    ((expandBound33 mant cor exp5 addr).toNat : ℤ) =
      ((addr.toNat / 2 ^ (exp5.toNat + 9) + corInt cor) * 2 ^ (exp5.toNat + 9) +
        mant.toNat * 2 ^ exp5.toNat) % 2 ^ 33 := by
  have hexp := expandBound33_def mant cor exp5 addr
  have hregion := toNat_region cor addr (exp5.toNat + 9)
  have hmant := toNat_mant_shiftLeft mant he
  set region := (addr.setWidth 33 &&& BitVec.allOnes 33 <<< (exp5.toNat + 9)) +
    corVal cor <<< (exp5.toNat + 9)
  have hmantLt : (mant.setWidth 33 <<< exp5.toNat).toNat < 2 ^ (exp5.toNat + 9) := by
    rw [hmant, pow_add, Nat.mul_comm]
    exact Nat.mul_lt_mul_of_pos_left mant.isLt (by positivity)
  have hregionDvd : 2 ^ (exp5.toNat + 9) ∣ region.toNat := by
    have : (2 ^ (exp5.toNat + 9) : ℤ) ∣ (region.toNat : ℤ) := by
      rw [hregion]
      refine Int.dvd_of_emod_eq_zero ?_
      rw [Int.emod_emod_of_dvd _ (pow_dvd_pow 2 (by omega)), Int.mul_emod_left]
    exact_mod_cast this
  have hor := Bits.toNat_or_of_lt hregionDvd hmantLt
  have hlt := (region ||| mant.setWidth 33 <<< exp5.toNat).isLt
  rw [hexp, ← Nat.mod_eq_of_lt hlt, hor, hmant, Int.natCast_mod, Nat.cast_add, hregion]
  push_cast
  rw [Int.emod_add_emod]

/-! ### The bounds of a capability -/

namespace Cap

variable (c : Cap) (a : Word)

/-- The expanded exponent. -/
def exp : ℕ := (expandExp c.cexp).toNat

/-- The base of a capability at an address, before it is cut to 32 bits. -/
def base33 : ℕ :=
  (expandBound33 c.base (getBaseCorrection c.capCor) (expandExp c.cexp) a).toNat

/-- The top of a capability at an address. -/
def top33 : ℕ := (expandBound33 c.top (getTopCorrection c.capCor) (expandExp c.cexp) a).toNat

/-- The distance from base to top that the mantissas encode. -/
def span : ℕ := (c.top.toNat + 512 - c.base.toNat) % 512 * 2 ^ c.exp

/-- The correction bits match the address. -/
def Coherent : Prop := c.capCor = computeCorrections c.top c.base (addrMid a (expandExp c.cexp))

instance : Decidable (c.Coherent a) := inferInstanceAs (Decidable (_ = _))

/-- A capability whose bounds mean what they say at `a`: the corrections match and neither bound
has wrapped. -/
structure WellFormed : Prop where
  /-- The correction bits match the address. -/
  coherent : c.Coherent a
  /-- The base did not wrap. -/
  base_lt : c.base33 a < 2 ^ 32
  /-- The bounds are in order. -/
  base_le_top : c.base33 a ≤ c.top33 a
  /-- The top does not exceed the address space. -/
  top_le : c.top33 a ≤ 2 ^ 32

theorem exp_cases : c.exp ≤ 14 ∨ c.exp = 24 := expandExp_cases c.cexp

theorem exp_le : c.exp ≤ 24 := expandExp_le c.cexp

/-- A capability whose corrections match the address and whose bounds, as the core decodes them, are
in order and inside the address space. With the largest exponent this admits base mantissas that
`WellFormed` does not, since the core drops the upper bit of the base. -/
structure Bounded : Prop where
  /-- The correction bits match the address. -/
  coherent : c.Coherent a
  /-- The bounds are in order. -/
  base_le_top : (decodeCap c a).base32.toNat ≤ (decodeCap c a).top33.toNat
  /-- The top does not exceed the address space. -/
  top_le : (decodeCap c a).top33.toNat ≤ 2 ^ 32

end Cap

/-- The nine bits above the exponent are below the base mantissa exactly when the address, inside
its aligned region, is below the base. -/
theorem addrMid_lt_iff (a : Word) (e : BitVec 5) (b : BitVec 9) :
    addrMid a e < b ↔ a.toNat % 2 ^ (e.toNat + 9) < b.toNat * 2 ^ e.toNat := by
  have h : (addrMid a e).toNat = a.toNat % 2 ^ (e.toNat + 9) / 2 ^ e.toNat := by
    rw [addrMid, BitVec.toNat_setWidth, BitVec.toNat_ushiftRight, Nat.shiftRight_eq_div_pow,
      pow_add, Nat.mod_mul_right_div_self]
  rw [BitVec.lt_def, h, Nat.div_lt_iff_lt_mul (by positivity)]

namespace Cap

variable {c : Cap} {a p : Word}

/-- **The base.** It is the anchor of the base mantissa below the address. -/
theorem base33_eq_anchor (h : c.Coherent a) :
    (c.base33 a : ℤ) =
      Window.anchor (2 ^ (c.exp + 9)) (c.base.toNat * 2 ^ c.exp) a.toNat % 2 ^ 33 := by
  have hB : (c.base.toNat * 2 ^ c.exp : ℤ) < 2 ^ (c.exp + 9) := by
    have := Nat.mul_lt_mul_of_pos_left c.base.isLt (show 0 < 2 ^ c.exp by positivity)
    rw [← pow_add, Nat.mul_comm] at this
    exact_mod_cast this
  have hiff := addrMid_lt_iff a (expandExp c.cexp) c.base
  rw [base33, expandBound33_eq _ _ _ (expandExp_le _), h, corInt_getBaseCorrection,
    Window.anchor_eq_region (by positivity) hB]
  have hlt : (a.toNat : ℤ) % 2 ^ (c.exp + 9) < c.base.toNat * 2 ^ c.exp ↔
      addrMid a (expandExp c.cexp) < c.base := by
    rw [hiff]
    unfold exp
    exact_mod_cast Iff.rfl
  simp only [hlt]
  rfl

/-- **The top.** It lies the span above the base. -/
theorem top33_eq (h : c.Coherent a) : c.top33 a = (c.base33 a + c.span) % 2 ^ 33 := by
  have hT := c.top.isLt
  have hB := c.base.isLt
  have hspan : (c.span : ℤ) = ((c.top.toNat : ℤ) - c.base.toNat +
      (if c.top < c.base then 1 else 0) * 512) * 2 ^ c.exp := by
    have hmod : (((c.top.toNat + 512 - c.base.toNat) % 512 : ℕ) : ℤ) =
        (c.top.toNat : ℤ) - c.base.toNat + (if c.top < c.base then 1 else 0) * 512 := by
      simp only [BitVec.lt_def]
      split <;> omega
    rw [span, Nat.cast_mul, hmod]
    push_cast
    rfl
  have hcast : (c.top33 a : ℤ) = ((c.base33 a : ℤ) + c.span) % 2 ^ 33 := by
    rw [top33, base33, expandBound33_eq _ _ _ (expandExp_le _),
      expandBound33_eq _ _ _ (expandExp_le _), h, corInt_getBaseCorrection, corInt_getTopCorrection,
      Int.emod_add_emod, hspan]
    congr 1
    rw [exp, pow_add]
    ring
  exact_mod_cast hcast

theorem span_lt (c : Cap) : c.span < 2 ^ (c.exp + 9) := by
  have h1 : (c.top.toNat + 512 - c.base.toNat) % 512 < 2 ^ 9 := Nat.mod_lt _ (by omega)
  rw [span, pow_add, Nat.mul_comm (2 ^ c.exp)]
  exact Nat.mul_lt_mul_of_pos_right h1 (Nat.two_pow_pos _)

/-- In a well-formed capability the top is the base plus the span, with no wrap. -/
theorem WellFormed.top_eq (h : c.WellFormed a) : c.top33 a = c.base33 a + c.span := by
  have htop := top33_eq h.coherent
  have hle := h.base_le_top
  have hlt := h.base_lt
  have hspan : c.span < 2 ^ 33 :=
    c.span_lt.trans_le (Nat.pow_le_pow_right (by omega) (by have := c.exp_le; omega))
  omega

/-- With the largest exponent a bound is its mantissa, wherever the address is. -/
theorem base33_of_exp (he : c.exp = 24) : c.base33 a = c.base.toNat * 2 ^ 24 := by
  have hb := c.base.isLt
  have h := expandBound33_eq c.base (getBaseCorrection c.capCor) a (expandExp_le c.cexp)
  rw [show (expandExp c.cexp).toNat = 24 from he] at h
  have hcast : (c.base33 a : ℤ) = c.base.toNat * 2 ^ 24 := by
    rw [base33, h, Int.add_comm, Int.add_mul_emod_self_right]
    exact Int.emod_eq_of_lt (by positivity) (by omega)
  exact_mod_cast hcast

theorem top33_of_exp (he : c.exp = 24) : c.top33 a = c.top.toNat * 2 ^ 24 := by
  have ht := c.top.isLt
  have h := expandBound33_eq c.top (getTopCorrection c.capCor) a (expandExp_le c.cexp)
  rw [show (expandExp c.cexp).toNat = 24 from he] at h
  have hcast : (c.top33 a : ℤ) = c.top.toNat * 2 ^ 24 := by
    rw [top33, h, Int.add_comm, Int.add_mul_emod_self_right]
    exact Int.emod_eq_of_lt (by positivity) (by omega)
  exact_mod_cast hcast

theorem wellFormed_iff : c.WellFormed a ↔
    c.Coherent a ∧ c.base33 a < 2 ^ 32 ∧ c.base33 a + c.span ≤ 2 ^ 32 := by
  constructor
  · intro h
    exact ⟨h.coherent, h.base_lt, h.top_eq ▸ h.top_le⟩
  · rintro ⟨hc, hb, ht⟩
    have htop := top33_eq hc
    exact ⟨hc, hb, by omega, by omega⟩

end Cap

/-! ### Moving the address -/

/-- The base that the core works with, as a number. -/
theorem toNat_decodeCap_base32 (c : Cap) (a : Word) :
    (decodeCap c a).base32.toNat = c.base33 a % 2 ^ 32 := by
  simp [decodeCap, Cap.base33, BitVec.toNat_setWidth]

theorem toNat_decodeCap_top33 (c : Cap) (a : Word) : (decodeCap c a).top33.toNat = c.top33 a := rfl

theorem Cap.WellFormed.base32_eq {c : Cap} {a : Word} (h : c.WellFormed a) :
    (decodeCap c a).base32.toNat = c.base33 a := by
  rw [toNat_decodeCap_base32, Nat.mod_eq_of_lt h.base_lt]

theorem Cap.WellFormed.bounded {c : Cap} {a : Word} (h : c.WellFormed a) : c.Bounded a :=
  ⟨h.coherent, by rw [h.base32_eq]; exact h.base_le_top, h.top_le⟩

/-- Bounds that the core finds in order have not wrapped, unless the exponent is the largest. -/
theorem Cap.Bounded.wellFormed_or {c : Cap} {a : Word} (h : c.Bounded a) :
    c.WellFormed a ∨ c.exp = 24 := by
  refine c.exp_cases.imp_left fun he => ?_
  have hle := h.base_le_top
  have htop := h.top_le
  rw [toNat_decodeCap_base32, toNat_decodeCap_top33] at hle
  rw [toNat_decodeCap_top33] at htop
  have htop33 := Cap.top33_eq h.coherent
  have hspan := c.span_lt
  have hw : 2 ^ (c.exp + 9) ≤ 2 ^ 23 := Nat.pow_le_pow_right (by omega) (by omega)
  -- the base is less than a window below the address, or has wrapped at zero
  have hbase : c.base33 a < 2 ^ 32 := by
    have hanchor := Cap.base33_eq_anchor h.coherent
    have hpos : (0 : ℤ) < 2 ^ (c.exp + 9) := by positivity
    have hwz : (2 : ℤ) ^ (c.exp + 9) ≤ 2 ^ 23 := by exact_mod_cast hw
    have h1 := Window.anchor_le (r := c.base.toNat * 2 ^ c.exp) (a := a.toNat) hpos
    have h2 := Window.lt_anchor_add (r := c.base.toNat * 2 ^ c.exp) (a := a.toNat) hpos
    have ha := a.isLt
    omega
  exact Cap.wellFormed_iff.mpr ⟨h.coherent, hbase, by omega⟩

/-- The representability check, as a comparison with the window above the base. -/
theorem highDelta_eq_zero_iff (x : BitVec 33) (e : ℕ) :
    x.extractLsb' 9 24 &&& (BitVec.allOnes 24 <<< e) = 0 ↔ x.toNat < 2 ^ (e + 9) := by
  have hlt : x.toNat / 2 ^ 9 < 2 ^ 24 := by have := x.isLt; omega
  rw [← BitVec.toNat_inj, Bits.toNat_and_mask, BitVec.extractLsb'_toNat, Nat.shiftRight_eq_div_pow,
    Nat.mod_eq_of_lt hlt, Nat.div_div_eq_div_mul, ← pow_add, Nat.add_comm 9 e]
  simp

/-- **Representability.** Moving the address keeps the tag exactly inside the window that starts at
the base; with the largest exponent the window is everything. -/
theorem setAddress_valid_iff {c : Cap} {a : Word} (h : c.WellFormed a) (p : Word) :
    (setAddress (decodeCap c a) p).valid = true ↔
      c.valid = true ∧ (c.exp = 24 ∨
        c.base33 a ≤ p.toNat ∧ p.toNat < c.base33 a + 2 ^ (c.exp + 9)) := by
  have hb := h.base_lt
  have hp := p.isLt
  have hsub : (p.setWidth 33 - (decodeCap c a).base32.setWidth 33).toNat =
      (2 ^ 33 - c.base33 a + p.toNat) % 2 ^ 33 := by
    rw [BitVec.toNat_sub, BitVec.toNat_setWidth, BitVec.toNat_setWidth, h.base32_eq,
      Nat.mod_eq_of_lt (show c.base33 a < 2 ^ 33 by omega),
      Nat.mod_eq_of_lt (show p.toNat < 2 ^ 33 by omega)]
  have hkey : (setAddress (decodeCap c a) p).valid =
      (c.valid && ((p.setWidth 33 - (decodeCap c a).base32.setWidth 33).extractLsb' 9 24 &&&
        BitVec.allOnes 24 <<< c.exp) == 0) := rfl
  rw [hkey, Bool.and_eq_true, beq_iff_eq, highDelta_eq_zero_iff, hsub]
  refine and_congr_right fun _ => ?_
  rcases c.exp_cases with he | he
  · have hw : 2 ^ (c.exp + 9) ≤ 2 ^ 23 := Nat.pow_le_pow_right (by omega) (by omega)
    have h24 : c.exp ≠ 24 := by omega
    simp only [h24, false_or]
    omega
  · rw [he]
    omega

theorem setAddress_valid_of_exp {c : Cap} (he : c.exp = 24) (a p : Word) :
    (setAddress (decodeCap c a) p).valid = c.valid := by
  have hkey : (setAddress (decodeCap c a) p).valid =
      (c.valid && ((p.setWidth 33 - (decodeCap c a).base32.setWidth 33).extractLsb' 9 24 &&&
        BitVec.allOnes 24 <<< c.exp) == 0) := rfl
  rw [hkey, (highDelta_eq_zero_iff _ _).mpr (by rw [he]; exact BitVec.isLt _), beq_self_eq_true,
    Bool.and_true]

theorem setAddress_toCap (d : DecodedCap) (p : Word) :
    (setAddress d p).toCap = { d.toCap with
      valid := (setAddress d p).valid
      capCor := computeCorrections d.top d.base (addrMid p (expandExp d.cexp)) } := rfl

theorem setAddress_coherent (d : DecodedCap) (p : Word) : (setAddress d p).toCap.Coherent p := rfl

@[simp] theorem setAddress_span (d : DecodedCap) (p : Word) :
    (setAddress d p).toCap.span = d.toCap.span := rfl

@[simp] theorem setAddress_exp (d : DecodedCap) (p : Word) :
    (setAddress d p).toCap.exp = d.toCap.exp := rfl

/-- Moving the address with the tag kept leaves the base in place. -/
theorem setAddress_base33 {c : Cap} {a p : Word} (h : c.WellFormed a)
    (hv : (setAddress (decodeCap c a) p).valid = true) :
    (setAddress (decodeCap c a) p).toCap.base33 p = c.base33 a := by
  have hnew := Cap.base33_eq_anchor (setAddress_coherent (decodeCap c a) p)
  have hold := Cap.base33_eq_anchor h.coherent
  have hb := h.base_lt
  have hexp : (setAddress (decodeCap c a) p).toCap.exp = c.exp := rfl
  have hbase : (setAddress (decodeCap c a) p).toCap.base = c.base := rfl
  rw [hexp, hbase] at hnew
  obtain ⟨-, hrange⟩ := (setAddress_valid_iff h p).mp hv
  rcases c.exp_cases with he | he
  · -- a small window: the anchor is the base itself, and the new address lies in its window
    have hw : (2 : ℤ) ^ (c.exp + 9) ≤ 2 ^ 23 := pow_le_pow_right₀ (by norm_num) (by omega)
    have hpos : (0 : ℤ) < 2 ^ (c.exp + 9) := by positivity
    have hle := Window.anchor_le (r := c.base.toNat * 2 ^ c.exp) (a := a.toNat) hpos
    have hlt := Window.lt_anchor_add (r := c.base.toNat * 2 ^ c.exp) (a := a.toNat) hpos
    have ha := a.isLt
    have hanchor : Window.anchor (2 ^ (c.exp + 9)) (c.base.toNat * 2 ^ c.exp) a.toNat =
        c.base33 a := by omega
    obtain ⟨h1, h2⟩ := hrange.resolve_left (by omega)
    have hmove := Window.anchor_eq_anchor (W := 2 ^ (c.exp + 9)) (r := c.base.toNat * 2 ^ c.exp)
      (a := a.toNat) (p := p.toNat) (by omega) (by rw [hanchor]; exact_mod_cast h2)
    rw [hmove, ← hold] at hnew
    exact_mod_cast hnew
  · -- the window is the whole 33-bit space, so the address does not matter
    rw [he] at hnew hold
    have hmod : ∀ x : ℤ, Window.anchor (2 ^ (24 + 9)) (c.base.toNat * 2 ^ 24) x % 2 ^ 33 =
        (c.base.toNat * 2 ^ 24) % 2 ^ 33 := fun x => Window.anchor_emod
    rw [hmod] at hnew hold
    rw [← hold] at hnew
    exact_mod_cast hnew

/-- **Moving the address keeps the bounds.** -/
theorem setAddress_wellFormed {c : Cap} {a p : Word} (h : c.WellFormed a)
    (hv : (setAddress (decodeCap c a) p).valid = true) :
    (setAddress (decodeCap c a) p).toCap.WellFormed p := by
  have hbase := setAddress_base33 h hv
  have hspan : (setAddress (decodeCap c a) p).toCap.span = c.span := rfl
  rw [Cap.wellFormed_iff] at h ⊢
  refine ⟨setAddress_coherent _ p, ?_, ?_⟩
  · rw [hbase]
    exact h.2.1
  · rw [hbase, hspan]
    exact h.2.2

theorem setAddress_top33 {c : Cap} {a p : Word} (h : c.WellFormed a)
    (hv : (setAddress (decodeCap c a) p).valid = true) :
    (setAddress (decodeCap c a) p).toCap.top33 p = c.top33 a := by
  rw [(setAddress_wellFormed h hv).top_eq, h.top_eq, setAddress_base33 h hv]
  rfl

/-- **The representability check.** Moving the address keeps the tag exactly inside the window that
starts at the base, or anywhere with the largest exponent. The capability then decodes to the same
bounds at the new address, and nothing but its correction bits has changed. -/
theorem setAddress_representable {c : Cap} {a : Word} (h : c.Bounded a) (p : Word) :
    ((setAddress (decodeCap c a) p).valid = true ↔
      c.valid = true ∧ (c.exp = 24 ∨ (decodeCap c a).base32.toNat ≤ p.toNat ∧
        p.toNat < (decodeCap c a).base32.toNat + 2 ^ (c.exp + 9))) ∧
    ((setAddress (decodeCap c a) p).valid = true →
      let c' := encodeCap (setAddress (decodeCap c a) p)
      (decodeCap c' p).base32 = (decodeCap c a).base32 ∧
        (decodeCap c' p).top33 = (decodeCap c a).top33 ∧
        (decodeCap c' p).perms = (decodeCap c a).perms ∧ c' = { c with capCor := c'.capCor }) := by
  have hfields : (setAddress (decodeCap c a) p).valid = true → c.valid = true →
      encodeCap (setAddress (decodeCap c a) p) =
        { c with capCor := (encodeCap (setAddress (decodeCap c a) p)).capCor } := by
    intro hv hcv
    rw [encodeCap, setAddress_toCap, hv, ← hcv]
    rfl
  obtain hwf | he := h.wellFormed_or
  · have hiff := setAddress_valid_iff hwf p
    refine ⟨by rw [hwf.base32_eq]; exact hiff, fun hv => ⟨?_, ?_, rfl, hfields hv (hiff.mp hv).1⟩⟩
    · refine BitVec.eq_of_toNat_eq ?_
      rw [hwf.base32_eq, ← setAddress_base33 hwf hv]
      exact (setAddress_wellFormed hwf hv).base32_eq
    · exact BitVec.eq_of_toNat_eq (setAddress_top33 hwf hv)
  · have hv := setAddress_valid_of_exp he a p
    refine ⟨by simp [hv, he], fun hval => ⟨?_, ?_, rfl, hfields hval (hv ▸ hval)⟩⟩
    · refine BitVec.eq_of_toNat_eq ?_
      rw [toNat_decodeCap_base32, toNat_decodeCap_base32, Cap.base33_of_exp he]
      exact congrArg (· % 2 ^ 32) (Cap.base33_of_exp he)
    · refine BitVec.eq_of_toNat_eq ?_
      rw [toNat_decodeCap_top33, toNat_decodeCap_top33, Cap.top33_of_exp he]
      exact Cap.top33_of_exp he

/-- A capability for `[0x10000100, 0x10000200)` at its base. -/
def objectCap : Cap :=
  { rootCapTm with valid := true, cexp := 0, base := 0x100, top := 0, capCor := 0b10 }

theorem setAddress_representable_objectCap :
    let c' := encodeCap (setAddress (decodeCap objectCap 0x10000100) 0x100001f8)
    c'.valid = true ∧ (decodeCap c' 0x100001f8).base32 = 0x10000100 ∧
      (decodeCap c' 0x100001f8).top33 = 0x10000200 := by
  have h : objectCap.Bounded 0x10000100 := ⟨by decide, by decide, by decide⟩
  have hv : (setAddress (decodeCap objectCap 0x10000100) 0x100001f8).valid = true :=
    (setAddress_representable h 0x100001f8).1.mpr (by decide)
  obtain ⟨hb, ht, -, -⟩ := (setAddress_representable h 0x100001f8).2 hv
  exact ⟨hv, hb.trans (by decide), ht.trans (by decide)⟩

end Cheriot

end Croc
