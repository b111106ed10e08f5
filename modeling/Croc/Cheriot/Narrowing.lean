import Croc.Cheriot.Ex

/-!
# The instructions that narrow bounds

`CSETBOUNDS`, `CSETBOUNDSEXACT` and `CSETBOUNDSROUNDDOWN` cut a capability out of the one they are
given; `CRRL` and `CRAM` tell in advance how a request would be rounded. What they have in common is
the exponent: the least one at which the request fits into nine bits. Every result here is a
consequence of that, and none looks into the two parallel paths of the datapath again.

`CRRL` and `CRAM` ask the question at address zero, while the exact operation is asked at the
address of the object. The exponents of the two may differ, but only downwards: the rounded object
fits at the exponent that `CRAM` announced, and whatever fits there is a multiple of the smaller
granule too.

## Main definitions

* `RegVal.base`, `RegVal.top`: the bounds of a register, as the core decodes them.
* `RegVal.narrow`, `RegVal.narrowDown`: a register with its bounds set to a request.

## Main results

* `setBounds_correct`: setting bounds contains the request, stays inside the parent and rounds by
  less than a granule.
* `rounddown_optimal`: rounding down loses as little as any encoding has to.
* `crrl_cram_exact`: what `CRRL` and `CRAM` announce can be set exactly, and nothing smaller can.
-/

namespace Croc

namespace Cheriot

open Bits (Word)

namespace RegVal

variable (r : RegVal)

/-- The base of a register. -/
def base : ℕ := r.full.base32.toNat

/-- The top of a register. -/
def top : ℕ := r.full.top33.toNat

/-- A register with its bounds set to `len` bytes from its address, rounded outwards. -/
def narrow (len : Word) (exact : Bool) : RegVal :=
  let tfcap := (setBoundsEx r.full r.data (prepBounds r.full r.data len) exact).cap
  ⟨r.data, { tfcap.toCap with valid := tfcap.valid && !isSealed r.full }⟩

/-- A register with its bounds set to at most `len` bytes from its address. -/
def narrowDown (len : Word) : RegVal :=
  let tfcap := setBoundsRounddown r.full r.data (prepBounds r.full r.data len)
  ⟨r.data, { tfcap.toCap with valid := tfcap.valid && !isSealed r.full }⟩

end RegVal

section Narrow

variable {r : RegVal} {len : Word}

/-- The exponent that a request gets. -/
def RegVal.narrowExp (r : RegVal) (len : Word) : ℕ :=
  (selectedExp r.data (prepBounds r.full r.data len)).toNat

/-- The bounds of the result, whether it keeps its tag or not. -/
theorem narrow_bounds (h : r.data.toNat + len.toNat ≤ 2 ^ 32) (exact : Bool) :
    (r.narrow len exact).cap.exp = r.narrowExp len ∧ (r.narrow len exact).cap.WellFormed r.data ∧
      (r.narrow len exact).base = r.data.toNat / 2 ^ r.narrowExp len * 2 ^ r.narrowExp len ∧
      (r.narrow len exact).top =
        granulesUp (r.data.toNat + len.toNat) (r.narrowExp len) * 2 ^ r.narrowExp len := by
  obtain ⟨hexp, hwf, hbase, htop⟩ := setBoundsEx_bounds h r.full exact
  have hwf' : (r.narrow len exact).cap.WellFormed r.data := ⟨hwf.1, hwf.2, hwf.3, hwf.4⟩
  exact ⟨hexp, hwf', hwf'.base32_eq.trans hbase, htop⟩

/-- The tag of the result. -/
theorem narrow_valid_iff (exact : Bool) :
    (r.narrow len exact).cap.valid = true ↔
      (r.cap.valid = true ∧ Inside r.full r.data len ∧
        (exact = true → 2 ^ r.narrowExp len ∣ r.data.toNat ∧
          2 ^ r.narrowExp len ∣ r.data.toNat + len.toNat)) ∧ isSealed r.full = false := by
  have hdef : (r.narrow len exact).cap.valid =
      ((setBoundsEx r.full r.data (prepBounds r.full r.data len) exact).cap.valid &&
        !isSealed r.full) := rfl
  rw [hdef, Bool.and_eq_true, Bool.not_eq_true']
  exact and_congr_left' (setBoundsEx_valid r.full exact)

end Narrow

/-- **Setting bounds.** For a request inside a tagged, unsealed register the result is tagged,
contains the request, lies inside the register and exceeds the request by less than a granule at
either end. The exact operation gives the same capability, and keeps the tag exactly if nothing was
rounded. For a request that is not inside the register neither keeps the tag. -/
theorem setBounds_correct (i : ExIn) (hv : i.cs1.cap.valid = true)
    (hs : isSealed i.cs1.full = false)
    (hb : i.cs1.cap.Bounded i.cs1.data) :
    let a := i.cs1.data.toNat
    let n := i.cs2.data.toNat
    let r := { i with op := .csetBounds }.result
    let rx := { i with op := .csetBoundsEx }.result
    (i.cs1.base ≤ a → a + n ≤ i.cs1.top →
      r.cap.valid = true ∧ r.data = i.cs1.data ∧ r.cap.WellFormed i.cs1.data ∧
        i.cs1.base ≤ r.base ∧ r.base ≤ a ∧ a + n ≤ r.top ∧ r.top ≤ i.cs1.top ∧
        a - r.base < 2 ^ r.cap.exp ∧ r.top - (a + n) < 2 ^ r.cap.exp ∧
        rx = { r with cap := { r.cap with valid := rx.cap.valid } } ∧
        (rx.cap.valid = true ↔ r.base = a ∧ r.top = a + n)) ∧
    (a < i.cs1.base ∨ i.cs1.top < a + n → r.cap.valid = false ∧ rx.cap.valid = false) := by
  intro a n r rx
  have hvalid : ∀ exact, (i.cs1.narrow i.cs2.data exact).cap.valid = true ↔ _ := narrow_valid_iff
  constructor
  · intro hbase htop
    have hin : Inside i.cs1.full i.cs1.data i.cs2.data := ⟨hbase, htop⟩
    have h32 : a + n ≤ 2 ^ 32 := htop.trans hb.top_le
    obtain ⟨hexp, hwf, hrb, hrt⟩ := narrow_bounds h32 false
    obtain ⟨hb', ht'⟩ := rounded_inside hb hin (selectedExp_le_exp hb hin i.cs1.full)
    set e := i.cs1.narrowExp i.cs2.data with he
    have hrv : r.cap.valid = true := (hvalid false).mpr ⟨⟨hv, hin, nofun⟩, hs⟩
    have hup := granulesUp_bounds (a + n) e
    have hdown := Nat.div_mul_le_self a (2 ^ e)
    have hdown' := Nat.lt_div_mul_add (a := a) (Nat.two_pow_pos e)
    have hrb' : r.base = a / 2 ^ e * 2 ^ e := hrb
    have hrt' : r.top = granulesUp (a + n) e * 2 ^ e := hrt
    have hexp' : r.cap.exp = e := hexp
    rw [hexp', hrb', hrt']
    refine ⟨hrv, rfl, hwf, hb', hdown, hup.1, ht', by omega, by omega, ?_, ?_⟩
    · exact congrArg (fun v => (⟨i.cs1.data, { r.cap with valid := v }⟩ : RegVal)) rfl
    · rw [show rx.cap.valid = true ↔ _ from hvalid true, granulesUp_mul_eq_iff]
      have hdiv : a / 2 ^ e * 2 ^ e = a ↔ 2 ^ e ∣ a :=
        ⟨fun h => ⟨a / 2 ^ e, by rw [Nat.mul_comm, h]⟩, Nat.div_mul_cancel⟩
      rw [hdiv]
      exact ⟨fun h => h.1.2.2 rfl, fun h => ⟨⟨hv, hin, fun _ => h⟩, hs⟩⟩
  · intro hout
    have hnot : ∀ exact, (i.cs1.narrow i.cs2.data exact).cap.valid = false := by
      intro exact
      rw [Bool.eq_false_iff, ne_eq, hvalid]
      rintro ⟨⟨-, ⟨h1, h2⟩, -⟩, -⟩
      change i.cs1.base ≤ a at h1
      change a + n ≤ i.cs1.top at h2
      omega
    exact ⟨hnot false, hnot true⟩

/-- An object of 600 bytes is cut out of the memory root. The length needs granules of two bytes. -/
def cutObject : ExIn :=
  { (default : ExIn) with cs1 := ⟨0x10000100, rootCapTm⟩, cs2 := .ofData 600 }

theorem setBounds_correct_cutObject :
    let r := { cutObject with op := .csetBounds }.result
    r.cap.valid = true ∧ r.base ≤ 0x10000100 ∧ 0x10000100 + 600 ≤ r.top := by
  have h :=
    (setBounds_correct cutObject (by decide) (by decide) ⟨by decide, by decide, by decide⟩).1
    (by decide) (by decide)
  exact ⟨h.1, h.2.2.2.2.1, h.2.2.2.2.2.1⟩

/-! ### Rounding down -/

/-- **Rounding down is optimal.** Of all lengths of at most 511 granules that an encoding with the
alignment of the address can give, none that is not above the request exceeds the one that is
chosen. -/
theorem rounddown_length_max {a len : Word} (d : DecodedCap) {m k : ℕ} (hk : k ≤ 14)
    (hdvd : 2 ^ k ∣ a.toNat) (hm : m ≤ 511) (hle : m * 2 ^ k ≤ len.toNat) :
    let e := (rounddownExp (prepBounds d a len)).toNat
    m * 2 ^ k ≤ min (511 * 2 ^ e) (len.toNat / 2 ^ e * 2 ^ e) := by
  intro e
  have hmin : e = min 14 (min (prepBounds d a len).explen.toNat (countTrailingZeros a).toNat) :=
    toNat_rounddownExp _
  have hkb : k ≤ (countTrailingZeros a).toNat := (le_countTrailingZeros_iff a (by omega)).mpr hdvd
  have hexplen : ∀ j, (prepBounds d a len).explen.toNat ≤ j ↔ len.toNat < 512 * 2 ^ j :=
    fun j => explen_le_iff d
  obtain hlt | heq | hgt := lt_trichotomy k e
  · -- with a smaller granule 511 of them do not reach half of the window
    have hhalf : ¬len.toNat < 512 * 2 ^ (e - 1) := by
      rw [← hexplen]
      omega
    have hpow : 2 ^ e = 2 * 2 ^ (e - 1) := by
      rw [← pow_succ', Nat.sub_add_cancel (by omega)]
    have hmk : m * 2 ^ k ≤ 511 * 2 ^ (e - 1) :=
      Nat.mul_le_mul hm (Nat.pow_le_pow_right (by omega) (by omega))
    have hfloor : 256 * 2 ^ e ≤ len.toNat / 2 ^ e * 2 ^ e :=
      Nat.mul_le_mul_right _ ((Nat.le_div_iff_mul_le (Nat.two_pow_pos e)).mpr (by omega))
    exact le_min (by omega) (by omega)
  · rw [heq] at hle ⊢
    exact le_min (Nat.mul_le_mul_right _ hm) (le_granulesDown_mul (Nat.dvd_mul_left _ _) hle)
  · -- with a larger granule the exponent is the one of the length
    have hlen : len.toNat < 512 * 2 ^ e := (hexplen e).mp (by omega)
    have hmul : 2 ^ e ∣ m * 2 ^ k := (Nat.pow_dvd_pow 2 hgt.le).mul_left m
    have hfloor := le_granulesDown_mul hmul hle
    have hdiv : len.toNat / 2 ^ e * 2 ^ e ≤ 511 * 2 ^ e :=
      Nat.mul_le_mul_right _
        (Nat.le_of_lt_succ ((Nat.div_lt_iff_lt_mul (Nat.two_pow_pos e)).mpr hlen))
    exact le_min (hfloor.trans hdiv) hfloor

section NarrowDown

variable {r : RegVal} {len : Word}

theorem narrowDown_valid_iff (hs : isSealed r.full = false) :
    (r.narrowDown len).cap.valid = true ↔ r.cap.valid = true ∧ Inside r.full r.data len := by
  have hdef : (r.narrowDown len).cap.valid =
      ((setBoundsRounddown r.full r.data (prepBounds r.full r.data len)).valid &&
        !isSealed r.full) := rfl
  rw [hdef, hs, Bool.not_false, Bool.and_true]
  exact setBoundsRounddown_valid r.full

theorem narrowDown_bounds (h : r.data.toNat + len.toNat ≤ 2 ^ 32) :
    (r.narrowDown len).base = r.data.toNat ∧
      let e := (rounddownExp (prepBounds r.full r.data len)).toNat
      (r.narrowDown len).top = r.data.toNat + min (511 * 2 ^ e) (len.toNat / 2 ^ e * 2 ^ e) := by
  obtain ⟨-, hwf, hbase, htop⟩ := setBoundsRounddown_bounds h r.full
  have hwf' : (r.narrowDown len).cap.WellFormed r.data := ⟨hwf.1, hwf.2, hwf.3, hwf.4⟩
  exact ⟨hwf'.base32_eq.trans hbase, htop⟩

end NarrowDown

/-- **Rounding down.** For a request inside a tagged, unsealed register the result is tagged, starts
at the address and does not exceed the request; and no capability with that base and an exponent up
to 14 reaches further without exceeding the request. -/
theorem rounddown_optimal (i : ExIn) (hv : i.cs1.cap.valid = true)
    (hs : isSealed i.cs1.full = false)
    (hb : i.cs1.cap.Bounded i.cs1.data) (hbase : i.cs1.base ≤ i.cs1.data.toNat)
    (htop : i.cs1.data.toNat + i.cs2.data.toNat ≤ i.cs1.top) :
    let a := i.cs1.data.toNat
    let n := i.cs2.data.toNat
    let r := { i with op := .csetBoundsRndn }.result
    r.cap.valid = true ∧ r.base = a ∧ r.top ≤ a + n ∧
      ∀ (c : Cap) (p : Word), c.Coherent p → c.exp ≤ 14 → (decodeCap c p).base32.toNat = a →
        (decodeCap c p).top33.toNat ≤ a + n → (decodeCap c p).top33.toNat ≤ r.top := by
  intro a n r
  have h32 : a + n ≤ 2 ^ 32 := htop.trans hb.top_le
  obtain ⟨hrb, hrt⟩ := narrowDown_bounds h32
  set e := (rounddownExp (prepBounds i.cs1.full i.cs1.data i.cs2.data)).toNat with he
  have hrt' : r.top = a + min (511 * 2 ^ e) (n / 2 ^ e * 2 ^ e) := hrt
  have hfloor := Nat.div_mul_le_self n (2 ^ e)
  refine ⟨(narrowDown_valid_iff hs).mpr ⟨hv, hbase, htop⟩, hrb, by omega, ?_⟩
  intro c p hco hexp hcb hct
  rw [toNat_decodeCap_base32] at hcb
  rw [toNat_decodeCap_top33] at hct ⊢
  have htop33 := Cap.top33_eq hco
  have hspan := c.span_lt
  have hw : 2 ^ (c.exp + 9) ≤ 2 ^ 23 := Nat.pow_le_pow_right (by omega) (by omega)
  have hn := i.cs2.data.isLt
  have ha := i.cs1.data.isLt
  by_cases hwrap : c.base33 p < 2 ^ 32
  · -- the bounds have not wrapped, and the span is a number of granules
    have hdvd : 2 ^ c.exp ∣ a := by
      rw [← hcb, Nat.mod_eq_of_lt hwrap]
      exact hco.pow_dvd_base33
    have hm : (c.top.toNat + 512 - c.base.toNat) % 512 ≤ 511 := by omega
    have hle : c.span ≤ n := by omega
    have hmax : c.span ≤ min (511 * 2 ^ e) (n / 2 ^ e * 2 ^ e) :=
      rounddown_length_max i.cs1.full hexp hdvd hm hle
    omega
  · -- a base that has wrapped leaves the top above the address space or not above the base
    have hb33 : c.base33 p < 2 ^ 33 := BitVec.isLt _
    omega

theorem rounddown_optimal_cutObject :
    let r := { cutObject with op := .csetBoundsRndn }.result
    r.cap.valid = true ∧ r.base = 0x10000100 := by
  have h := rounddown_optimal cutObject (by decide) (by decide) ⟨by decide, by decide, by decide⟩
    (by decide) (by decide)
  exact ⟨h.1, h.2.1⟩

/-! ### Asking in advance -/

/-- The exponent of a request for `n` bytes at address zero. -/
def lengthExp (n : Word) : ℕ := (selectedExp 0 (prepBounds nullDecodedCap 0 n)).toNat

/-- The exponent does not depend on the capability. -/
theorem narrowExp_zero (c : Cap) (n : Word) : (RegVal.mk 0 c).narrowExp n = lengthExp n := rfl

theorem lengthExp_isLeast (n : Word) :
    IsLeast {e | (e ≤ 14 ∨ e = 24) ∧ Fits 0 n.toNat e} (lengthExp n) := by
  have hsum : (0 : Word).toNat + n.toNat = n.toNat := Nat.zero_add _
  have hle : (0 : Word).toNat + n.toNat ≤ 2 ^ 32 := by
    rw [hsum]
    exact n.isLt.le
  have h := selectedExp_isLeast hle nullDecodedCap
  rw [hsum] at h
  exact h

/-- The path that a request for `n` bytes at address zero takes. -/
def lengthPath (n : Word) : BoundPath :=
  boundPath 0 (prepBounds nullDecodedCap 0 n).top33req
    (selectedExp 0 (prepBounds nullDecodedCap 0 n))

theorem result_crrl (i : ExIn) : { i with op := .crrl }.result.data =
    (lengthPath i.cs1.data).len.setWidth 32 <<< lengthExp i.cs1.data :=
  congrArg BoundResult.rlen (setBoundsEx_eq nullDecodedCap _ false)

theorem result_cram (i : ExIn) : { i with op := .cram }.result.data =
    (lengthPath i.cs1.data).mask.setWidth 32 :=
  congrArg BoundResult.maska (setBoundsEx_eq nullDecodedCap _ false)

theorem toNat_lengthPath_len (n : Word) :
    (lengthPath n).len.toNat = granulesUp n.toNat (lengthExp n) := by
  obtain ⟨⟨-, hfit⟩, -⟩ := lengthExp_isLeast n
  have hreq : (prepBounds nullDecodedCap 0 n).top33req.toNat = n.toNat :=
    (toNat_prepBounds_top33req _).trans (Nat.zero_add _)
  have hzero : (0 : Word).toNat / 2 ^ lengthExp n = 0 := Nat.zero_div _
  rw [Fits, Nat.zero_div] at hfit
  have hlen := toNat_boundPath_len 0 (prepBounds nullDecodedCap 0 n).top33req
    (selectedExp 0 (prepBounds nullDecodedCap 0 n))
    (by rw [← lengthExp, hzero]; exact Nat.zero_le _) (by rw [← lengthExp, hzero, hreq]; omega)
  rw [hreq, ← lengthExp, hzero, Nat.sub_zero] at hlen
  exact hlen

/-- `CRRL` rounds the length up to the granule. -/
theorem toNat_crrl {i : ExIn} (hn : i.cs1.data.toNat ≤ 0xff000000) :
    { i with op := .crrl }.result.data.toNat =
      granulesUp i.cs1.data.toNat (lengthExp i.cs1.data) * 2 ^ lengthExp i.cs1.data := by
  have hlen := toNat_lengthPath_len i.cs1.data
  obtain ⟨⟨he, -⟩, -⟩ := lengthExp_isLeast i.cs1.data
  have hle : granulesUp i.cs1.data.toNat (lengthExp i.cs1.data) * 2 ^ lengthExp i.cs1.data ≤
      0xff000000 := by
    refine granulesUp_mul_le ?_ hn
    exact (Nat.pow_dvd_pow 2 (by omega : lengthExp i.cs1.data ≤ 24)).trans ⟨255, by norm_num⟩
  have hlt := (lengthPath i.cs1.data).len.isLt
  rw [result_crrl, BitVec.toNat_shiftLeft, BitVec.toNat_setWidth, Nat.shiftLeft_eq,
    Nat.mod_eq_of_lt (hlt.trans (by norm_num)), hlen]
  exact Nat.mod_eq_of_lt (lt_of_le_of_lt hle (by norm_num))

/-- `CRAM` is the mask of the granule. -/
theorem and_not_cram_eq_zero_iff (i : ExIn) (b : Word) :
    b &&& ~~~{ i with op := .cram }.result.data = 0 ↔ 2 ^ lengthExp i.cs1.data ∣ b.toNat := by
  have hmask : (lengthPath i.cs1.data).mask.setWidth 32 =
      BitVec.allOnes 32 <<< lengthExp i.cs1.data := by
    show (BitVec.allOnes 33 <<< lengthExp i.cs1.data : BitVec 33).setWidth 32 = _
    ext j hj
    simp only [BitVec.getElem_setWidth, BitVec.getLsbD_shiftLeft, BitVec.getElem_shiftLeft,
      BitVec.getLsbD_allOnes, BitVec.getElem_allOnes]
    grind
  rw [result_cram, hmask, Bits.and_not_mask_eq_zero_iff, Nat.dvd_iff_mod_eq_zero]

/-- A root reaches over the whole address space, wherever its address is. -/
theorem rootCap_bounds (cperms : BitVec 6) (b : Word) :
    (RegVal.mk b (rootCap cperms)).full.base32.toNat = 0 ∧
      (RegVal.mk b (rootCap cperms)).full.top33.toNat = 2 ^ 32 := by
  have hexp : (rootCap cperms).exp = 24 := rfl
  have hbase : (rootCap cperms).base.toNat = 0 := rfl
  have htop : (rootCap cperms).top.toNat = 256 := rfl
  rw [RegVal.full, toNat_decodeCap_base32, toNat_decodeCap_top33, Cap.base33_of_exp hexp,
    Cap.top33_of_exp hexp, hbase, htop]
  norm_num

/-- **Announcing the rounding.** What `CRRL` returns is not below the length. Together with every
base that `CRAM` admits it can be set exactly on a root; and no length between the one asked for and
the one returned can be set exactly at address zero, on any capability. -/
theorem crrl_cram_exact (i : ExIn) (hn : i.cs1.data.toNat ≤ 0xff000000) :
    let n := i.cs1.data
    let r := { i with op := .crrl }.result.data
    let m := { i with op := .cram }.result.data
    n.toNat ≤ r.toNat ∧
      (∀ k ∈ [rootCapTx, rootCapTm, rootCapTs], ∀ b : Word, b &&& ~~~m = 0 →
        b.toNat + r.toNat ≤ 2 ^ 32 →
        let x := { i with op := .csetBoundsEx, cs1 := ⟨b, k⟩, cs2 := .ofData r }.result
        x.cap.valid = true ∧ x.base = b.toNat ∧ x.top = b.toNat + r.toNat) ∧
      ∀ (c : Cap) (n' : Word), n.toNat ≤ n'.toNat → n'.toNat < r.toNat →
        { i with op := .csetBoundsEx, cs1 := ⟨0, c⟩, cs2 := .ofData n' }.result.cap.valid =
          false := by
  intro n r m
  have hr : r.toNat = granulesUp n.toNat (lengthExp n) * 2 ^ lengthExp n := toNat_crrl hn
  obtain ⟨⟨he, hfit⟩, hleast⟩ := lengthExp_isLeast n
  set e := lengthExp n with hedef
  have hg : granulesUp n.toNat e < 512 := by simpa [Fits] using hfit
  refine ⟨hr ▸ (granulesUp_bounds n.toNat e).1, ?_, ?_⟩
  · intro k hk b hbm hsum x
    obtain ⟨q, hq⟩ := (and_not_cram_eq_zero_iff i b).mp hbm
    have hq' : b.toNat = q * 2 ^ e := by rw [hq, Nat.mul_comm]
    set root : RegVal := ⟨b, k⟩ with hroot
    -- the rounded object fits at the announced exponent, so it gets no larger one
    have hle : root.narrowExp r ≤ e := by
      refine (selectedExp_isLeast hsum root.full).2 ⟨he, ?_⟩
      refine .of_granules (b := q) (T := q + granulesUp n.toNat e) (le_of_eq hq'.symm) ?_ (by omega)
      rw [hq', hr, Nat.add_mul]
    have hdvd : 2 ^ root.narrowExp r ∣ 2 ^ e := Nat.pow_dvd_pow 2 hle
    have hdvdb : 2 ^ root.narrowExp r ∣ b.toNat := hdvd.trans ⟨q, hq⟩
    have hdvdt : 2 ^ root.narrowExp r ∣ b.toNat + r.toNat :=
      Nat.dvd_add hdvdb (hr ▸ hdvd.mul_left _)
    obtain ⟨cperms, rfl⟩ : ∃ cperms, k = rootCap cperms := by
      simp only [List.mem_cons, List.not_mem_nil, or_false] at hk
      rcases hk with rfl | rfl | rfl <;> exact ⟨_, rfl⟩
    obtain ⟨hb0, ht0⟩ := rootCap_bounds cperms b
    obtain ⟨-, -, hbase, htop⟩ := narrow_bounds (r := root) hsum true
    have hin : Inside root.full root.data r :=
      ⟨hb0.trans_le (Nat.zero_le _), hsum.trans_eq ht0.symm⟩
    refine ⟨(narrow_valid_iff true).mpr ⟨⟨rfl, hin, fun _ => ⟨hdvdb, hdvdt⟩⟩, rfl⟩, ?_, ?_⟩
    · exact hbase.trans (Nat.div_mul_cancel hdvdb)
    · exact htop.trans (granulesUp_mul_eq_iff.mpr hdvdt)
  · intro c n' hn' hlt
    rw [Bool.eq_false_iff]
    intro hv
    obtain ⟨⟨-, -, hexact⟩, -⟩ := (narrow_valid_iff true).mp hv
    obtain ⟨⟨he', hfit'⟩, hleast'⟩ := lengthExp_isLeast n'
    -- both lengths get the same exponent
    have hup : granulesUp n'.toNat e ≤ granulesUp n.toNat e := by
      refine Nat.le_of_mul_le_mul_right ?_ (Nat.two_pow_pos e)
      exact granulesUp_mul_le (Nat.dvd_mul_left _ _) (hr ▸ hlt.le)
    have heq : lengthExp n' = e := by
      refine le_antisymm (hleast' ⟨he, ?_⟩) (hleast ⟨he', ?_⟩)
      · rw [Fits, Nat.zero_div, Nat.zero_add]
        omega
      · exact lt_of_le_of_lt (granulesUp_mono hn') hfit'
    have hdvd : 2 ^ e ∣ n'.toNat := by
      have h := (hexact rfl).2
      rw [narrowExp_zero] at h
      rw [← heq]
      exact (Nat.zero_add n'.toNat) ▸ h
    have := granulesUp_mul_le hdvd hn'
    omega

theorem crrl_cram_exact_object :
    let i : ExIn := { (default : ExIn) with cs1 := .ofData 1000 }
    let r := { i with op := .crrl }.result.data
    let root : RegVal := ⟨0x10000100, rootCapTm⟩
    1000 ≤ r.toNat ∧
      { i with op := .csetBoundsEx, cs1 := root, cs2 := .ofData r }.result.cap.valid = true := by
  intro i r root
  have h := crrl_cram_exact i (by decide)
  exact ⟨h.1, (h.2.1 rootCapTm (by decide) 0x10000100 (by decide +kernel) (by decide +kernel)).1⟩

end Cheriot

end Croc
