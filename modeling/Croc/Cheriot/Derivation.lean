import Croc.Cheriot.Ex
import Croc.Cheriot.Permissions

/-!
# What a capability instruction derives

Every tagged capability that the execution unit produces is derived from one that it was given: from
the first source register, from the PCC, or from the special capability register that it reads. Its
bounds lie inside the bounds of the source and its permissions are among the permissions of the
source. A sealed source stays as it is, up to the loss of GL, unless the instruction is `CUNSEAL`
under a proper authority or a jump through a sentry.

## Main definitions

* `Held`: a capability with its address, wherever the core keeps it.
* `Held.Within`, `Held.StaysSealed`: how a derived capability relates to its source.
* `RegVal.Good`, `DecodedCap.Sound`: tagged registers and decoded capabilities mean what they say.

## Main results

* `setAddress_spec`: moving the address keeps bounds and permissions.
* `ExIn.result_derived`: the value for the destination register.
* `ExIn.csrWrite_derived`, `ExIn.pccCap_derived`: special capability registers and jumps.
* `memToCap_derived`: capability loads.
-/

namespace Croc

namespace Cheriot

open Bits (Word)

/-! ### Held capabilities -/

/-- A capability that the core holds. The PCC has no address of its own. -/
structure Held where
  /-- The capability, expanded. -/
  cap : DecodedCap
  /-- Its address. -/
  addr : Option Word
  deriving DecidableEq, Repr

/-- The capability in a register. -/
def RegVal.held (r : RegVal) : Held := ⟨r.full, some r.data⟩

/-- The PCC as a held capability. -/
def DecodedCap.heldPcc (d : DecodedCap) : Held := ⟨d, none⟩

namespace Held

/-- Bounds and permissions of `c` are within those of `d`. -/
structure Within (c d : Held) : Prop where
  /-- The base is not lowered. -/
  base_le : d.cap.base32 ≤ c.cap.base32
  /-- The top is not raised. -/
  top_le : c.cap.top33 ≤ d.cap.top33
  /-- No permission is added. -/
  perms_le : c.cap.perms ≤ d.cap.perms

/-- `c` is still sealed as `d` was: the same type, address and bounds, and at most GL is gone. -/
structure StaysSealed (c d : Held) : Prop where
  /-- The type is the same. -/
  otype_eq : c.cap.otype = d.cap.otype
  /-- The address is the same. -/
  addr_eq : c.addr = d.addr
  /-- The base is the same. -/
  base_eq : c.cap.base32 = d.cap.base32
  /-- The top is the same. -/
  top_eq : c.cap.top33 = d.cap.top33
  /-- The permissions are the same, or GL is gone. -/
  perms_eq : c.cap.perms = d.cap.perms ∨ c.cap.perms = { d.cap.perms with gl := false }

theorem Within.refl (c : Held) : c.Within c := ⟨Nat.le_refl _, Nat.le_refl _, Perms.le_refl _⟩

theorem StaysSealed.refl (c : Held) : c.StaysSealed c := ⟨rfl, rfl, rfl, rfl, .inl rfl⟩

end Held

/-- A tagged register is well formed at its address. -/
def RegVal.Good (r : RegVal) : Prop := r.cap.valid = true → r.cap.WellFormed r.data

/-- A decoded capability is the decoding of a well-formed one. -/
def DecodedCap.Sound (d : DecodedCap) : Prop := ∃ a, d.toCap.WellFormed a ∧ d = decodeCap d.toCap a

theorem RegVal.Good.sound {r : RegVal} (h : r.Good) (hv : r.cap.valid = true) : r.full.Sound :=
  ⟨r.data, h hv, rfl⟩

/-! ### The fields that the bounds depend on -/

/-- The fields of a capability that its bounds are computed from. -/
def Cap.bounds (c : Cap) : BitVec 2 × BitVec 4 × BitVec 9 × BitVec 9 :=
  (c.capCor, c.cexp, c.top, c.base)

section Bounds

variable {c d : Cap} {a : Word}

theorem Cap.bounds_inj (h : c.bounds = d.bounds) :
    c.capCor = d.capCor ∧ c.cexp = d.cexp ∧ c.top = d.top ∧ c.base = d.base := by
  simpa [Cap.bounds] using h

theorem decodeCap_base32_congr (h : c.bounds = d.bounds) :
    (decodeCap c a).base32 = (decodeCap d a).base32 := by
  obtain ⟨hcor, hexp, -, hbase⟩ := Cap.bounds_inj h
  rw [decodeCap, decodeCap, hcor, hexp, hbase]

theorem decodeCap_top33_congr (h : c.bounds = d.bounds) :
    (decodeCap c a).top33 = (decodeCap d a).top33 := by
  obtain ⟨hcor, hexp, htop, -⟩ := Cap.bounds_inj h
  rw [decodeCap, decodeCap, hcor, hexp, htop]

theorem Cap.Coherent.congr (hd : d.Coherent a) (h : c.bounds = d.bounds) : c.Coherent a := by
  obtain ⟨hcor, hexp, htop, hbase⟩ := Cap.bounds_inj h
  rw [Cap.Coherent, hcor, hexp, htop, hbase]
  exact hd

theorem Cap.WellFormed.congr (hd : d.WellFormed a) (h : c.bounds = d.bounds) : c.WellFormed a := by
  obtain ⟨cor, v, r, p, o, e, t, b⟩ := c
  obtain ⟨cor', v', r', p', o', e', t', b'⟩ := d
  obtain ⟨rfl, rfl, rfl, rfl⟩ := Cap.bounds_inj h
  exact ⟨hd.coherent, hd.base_lt, hd.base_le_top, hd.top_le⟩

end Bounds

/-- **Moving the address.** The result keeps its tag only if the source has one; it is then well
formed at the new address, with the bounds and permissions of the source. -/
theorem setAddress_spec {d : DecodedCap} (hd : d.Sound) {p : Word}
    (hv : (setAddress d p).valid = true) :
    d.valid = true ∧ (setAddress d p).toCap.WellFormed p ∧
      (decodeCap (setAddress d p).toCap p).base32 = d.base32 ∧
      (decodeCap (setAddress d p).toCap p).top33 = d.top33 ∧
      (decodeCap (setAddress d p).toCap p).perms = d.perms := by
  obtain ⟨a, hwf, heq⟩ := hd
  rw [heq] at hv
  obtain ⟨hvalid, -⟩ := (setAddress_valid_iff hwf p).mp hv
  have hnew := setAddress_wellFormed hwf hv
  have hbase := setAddress_base33 hwf hv
  have htop := setAddress_top33 hwf hv
  rw [← heq] at hnew hbase htop
  refine ⟨hvalid, hnew, BitVec.eq_of_toNat_eq ?_, BitVec.eq_of_toNat_eq ?_, ?_⟩
  · rw [hnew.base32_eq, hbase]
    conv_rhs => rw [heq]
    rw [hwf.base32_eq]
  · rw [toNat_decodeCap_top33, htop]
    conv_rhs => rw [heq]
    rfl
  · conv_rhs => rw [heq]
    rfl

/-! ### The destination register -/

/-- How a capability `r` comes from a held one `src`: inside its bounds and permissions, and sealed
still if `src` was, unless `opened` allows otherwise. -/
structure DerivedFrom (opened : Prop) (r src : Held) : Prop where
  /-- The source is tagged. -/
  tagged : src.cap.valid = true
  /-- Bounds and permissions are inherited. -/
  within : r.Within src
  /-- A sealed source is opened only in the allowed way. -/
  sealing : isSealed src.cap = true → r.StaysSealed src ∨ opened

theorem DerivedFrom.refl {opened : Prop} {r : Held} (h : r.cap.valid = true) :
    DerivedFrom opened r r := ⟨h, .refl r, fun _ => .inl (.refl r)⟩

theorem DerivedFrom.mono {p q : Prop} {r src : Held} (h : DerivedFrom p r src) (hpq : p → q) :
    DerivedFrom q r src := ⟨h.tagged, h.within, fun hs => (h.sealing hs).imp_right hpq⟩

/-- A capability with the bounds of an unsealed register is derived from it if it adds no
permission. -/
theorem derivedFrom_of_bounds {opened : Prop} {r src : RegVal} (hv : src.cap.valid = true)
    (hgood : src.Good) (hdata : r.data = src.data) (hbounds : r.cap.bounds = src.cap.bounds)
    (hperms : expandPerms r.cap.cperms ≤ expandPerms src.cap.cperms)
    (hsealed : isSealed src.full = true → r.held.StaysSealed src.held ∨ opened) :
    r.Good ∧ DerivedFrom opened r.held src.held := by
  obtain ⟨rdata, rcap⟩ := r
  subst hdata
  refine ⟨fun _ => (hgood hv).congr hbounds, hv, ⟨?_, ?_, hperms⟩, hsealed⟩
  · exact Nat.le_of_eq (congrArg BitVec.toNat (decodeCap_base32_congr hbounds).symm)
  · exact Nat.le_of_eq (congrArg BitVec.toNat (decodeCap_top33_congr hbounds))

namespace ExIn

variable {i : ExIn}

/-- `CUNSEAL` opens a sealed capability under a tagged and unsealed authority with US. -/
def Unseals (i : ExIn) (src : Held) : Prop :=
  i.op = .cunseal ∧ src = i.cs1.held ∧ i.fullcapB.valid = true ∧ isSealed i.fullcapB = false ∧
    i.fullcapB.perms.us = true

/-- `CSEAL` wants an unsealed capability. -/
theorem isSealed_of_cseal (hop : i.op = .cseal) (h : i.permVio = false) :
    isSealed i.fullcapA = false := by
  simp only [permVio, permVioVec, hop, PermVio.any, Bool.or_eq_false_iff] at h
  tauto

/-- `CUNSEAL` wants a proper authority. -/
theorem unseals_of_cunseal (hop : i.op = .cunseal) (h : i.permVio = false) :
    i.Unseals i.cs1.held := by
  simp only [permVio, permVioVec, hop, PermVio.any, Bool.or_eq_false_iff, Bool.not_eq_false'] at h
  exact ⟨hop, rfl, by tauto, by tauto, by tauto⟩

/-- What `CAND_PERM` leaves of a sealed capability that keeps its tag. -/
theorem andPerm_sealed {mask : BitVec 12}
    (h : ({ Perms.ofBits mask with gl := true } : Perms).toBits = BitVec.allOnes 12) (p : Perms) :
    Perms.ofBits (p.toBits &&& mask) = { p with gl := p.gl && mask.getLsbD 0 } := by
  obtain ⟨h11, h10, h9, h8, h7, h6, h5, h4, h3, h2, h1, h0⟩ := p.getLsbD_toBits
  obtain ⟨k11, k10, k9, k8, k7, k6, k5, k4, k3, k2, k1, -⟩ :=
    ({ Perms.ofBits mask with gl := true } : Perms).getLsbD_toBits
  rw [h] at k11 k10 k9 k8 k7 k6 k5 k4 k3 k2 k1
  have hone : ∀ k (b : Bool), k < 12 → (BitVec.allOnes 12).getLsbD k = b → b = true := by
    intro k b hk hb
    rw [← hb, BitVec.getLsbD_allOnes, decide_eq_true hk]
  have m11 : mask.getLsbD 11 = true := hone 11 _ (by omega) k11
  have m10 : mask.getLsbD 10 = true := hone 10 _ (by omega) k10
  have m9 : mask.getLsbD 9 = true := hone 9 _ (by omega) k9
  have m8 : mask.getLsbD 8 = true := hone 8 _ (by omega) k8
  have m7 : mask.getLsbD 7 = true := hone 7 _ (by omega) k7
  have m6 : mask.getLsbD 6 = true := hone 6 _ (by omega) k6
  have m5 : mask.getLsbD 5 = true := hone 5 _ (by omega) k5
  have m4 : mask.getLsbD 4 = true := hone 4 _ (by omega) k4
  have m3 : mask.getLsbD 3 = true := hone 3 _ (by omega) k3
  have m2 : mask.getLsbD 2 = true := hone 2 _ (by omega) k2
  have m1 : mask.getLsbD 1 = true := hone 1 _ (by omega) k1
  simp only [Perms.ofBits, BitVec.getLsbD_and, h11, h10, h9, h8, h7, h6, h5, h4, h3, h2, h1, h0,
    m11, m10, m9, m8, m7, m6, m5, m4, m3, m2, m1, Bool.and_true]

/-- A capability with a moved address is derived from an unsealed source. -/
theorem setAddress_derived {opened : Prop} (src : Held)
    (hsrc : src.cap.valid = true → src.cap.Sound)
    (hunsealed : isSealed src.cap = false) {r : RegVal}
    (hv : (setAddress src.cap r.data).valid = true) (hval : src.cap.valid = true)
    (hbounds : r.cap.bounds = (setAddress src.cap r.data).toCap.bounds)
    (hperms : r.cap.cperms = src.cap.cperms) : r.Good ∧ DerivedFrom opened r.held src := by
  obtain ⟨-, hwf, hbase, htop, hp⟩ := setAddress_spec (hsrc hval) hv
  refine ⟨fun _ => hwf.congr hbounds, hval, ⟨?_, ?_, ?_⟩, ?_⟩
  · rw [← hbase, ← decodeCap_base32_congr hbounds]
    exact Nat.le_refl _
  · rw [← htop, ← decodeCap_top33_congr hbounds]
    exact Nat.le_refl _
  · refine Perms.le_of_eq (Eq.trans ?_ hp)
    exact congrArg expandPerms hperms
  · rw [hunsealed]
    exact nofun

/-- A tagged result of moving an address had a tagged source. -/
theorem valid_of_setAddress {d : DecodedCap} {p : Word} (h : (setAddress d p).valid = true) :
    d.valid = true := (Bool.and_eq_true_iff.mp h).1

/-- The operators that set bounds start from the first source register. -/
theorem setboundsOperands_eq (hsel : i.op.setboundsSel = .rs2 ∨ i.op.setboundsSel = .rs2Ex ∨
      i.op.setboundsSel = .imm ∨ i.op.setboundsSel = .rndn) :
    ∃ len exact, i.setboundsOperands = (i.fullcapA, i.cs1.data, len, exact) := by
  rw [setboundsOperands]
  rcases hsel with h | h | h | h <;> rw [h] <;> exact ⟨_, _, rfl⟩

section Result

variable (hcs1 : i.cs1.Good)
include hcs1

theorem result_cseal (hop : i.op = .cseal) (hv : i.result.cap.valid = true) {opened : Prop} :
    i.result.Good ∧ DerivedFrom opened i.result.held i.cs1.held := by
  have hr : i.result = ⟨i.cs1.data, { i.sealedCap with
      valid := i.sealedCap.valid && !i.addrBoundVio && !i.permVio }⟩ := by rw [result, hop]
  rw [hr] at hv ⊢
  simp only [Bool.and_eq_true, Bool.not_eq_true'] at hv
  have hun := isSealed_of_cseal hop hv.2
  refine derivedFrom_of_bounds hv.1.1 hcs1 rfl rfl (Perms.le_refl _) ?_
  intro h
  exact absurd (hun.symm.trans h) Bool.false_ne_true

theorem result_cunseal (hop : i.op = .cunseal) (hv : i.result.cap.valid = true) :
    i.result.Good ∧ DerivedFrom (i.Unseals i.cs1.held) i.result.held i.cs1.held := by
  have hr : i.result = ⟨i.cs1.data, { i.unsealedCap with
      valid := i.unsealedCap.valid && !i.addrBoundVio && !i.permVio }⟩ := by rw [result, hop]
  rw [hr] at hv ⊢
  simp only [Bool.and_eq_true, Bool.not_eq_true'] at hv
  refine derivedFrom_of_bounds hv.1.1 hcs1 rfl rfl ?_ fun _ => .inr (unseals_of_cunseal hop hv.2)
  refine Perms.le_trans (expandPerms_compressPerms_le _) ?_
  have hgl : ∀ x y : Bool, (x && y) = true → x = true := by decide
  exact ⟨id, id, id, id, id, id, id, id, id, id, id, hgl _ _⟩

theorem result_candPerm (hop : i.op = .candPerm) (hv : i.result.cap.valid = true) {opened : Prop} :
    i.result.Good ∧ DerivedFrom opened i.result.held i.cs1.held := by
  have hr : i.result = ⟨i.cs1.data, i.andPermCap⟩ := by rw [result, hop]
  rw [hr] at hv ⊢
  obtain ⟨hval, hmask⟩ := Bool.and_eq_true_iff.mp hv
  refine derivedFrom_of_bounds hval hcs1 rfl rfl
    (Perms.le_trans (expandPerms_compressPerms_le _) (Perms.ofBits_and_le _ _)) ?_
  intro hs
  -- a sealed capability keeps its tag only under a mask of ones, GL apart
  have hones : ({ Perms.ofBits (i.cs2.data.extractLsb' 0 12) with gl := true } : Perms).toBits =
      BitVec.allOnes 12 := by
    have hs' : isSealed i.fullcapA = true := hs
    simpa [hs'] using hmask
  have hperms : expandPerms (compressPerms (Perms.ofBits (i.fullcapA.perms.toBits &&&
      i.cs2.data.extractLsb' 0 12))) = { i.fullcapA.perms with
        gl := i.fullcapA.perms.gl && (i.cs2.data.extractLsb' 0 12).getLsbD 0 } := by
    rw [andPerm_sealed hones]
    exact expandPerms_compressPerms_of_gl i.cs1.cap.cperms _
  refine .inl ⟨rfl, rfl, rfl, rfl, ?_⟩
  have heq : (RegVal.held ⟨i.cs1.data, i.andPermCap⟩).cap.perms = { i.fullcapA.perms with
      gl := i.fullcapA.perms.gl && (i.cs2.data.extractLsb' 0 12).getLsbD 0 } := hperms
  rw [heq]
  cases (i.cs2.data.extractLsb' 0 12).getLsbD 0
  · exact .inr (by rw [Bool.and_false]; rfl)
  · exact .inl (by rw [Bool.and_true]; rfl)

/-- The operators that move the address of a register. -/
theorem movedCap_derived (hsel : i.op.setaddrSel = .rfaArith) (hv : i.movedCap.valid = true)
    {opened : Prop} : (RegVal.mk i.addrResult i.movedCap).Good ∧
      DerivedFrom opened (RegVal.held ⟨i.addrResult, i.movedCap⟩) i.cs1.held := by
  have hout : i.setaddr1Outcap = setAddress i.fullcapA i.addrResult := by
    rw [setaddr1Outcap, hsel]
  have hmoved : i.movedCap = { (setAddress i.fullcapA i.addrResult).toCap with
      valid := (setAddress i.fullcapA i.addrResult).valid && !isSealed i.fullcapA } := by
    rw [movedCap, hsel, hout]
    rfl
  have hv' : ((setAddress i.fullcapA i.addrResult).valid && !isSealed i.fullcapA) = true := by
    rw [hmoved] at hv
    exact hv
  rw [Bool.and_eq_true, Bool.not_eq_true'] at hv'
  have hval : i.fullcapA.valid = true := valid_of_setAddress hv'.1
  exact setAddress_derived i.cs1.held hcs1.sound hv'.2 hv'.1 hval
    (by rw [hmoved]; rfl) (by rw [hmoved]; rfl)

/-- The operators that set bounds. -/
theorem boundedCap_derived (hsel : i.op.setboundsSel = .rs2 ∨ i.op.setboundsSel = .rs2Ex ∨
      i.op.setboundsSel = .imm ∨ i.op.setboundsSel = .rndn)
    (hv : i.boundedCap.valid = true) {opened : Prop} :
    (RegVal.mk i.cs1.data i.boundedCap).Good ∧
      DerivedFrom opened (RegVal.held ⟨i.cs1.data, i.boundedCap⟩) i.cs1.held := by
  obtain ⟨len, exact, hops⟩ := setboundsOperands_eq hsel
  set tfcap := if i.op.setboundsSel = .rndn then i.setboundsRndnOutcap else i.setboundsResult.cap
    with htf
  have hbounded : i.boundedCap =
      { tfcap.toCap with valid := tfcap.valid && !isSealed i.fullcapA } :=
    rfl
  have hv' : (tfcap.valid && !isSealed i.fullcapA) = true := by
    rw [hbounded] at hv
    exact hv
  rw [Bool.and_eq_true, Bool.not_eq_true'] at hv'
  have hcperms : tfcap.cperms = i.cs1.cap.cperms := by
    rw [htf]
    split_ifs
    · simp only [setboundsRndnOutcap, hops]
      rfl
    · simp only [setboundsResult, hops]
      rfl
  -- either way the tag survives only for a child of the register
  have hchild : i.cs1.cap.valid = true ∧ ChildOf tfcap.toCap i.cs1.cap i.cs1.data := by
    have h1 := hv'.1
    rw [htf] at h1 ⊢
    split_ifs at h1 ⊢
    · simp only [setboundsRndnOutcap, hops] at h1 ⊢
      have hval : i.cs1.cap.valid = true := (Bool.and_eq_true_iff.mp h1).1
      exact setBoundsRounddown_spec (hcs1 hval) h1
    · simp only [setboundsResult, hops] at h1 ⊢
      have hval : i.cs1.cap.valid = true :=
        (Bool.and_eq_true_iff.mp (Bool.and_eq_true_iff.mp h1).1).1
      exact setBoundsEx_spec (hcs1 hval) h1
  obtain ⟨hval, hwf, hbase, htop⟩ := hchild
  have hb : i.boundedCap.bounds = tfcap.toCap.bounds := by rw [hbounded]; rfl
  refine ⟨fun _ => hwf.congr hb, hval, ⟨?_, ?_, ?_⟩, ?_⟩
  · rw [BitVec.le_def]
    change (decodeCap i.cs1.cap i.cs1.data).base32.toNat ≤
      (decodeCap i.boundedCap i.cs1.data).base32.toNat
    rw [decodeCap_base32_congr hb, (hcs1 hval).base32_eq, hwf.base32_eq]
    exact hbase
  · rw [BitVec.le_def]
    change (decodeCap i.boundedCap i.cs1.data).top33.toNat ≤
      (decodeCap i.cs1.cap i.cs1.data).top33.toNat
    rw [decodeCap_top33_congr hb]
    exact htop
  · refine Perms.le_of_eq ?_
    change expandPerms i.boundedCap.cperms = expandPerms i.cs1.cap.cperms
    rw [hbounded]
    exact congrArg expandPerms hcperms
  · intro h
    exact absurd (hv'.2.symm.trans h) Bool.false_ne_true

end Result

/-! ### The PCC as a source -/

/-- A tagged PCC is sound and not sealed. -/
def PccGood (pcc : DecodedCap) : Prop := pcc.valid = true → pcc.Sound ∧ isSealed pcc = false

section Pcc

variable (hpcc : PccGood i.pcc)
include hpcc

/-- A capability made from the PCC by moving its address. -/
theorem derived_of_pcc {opened : Prop} {r : RegVal} (hv : (setAddress i.pcc r.data).valid = true)
    (hbounds : r.cap.bounds = (setAddress i.pcc r.data).toCap.bounds)
    (hperms : r.cap.cperms = i.pcc.cperms) :
    r.Good ∧ DerivedFrom opened r.held i.pcc.heldPcc := by
  have hval : i.pcc.valid = true := valid_of_setAddress hv
  obtain ⟨hsound, hun⟩ := hpcc hval
  exact setAddress_derived i.pcc.heldPcc (fun _ => hsound) hun hv hval hbounds hperms

theorem movedCap_derived_pcc (hsel : i.op.setaddrSel = .pccArith) (hv : i.movedCap.valid = true)
    {opened : Prop} : (RegVal.mk i.addrResult i.movedCap).Good ∧
      DerivedFrom opened (RegVal.held ⟨i.addrResult, i.movedCap⟩) i.pcc.heldPcc := by
  have hout : i.setaddr1Outcap = setAddress i.pcc i.addrResult := by rw [setaddr1Outcap, hsel]
  have hmoved : i.movedCap = (setAddress i.pcc i.addrResult).toCap := by
    rw [movedCap, if_pos hsel, hout, Bool.not_false, Bool.and_true]
    rfl
  rw [hmoved] at hv ⊢
  exact derived_of_pcc hpcc hv rfl rfl

theorem linkCap_derived (hsel : i.op.setaddrSel = .pccPcnxt) (hv : i.linkCap.valid = true)
    {opened : Prop} : (RegVal.mk i.pcIdNxt i.linkCap).Good ∧
      DerivedFrom opened (RegVal.held ⟨i.pcIdNxt, i.linkCap⟩) i.pcc.heldPcc := by
  have hout : i.setaddr1Outcap = setAddress i.pcc i.pcIdNxt := by rw [setaddr1Outcap, hsel]
  -- sealing the link capability changes neither its tag nor its bounds nor its permissions
  have hlink : i.linkCap.valid = (setAddress i.pcc i.pcIdNxt).valid ∧
      i.linkCap.bounds = (setAddress i.pcc i.pcIdNxt).toCap.bounds ∧
      i.linkCap.cperms = i.pcc.cperms := by
    rw [linkCap, hout]
    split_ifs <;> exact ⟨rfl, rfl, rfl⟩
  rw [hlink.1] at hv
  exact derived_of_pcc hpcc hv hlink.2.1 hlink.2.2

end Pcc

/-- **The destination register.** A tagged result is well formed, and derived from the first source
register, from the PCC, or from the special capability register that is read. -/
theorem result_derived (hcs1 : i.cs1.Good) (hpcc : PccGood i.pcc) (hcsr : i.csr.Good)
    (hv : i.result.cap.valid = true) :
    i.result.Good ∧ ∃ src ∈ [i.cs1.held, i.pcc.heldPcc, i.csr.held],
      DerivedFrom (i.Unseals src) i.result.held src := by
  have hdata : ∀ w : Word, i.result = .ofData w → False := by
    intro w h
    rw [h] at hv
    exact Bool.false_ne_true hv
  match hop : i.op with
  | .cgetField field => exact (hdata _ (by rw [result, hop])).elim
  | .crrl => exact (hdata _ (by rw [result, hop])).elim
  | .cram => exact (hdata _ (by rw [result, hop])).elim
  | .cisSubset => exact (hdata _ (by rw [result, hop])).elim
  | .cisEqual => exact (hdata _ (by rw [result, hop])).elim
  | .csubCap => exact (hdata _ (by rw [result, hop])).elim
  | .cloadCap => exact (hdata _ (by rw [result, hop])).elim
  | .cstoreCap => exact (hdata _ (by rw [result, hop])).elim
  | .cclearTag =>
    rw [result, hop] at hv
    exact absurd hv Bool.false_ne_true
  | .csetHigh =>
    rw [result, hop] at hv
    simp only [memToCap, BitVec.getLsbD_cons, if_true, Bool.false_and] at hv
    exact absurd hv Bool.false_ne_true
  | .cmoveCap =>
    have hr : i.result = i.cs1 := by rw [result, hop]
    rw [hr] at hv ⊢
    exact ⟨hcs1, _, by simp, .refl hv⟩
  | .ccsrRw =>
    have hr : i.result = i.csr := by rw [result, hop]
    rw [hr] at hv ⊢
    exact ⟨hcsr, _, by simp, .refl hv⟩
  | .cseal =>
    obtain ⟨hgood, hd⟩ := result_cseal hcs1 hop hv
    exact ⟨hgood, _, by simp, hd⟩
  | .cunseal =>
    obtain ⟨hgood, hd⟩ := result_cunseal hcs1 hop hv
    exact ⟨hgood, _, by simp, hd⟩
  | .candPerm =>
    obtain ⟨hgood, hd⟩ := result_candPerm hcs1 hop hv
    exact ⟨hgood, _, by simp, hd⟩
  | .csetAddr | .cincAddr | .cincAddrImm | .cauicgp =>
    have hr : i.result = ⟨i.addrResult, i.movedCap⟩ := by rw [result, hop]
    rw [hr] at hv ⊢
    obtain ⟨hgood, hd⟩ := movedCap_derived hcs1 (by rw [hop]; rfl) hv
    exact ⟨hgood, _, by simp, hd⟩
  | .cauipcc =>
    have hr : i.result = ⟨i.addrResult, i.movedCap⟩ := by rw [result, hop]
    rw [hr] at hv ⊢
    obtain ⟨hgood, hd⟩ := movedCap_derived_pcc hpcc (by rw [hop]; rfl) hv
    exact ⟨hgood, _, by simp, hd⟩
  | .csetBounds | .csetBoundsImm | .csetBoundsEx | .csetBoundsRndn =>
    have hr : i.result = ⟨i.cs1.data, i.boundedCap⟩ := by rw [result, hop]
    rw [hr] at hv ⊢
    obtain ⟨hgood, hd⟩ := boundedCap_derived hcs1 (by rw [hop]; decide) hv
    exact ⟨hgood, _, by simp, hd⟩
  | .cjalr | .cjal =>
    have hr : i.result = ⟨i.pcIdNxt, i.linkCap⟩ := by rw [result, hop]
    rw [hr] at hv ⊢
    obtain ⟨hgood, hd⟩ := linkCap_derived hpcc (by rw [hop]; rfl) hv
    exact ⟨hgood, _, by simp, hd⟩

/-! ### Special capability registers and jumps -/

/-- An address whose low bits are zero is not changed by clearing them. -/
theorem csrWdata_eq (h : i.cs2Dec = scrMtcc → i.cs1.data.extractLsb' 0 2 = 0)
    (h' : i.cs2Dec = scrMepcc → i.cs1.data.extractLsb' 0 1 = 0) : i.csrWdata = i.cs1.data := by
  have happ : ∀ k n : ℕ, ∀ hk : n + k = 32, i.cs1.data.extractLsb' 0 k = 0 →
      (i.cs1.data.extractLsb' k n ++ (0 : BitVec k)).cast hk = i.cs1.data := by
    intro k n hk h0
    rw [← h0]
    refine BitVec.eq_of_getLsbD_eq fun j hj => ?_
    rw [BitVec.getLsbD_cast, BitVec.getLsbD_append]
    by_cases hjk : j < k
    · simp [hjk]
    · have : j - k < n := by omega
      simp [hjk, this, show k + (j - k) = j by omega]
  rw [csrWdata]
  split_ifs with hm hp
  · exact happ 2 30 rfl (h hm)
  · exact happ 1 31 rfl (h' hp)
  · rfl

/-- A register moved to its own address keeps its bounds. -/
theorem bounds_setAddress_self {r : RegVal} (h : r.cap.WellFormed r.data) :
    (setAddress r.full r.data).toCap.bounds = r.cap.bounds := by
  have hco : r.cap.capCor = computeCorrections r.cap.top r.cap.base
    (addrMid r.data (expandExp r.cap.cexp)) := h.coherent
  rw [Cap.bounds, Cap.bounds, hco]
  rfl

/-- **Writing a special capability register.** What is written is the first source register,
unsealed if it goes to MTCC or MEPCC. -/
theorem csrWrite_derived (hop : i.op = .ccsrRw) (hcs1 : i.cs1.Good)
    (hv : i.csrWrite.cap.valid = true) {opened : Prop} :
    i.csrWrite.Good ∧ DerivedFrom opened i.csrWrite.held i.cs1.held ∧
      (i.scrLegalization = true → isSealed i.csrWrite.full = false) := by
  by_cases hleg : i.scrLegalization = true
  · -- legalised: the tag survives only if the address needed no legalisation
    have hsel : i.op.setaddrSel = .scr := by rw [hop]; rfl
    have hout : i.setaddr1Outcap = setAddress i.fullcapA i.csrWdata := by
      rw [setaddr1Outcap, hsel]
      exact if_pos hleg
    have hlegal : ∃ mis : Bool,
        i.csrWrite = ⟨i.csrWdata, { (setAddress i.fullcapA i.csrWdata).toCap with
        valid := if mis || !i.fullcapA.perms.ex || i.fullcapA.otype != 0 then false
          else i.fullcapA.valid }⟩ ∧ (mis = false → i.csrWdata = i.cs1.data) := by
      rw [csrWrite, hout]
      simp only [scrLegalization, Bool.or_eq_true, beq_iff_eq] at hleg
      have hne : scrMtcc ≠ scrMepcc := by decide
      by_cases hm : i.cs2Dec = scrMtcc
      · refine ⟨_, if_pos hm, fun h => csrWdata_eq (fun _ => by simpa using h) fun h' => ?_⟩
        exact absurd (hm.symm.trans h') hne
      · have hp := hleg.resolve_left hm
        refine ⟨_, by rw [if_neg hm, if_pos hp]; rfl,
          fun h => csrWdata_eq (fun h' => ?_) fun _ => ?_⟩
        · exact absurd h' hm
        · simpa using h
    obtain ⟨mis, hw, hmis⟩ := hlegal
    rw [hw] at hv
    have hv' : (if mis || !i.fullcapA.perms.ex || i.fullcapA.otype != 0 then false
        else i.fullcapA.valid) = true := hv
    have hcond : (mis || !i.fullcapA.perms.ex || i.fullcapA.otype != 0) = false := by
      refine Bool.eq_false_iff.mpr fun h => ?_
      rw [if_pos h] at hv'
      exact Bool.false_ne_true hv'
    rw [hcond] at hv'
    simp only [Bool.or_eq_false_iff] at hcond
    have hval : i.cs1.cap.valid = true := hv'
    have hdata := hmis hcond.1.1
    have hun : isSealed i.cs1.full = false := hcond.2
    rw [hw, hdata]
    have hd : RegVal.Good ⟨i.cs1.data, { (setAddress i.fullcapA i.cs1.data).toCap with
          valid := if mis || !i.fullcapA.perms.ex || i.fullcapA.otype != 0 then false
            else i.fullcapA.valid }⟩ ∧ DerivedFrom opened _ i.cs1.held :=
      derivedFrom_of_bounds hval hcs1 rfl (bounds_setAddress_self (hcs1 hval)) (Perms.le_refl _)
        fun h => absurd (hun.symm.trans h) Bool.false_ne_true
    exact ⟨hd.1, hd.2, fun _ => hun⟩
  · have hw : i.csrWrite = i.cs1 := by
      simp only [scrLegalization, Bool.or_eq_true, beq_iff_eq, not_or] at hleg
      rw [csrWrite, if_neg hleg.1, if_neg hleg.2]
    rw [hw] at hv ⊢
    exact ⟨hcs1, .refl hv, fun h => absurd h hleg⟩

/-- A sentry: an executable capability with one of the five sentry types. -/
def IsSentry (d : DecodedCap) : Prop :=
  d.perms.ex = true ∧ d.otype ∈ [otypeSentryIiFwd, otypeSentryIdFwd, otypeSentryIeFwd,
    otypeSentryIdBkwd, otypeSentryIeBkwd]

/-- **Jumping.** The new PCC is the target capability; if that was sealed, it was a sentry. -/
theorem pccCap_derived (hcs1 : i.cs1.Good) (hb : i.branchReq = true) :
    PccGood i.pccCap ∧ DerivedFrom (IsSentry i.cs1.full) i.pccCap.heldPcc i.cs1.held := by
  obtain ⟨hop, hfault⟩ : i.op = .cjalr ∧ i.permVio = false := by
    rw [branchReq, Bool.and_eq_true, beq_iff_eq, Bool.not_eq_true'] at hb
    refine ⟨hb.1, ?_⟩
    have := hb.2
    rw [instrFault, hb.1] at this
    exact this
  simp only [permVio, permVioVec, hop, PermVio.any, Bool.or_eq_false_iff,
    Bool.not_eq_false'] at hfault
  have hval : i.cs1.cap.valid = true := by tauto
  obtain ⟨a, hwf, heq⟩ := hcs1.sound hval
  refine ⟨fun _ => ⟨⟨i.cs1.data, (hcs1 hval).congr rfl, rfl⟩, rfl⟩, hval,
    ⟨Nat.le_refl _, Nat.le_refl _,
    Perms.le_refl _⟩, ?_⟩
  intro hs
  have hs' : i.chkCs1Otype0 = false := by
    have hs2 : (i.fullcapA.otype != otypeUnsealed) = true := hs
    rw [chkCs1Otype0]
    simpa using hs2
  have hok : (i.chkCs1Otype1 || i.chkCs1Otype23 || i.chkCs1Otype45) = true := by
    have hseal := hfault
    rw [hs'] at hseal
    simp only [Bool.false_or] at hseal
    by_contra hno
    simp only [Bool.or_eq_true, not_or, Bool.not_eq_true] at hno
    simp [hno.1.1, hno.1.2, hno.2] at hseal
  refine .inr ?_
  simp only [chkCs1Otype1, chkCs1Otype23, chkCs1Otype45, Bool.or_eq_true, Bool.and_eq_true,
    beq_iff_eq] at hok
  simp only [IsSentry, List.mem_cons, List.not_mem_nil, or_false]
  have hA : i.cs1.full = i.fullcapA := rfl
  rw [hA]
  tauto

end ExIn

/-! ### Loads -/

/-- **Loading.** A capability that a load delivers tagged is derived from the one in memory, under
any clearing rule. -/
theorem memToCap_derived {hi lo : BitVec 33} {clrperm : CapClrperm} {opened : Prop}
    (hgood : (RegVal.mk (lo.setWidth 32) (memToCap hi lo default)).Good)
    (hv : (memToCap hi lo clrperm).valid = true) :
    (RegVal.mk (lo.setWidth 32) (memToCap hi lo clrperm)).Good ∧
      DerivedFrom opened (RegVal.held ⟨lo.setWidth 32, memToCap hi lo clrperm⟩)
        (RegVal.held ⟨lo.setWidth 32, memToCap hi lo default⟩) := by
  have hval : (memToCap hi lo default).valid = true := by
    have h := (Bool.and_eq_true_iff.mp hv).1
    simp only [memToCap, h]
    rfl
  have hperms : expandPerms (memToCap hi lo default).cperms = expandPerms (hi.extractLsb' 25 6) :=
    congrArg expandPerms (maskLoadedCperms_default _ _ _)
  refine derivedFrom_of_bounds hval hgood rfl rfl ?_ ?_
  · rw [hperms]
    exact expandPerms_maskLoadedCperms_le _ _ _ _
  · intro hs
    refine .inl ⟨rfl, rfl, rfl, rfl, ?_⟩
    have hs' : (hi.extractLsb' 22 3 != otypeUnsealed) = true := hs
    have hloaded : (memToCap hi lo clrperm).cperms = maskLoadedCperms (hi.extractLsb' 25 6) clrperm
        (memToCap hi lo clrperm).valid (hi.extractLsb' 22 3 != otypeUnsealed) := rfl
    change expandPerms (memToCap hi lo clrperm).cperms =
      expandPerms (memToCap hi lo default).cperms ∨
      expandPerms (memToCap hi lo clrperm).cperms =
        { expandPerms (memToCap hi lo default).cperms with gl := false }
    rw [hloaded, hs', hperms]
    exact maskLoadedCperms_sealed _ _ _

end Cheriot

end Croc
