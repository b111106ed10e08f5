import Croc.Cheriot.Ex

/-!
# The access checks

Every load, store and instruction fetch in CHERIoT mode is checked against a capability. The three
checks are written for timing, each in its own way. A data access compares its address with the top
less its size, and guards the subtraction separately. A capability access drops the three low bits
of address and top before it compares them. A fetch takes the difference of top and PC in 34 bits
and looks at the upper ones. Here they are read as what they stand for: the bytes accessed lie
between base and top.

The check of a capability access drops bits that an unaligned address has, so it may miss a bound.
The instruction traps all the same, but the trap has to be told apart: an alignment fault is
reported only if a second, exact comparison finds nothing else wrong.

## Main definitions

* `accessSize`: the size of a data access.
* `ExIn.addrBoundVioExt`, `ExIn.lsAddrMisalignedOnly`, `ExIn.cheriotWbErrInfo`, `lsuExcCause`: how a
  fault of a capability access is reported.
* `fetchBoundVio`, `fetchAccVio`: the checks of a fetch.
* `ExIn.Unauthorised`, `ExIn.InBounds`, `ExIn.Misaligned`: what may be wrong with a capability
  access.

## Main results

* `rv32LsuErr_iff`, `cheriotLsuErr_iff`, `fetchBoundVio_iff`: the checks as arithmetic.
* `lsAddrMisalignedOnly_iff`: when an alignment fault is reported.
* `accessChecks_exact`: all of them together.
-/

namespace Croc

namespace Cheriot

open Bits (Word)

/-! ### Data accesses -/

/-- The size of a data access, by `lsu_type`. -/
def accessSize (lsuType : BitVec 2) : ℕ :=
  if lsuType = 0b00 then 4 else if lsuType = 0b01 then 2 else 1

/-- The subtraction of a size from the top, with its guard. -/
theorem topBound_vio_iff (top : BitVec 33) (addr : Word) (offset : BitVec 33) (sizeOk : Bool)
    (hsize : sizeOk = true ↔ offset.toNat ≤ top.toNat) :
    (decide (top - offset < addr.setWidth 33) || !sizeOk) = true ↔
      top.toNat < addr.toNat + offset.toNat := by
  have htop := top.isLt
  have haddr := addr.isLt
  have ha : (addr.setWidth 33).toNat = addr.toNat := by
    rw [BitVec.toNat_setWidth]
    omega
  rw [Bool.or_eq_true, decide_eq_true_iff, Bool.not_eq_true', ← Bool.not_eq_true, hsize,
    BitVec.lt_def, BitVec.toNat_sub, ha]
  omega

/-- The guard of the subtraction. -/
theorem topSizeOk_iff (top : BitVec 33) (lsuType : BitVec 2) :
    (if lsuType = 0b00 then top.extractLsb' 2 31 != 0
      else if lsuType = 0b01 then top.extractLsb' 1 32 != 0 else top != 0) = true ↔
    accessSize lsuType ≤ top.toNat := by
  rw [accessSize]
  split_ifs
  · rw [bne_iff_ne]
    exact Bits.extractLsb'_upper_ne_zero_iff top (k := 2) rfl
  · rw [bne_iff_ne]
    exact Bits.extractLsb'_upper_ne_zero_iff top (k := 1) rfl
  · rw [bne_iff_ne, ne_eq, ← BitVec.toNat_inj, show (0 : BitVec 33).toNat = 0 from rfl]
    omega

/-- **The check of a data access.** -/
theorem rv32LsuErr_iff (authority : DecodedCap) (lsuType : BitVec 2) (we : Bool) (addr : Word) :
    rv32LsuErr true false authority lsuType we addr false = true ↔
      authority.valid = false ∨ isSealed authority = true ∨
        (if we then authority.perms.sd else authority.perms.ld) = false ∨
        ¬(authority.base32.toNat ≤ addr.toNat ∧
          addr.toNat + accessSize lsuType ≤ authority.top33.toNat) := by
  set offset : BitVec 33 := if lsuType = 0b00 then 4 else if lsuType = 0b01 then 2 else 1 with hoff
  set sizeOk := if lsuType = 0b00 then authority.top33.extractLsb' 2 31 != 0
    else if lsuType = 0b01 then authority.top33.extractLsb' 1 32 != 0
    else authority.top33 != 0 with hok
  have hsize : offset.toNat = accessSize lsuType := by
    rw [hoff, accessSize]
    split_ifs <;> rfl
  have htop := topBound_vio_iff authority.top33 addr offset sizeOk
    (by rw [hok, hsize]; exact topSizeOk_iff _ _)
  rw [hsize] at htop
  have hbase : decide (addr < authority.base32) = true ↔ addr.toNat < authority.base32.toNat := by
    rw [decide_eq_true_iff, BitVec.lt_def]
  have hdef : rv32LsuErr true false authority lsuType we addr false =
      (((decide (authority.top33 - offset < addr.setWidth 33) || !sizeOk) ||
          decide (addr < authority.base32)) ||
        (!authority.valid || isSealed authority || (!we && !authority.perms.ld) ||
          (we && !authority.perms.sd))) := by
    simp only [rv32LsuErr, hoff, hok]
    split_ifs <;> simp
  have hperm : ∀ v x w l d : Bool, (!v || x || (!w && !l) || (w && !d)) = true ↔
      v = false ∨ x = true ∨ (if w then d else l) = false := by decide
  rw [hdef, Bool.or_eq_true, Bool.or_eq_true, htop, hbase, hperm]
  constructor
  · rintro ((h | h) | h | h | h)
    · exact .inr (.inr (.inr (by omega)))
    · exact .inr (.inr (.inr (by omega)))
    · exact .inl h
    · exact .inr (.inl h)
    · exact .inr (.inr (.inl h))
  · rintro (h | h | h | h)
    · exact .inr (.inl h)
    · exact .inr (.inr (.inl h))
    · exact .inr (.inr (.inr h))
    · exact .inl (by omega)

/-- The second half of a split access is not checked against the bounds again. -/
theorem rv32LsuErr_incr {enable debugMode we : Bool} {authority : DecodedCap} {ty : BitVec 2}
    {addr addr' : Word} (h : rv32LsuErr enable debugMode authority ty we addr false = false) :
    rv32LsuErr enable debugMode authority ty we addr' true = false := by
  simp only [rv32LsuErr, Bool.not_true, Bool.and_false, Bool.false_or, Bool.not_false,
    Bool.and_true] at h ⊢
  cases hen : (enable && !debugMode) with
  | false => rw [Bool.false_and]
  | true =>
    rw [hen, Bool.true_and] at h
    rw [Bool.true_and]
    exact (Bool.or_eq_false_iff.mp h).2

/-! ### Capability accesses -/

/-- `cheriot_violation_cause`. -/
def cheriotViolationCause (boundVio : Bool) (v : ExIn.PermVio) : BitVec 5 :=
  if v.tag then 0x2
  else if v.sealed then 0x3
  else if v.ex then 0x11
  else if v.ld then 0x12
  else if v.sd then 0x13
  else if v.sc then 0x15
  else if v.asr then 0x18
  else if boundVio then 0x1
  else 0x0

/-- The exceptions that the controller raises for a faulting load or store. -/
inductive LsuExcCause
  | loadAddrMisaligned
  | storeAddrMisaligned
  | cheriFault
  deriving DecidableEq, Repr

/-- The cause for a fault of a load or store: `load_err_prio` and `store_err_prio` of the
controller, for an error that a capability check has raised. -/
def lsuExcCause (we : Bool) (info : BitVec 16) : LsuExcCause :=
  if info.getLsbD 11 then if we then .storeAddrMisaligned else .loadAddrMisaligned
  else .cheriFault

namespace ExIn

variable (i : ExIn)

/-- `addr_bound_vio_ext`: the bounds check of a capability access, without dropping bits. -/
def addrBoundVioExt : Bool :=
  if i.op.isCap then
    i.addrBoundVio || decide (i.fullcapA.top33 < i.cs1AddrPlusimm.setWidth 33 + 8)
  else i.addrBoundVio

/-- `perm_vio_vec[PVIO_ALIGN-1:0]` is not zero. -/
def PermVio.anyBelowAlign (v : PermVio) : Bool :=
  v.tag || v.sealed || v.ex || v.ld || v.sd || v.sc || v.asr

/-- `ls_addr_misaligned_only`. -/
def lsAddrMisalignedOnly : Bool :=
  i.permVioVec.align && !i.permVioVec.anyBelowAlign && !i.addrBoundVioExt

/-- `cheriot_err_cause`. -/
def cheriotErrCause : BitVec 5 := cheriotViolationCause i.addrBoundVioExt i.permVioVec

/-- `cheriot_wb_err_info_d` of a capability load or store that faults. -/
def cheriotWbErrInfo : BitVec 16 :=
  0#4 ++ BitVec.ofBool i.lsAddrMisalignedOnly ++ 0#1 ++ i.raddrA ++ i.cheriotErrCause

/-- The authority of a capability access is not tagged, is sealed or lacks a permission. -/
def Unauthorised : Prop :=
  i.fullcapA.valid = false ∨ isSealed i.fullcapA = true ∨
    (i.op = .cloadCap ∧ i.fullcapA.perms.ld = false) ∨
    (i.op = .cstoreCap ∧ i.fullcapA.perms.sd = false) ∨
    (i.op = .cstoreCap ∧ i.fullcapB.valid = true ∧ i.fullcapA.perms.mc = false)

/-- The eight bytes of a capability access lie between the bounds of the authority. -/
def InBounds : Prop :=
  i.fullcapA.base32.toNat ≤ i.cs1AddrPlusimm.toNat ∧
    i.cs1AddrPlusimm.toNat + 8 ≤ i.fullcapA.top33.toNat

/-- The address of a capability access is not a multiple of eight. -/
def Misaligned : Prop := i.cs1AddrPlusimm.toNat % 8 ≠ 0

end ExIn

section CapAccess

variable {i : ExIn}

theorem align_iff (hcap : i.op.isCap = true) : i.permVioVec.align = true ↔ i.Misaligned := by
  have hlow : (i.cs1AddrPlusimm.extractLsb' 0 3 != 0) = true ↔ i.Misaligned := by
    rw [bne_iff_ne, ne_eq, ← BitVec.toNat_inj, BitVec.extractLsb'_toNat, Nat.shiftRight_zero,
      show (0 : BitVec 3).toNat = 0 from rfl, ExIn.Misaligned]
  rw [← hlow]
  cases hop : i.op <;> simp_all [ExIn.permVioVec, CheriotOp.isCap]

theorem anyBelowAlign_iff (hcap : i.op.isCap = true) :
    i.permVioVec.anyBelowAlign = true ↔ i.Unauthorised := by
  cases hop : i.op <;>
    simp_all [ExIn.permVioVec, ExIn.PermVio.anyBelowAlign, ExIn.Unauthorised, CheriotOp.isCap,
      or_assoc, and_comm]

/-- The bounds check that drops the three low bits. -/
theorem addrBoundVio_iff (hcap : i.op.isCap = true) (hdebug : i.debugMode = false) :
    i.addrBoundVio = true ↔ i.cs1AddrPlusimm.toNat < i.fullcapA.base32.toNat ∨
      i.fullcapA.top33.toNat / 8 * 8 ≤ i.cs1AddrPlusimm.toNat / 8 * 8 := by
  set a := i.cs1AddrPlusimm with ha
  set top := i.fullcapA.top33 with htop
  have haddr : ((a.extractLsb' 3 29 ++ (0 : BitVec 3)).setWidth 33).toNat = a.toNat / 8 * 8 := by
    have h := Bits.toNat_extractLsb'_append_zero a (k := 3) (n := 29) rfl
    have hlt := a.isLt
    rw [BitVec.toNat_setWidth, h]
    omega
  have hbound : (top.extractLsb' 3 30 ++ (0 : BitVec 3)).toNat = top.toNat / 8 * 8 :=
    Bits.toNat_extractLsb'_append_zero top (k := 3) (n := 30) rfl
  have hdef : i.addrBoundVio =
      (decide (top.extractLsb' 3 30 ++ (0 : BitVec 3) <
        (a.extractLsb' 3 29 ++ (0 : BitVec 3)).setWidth 33) ||
        decide (a < i.fullcapA.base32) ||
        (a.extractLsb' 3 29 ++ (0 : BitVec 3)).setWidth 33 ==
          top.extractLsb' 3 30 ++ (0 : BitVec 3)) := by
    cases hop : i.op <;> simp_all [ExIn.addrBoundVio, CheriotOp.isCap]
  rw [hdef, Bool.or_eq_true, Bool.or_eq_true, decide_eq_true_iff, decide_eq_true_iff, beq_iff_eq,
    BitVec.lt_def, BitVec.lt_def, ← BitVec.toNat_inj, haddr, hbound]
  omega

/-- The bounds check that drops no bits. -/
theorem addrBoundVioExt_iff (hcap : i.op.isCap = true) (hdebug : i.debugMode = false) :
    i.addrBoundVioExt = true ↔ ¬i.InBounds := by
  have hlt := i.cs1AddrPlusimm.isLt
  have hsum : (i.cs1AddrPlusimm.setWidth 33 + 8).toNat = i.cs1AddrPlusimm.toNat + 8 := by
    rw [BitVec.toNat_add, BitVec.toNat_setWidth, show (8 : BitVec 33).toNat = 8 from rfl]
    omega
  rw [ExIn.addrBoundVioExt, if_pos hcap, Bool.or_eq_true, addrBoundVio_iff hcap hdebug,
    decide_eq_true_iff, BitVec.lt_def, hsum, ExIn.InBounds]
  omega

/-- **The check of a capability access.** -/
theorem cheriotLsuErr_iff (hcap : i.op.isCap = true) (henable : i.enable = true)
    (hdebug : i.debugMode = false) (htclr : i.dbgTclrFault = false) :
    i.cheriotLsuErr = true ↔ i.Unauthorised ∨ i.Misaligned ∨ ¬i.InBounds := by
  have hperm : i.permVio = (i.permVioVec.anyBelowAlign || i.permVioVec.align) := rfl
  have hdef : i.cheriotLsuErr = (i.addrBoundVio || i.permVio) := by
    simp [ExIn.cheriotLsuErr, henable, hdebug, htclr]
  rw [hdef, Bool.or_eq_true, hperm, Bool.or_eq_true, addrBoundVio_iff hcap hdebug,
    anyBelowAlign_iff hcap, align_iff hcap, ExIn.InBounds, ExIn.Misaligned]
  by_cases hu : i.Unauthorised
  · simp only [hu, true_or, or_true]
  · -- an aligned access ends below the top exactly if the multiple of eight below the top is
    -- above it
    simp only [hu, false_or]
    omega

/-- **When an alignment fault is reported.** -/
theorem lsAddrMisalignedOnly_iff (hcap : i.op.isCap = true) (hdebug : i.debugMode = false) :
    i.lsAddrMisalignedOnly = true ↔ i.Misaligned ∧ ¬i.Unauthorised ∧ i.InBounds := by
  rw [ExIn.lsAddrMisalignedOnly, Bool.and_eq_true, Bool.and_eq_true, Bool.not_eq_true',
    Bool.not_eq_true', ← Bool.not_eq_true, ← Bool.not_eq_true, align_iff hcap,
    anyBelowAlign_iff hcap,
    addrBoundVioExt_iff hcap hdebug, not_not, and_assoc]

theorem getLsbD_cheriotWbErrInfo (i : ExIn) :
    i.cheriotWbErrInfo.getLsbD 11 = i.lsAddrMisalignedOnly := by
  simp only [ExIn.cheriotWbErrInfo, BitVec.getLsbD_append]
  simp

end CapAccess

/-! ### Fetches -/

/-- `allow_all`: the PCC reaches over the whole address space. -/
def allowAll (pcc : DecodedCap) : Bool := pcc.base32 == 0 && pcc.top33 == 0x100000000

/-- `cheriot_bound_vio`: the bounds check of a fetch, from the room between PC and top. -/
def fetchBoundVio (enable debugMode : Bool) (pcc : DecodedCap) (ifInstrAddr : Word)
    (isCompressed : Bool) : Bool :=
  let instrHdrm : BitVec 34 := pcc.top33.setWidth 34 - ifInstrAddr.setWidth 34
  let hdrmGe4 := instrHdrm.extractLsb' 2 31 != 0 && !instrHdrm.getLsbD 33
  let hdrmGe2 := instrHdrm.extractLsb' 1 32 != 0 && !instrHdrm.getLsbD 33
  let hdrmOk := allowAll pcc || if isCompressed then hdrmGe2 else hdrmGe4
  let baseOk := !decide (ifInstrAddr < pcc.base32)
  enable && !debugMode && (!baseOk || !hdrmOk)

/-- `cheriot_acc_vio`: the other checks of a fetch. -/
def fetchAccVio (enable debugMode : Bool) (pcc : DecodedCap) : Bool :=
  enable && !debugMode && (!pcc.perms.ex || !pcc.valid || pcc.otype != 0)

/-- The length of an instruction. -/
def instrLength (isCompressed : Bool) : ℕ := if isCompressed then 2 else 4

/-- The room between PC and top, by its sign and its upper bits. -/
theorem hdrm_ge_iff (top : BitVec 33) (pc : Word) {k n : ℕ} (h : 33 = k + n) :
    let hdrm : BitVec 34 := top.setWidth 34 - pc.setWidth 34
    (hdrm.extractLsb' k n != 0 && !hdrm.getLsbD 33) = true ↔ pc.toNat + 2 ^ k ≤ top.toNat := by
  intro hdrm
  have htop := top.isLt
  have hpc := pc.isLt
  have hhdrm : hdrm.toNat = (2 ^ 34 - pc.toNat + top.toNat) % 2 ^ 34 := by
    rw [BitVec.toNat_sub, BitVec.toNat_setWidth, BitVec.toNat_setWidth,
      Nat.mod_eq_of_lt (show pc.toNat < 2 ^ 34 by omega),
      Nat.mod_eq_of_lt (show top.toNat < 2 ^ 34 by omega)]
  have hsign : hdrm.getLsbD 33 = decide (2 ^ 33 ≤ hdrm.toNat) := by
    rw [BitVec.getLsbD, Nat.testBit_eq_decide_div_mod_eq, decide_eq_decide]
    omega
  have hk := Nat.two_pow_pos k
  rw [Bool.and_eq_true, Bool.not_eq_true', hsign, decide_eq_false_iff_not, bne_iff_ne]
  by_cases hneg : 2 ^ 33 ≤ hdrm.toNat
  · simp only [hneg, not_true_eq_false, and_false, false_iff]
    omega
  · -- the sign bit is clear, so the bits below it are the number
    have hlow : (hdrm.setWidth 33).toNat = hdrm.toNat := by
      rw [BitVec.toNat_setWidth]
      omega
    have hext : (hdrm.setWidth 33).extractLsb' k n = hdrm.extractLsb' k n := by
      ext j hj
      simp only [BitVec.getElem_extractLsb', BitVec.getLsbD_setWidth]
      rw [decide_eq_true (by omega), Bool.true_and]
    rw [← hext, Bits.extractLsb'_upper_ne_zero_iff (hdrm.setWidth 33) h, hlow]
    simp only [hneg, not_false_eq_true, and_true]
    omega

/-- **The bounds check of a fetch.** -/
theorem fetchBoundVio_iff (pcc : DecodedCap) (pc : Word) (isCompressed : Bool) :
    fetchBoundVio true false pcc pc isCompressed = true ↔
      ¬(pcc.base32.toNat ≤ pc.toNat ∧ pc.toNat + instrLength isCompressed ≤ pcc.top33.toNat) ∧
        ¬(pcc.base32.toNat = 0 ∧ pcc.top33.toNat = 2 ^ 32) := by
  have hall : allowAll pcc = true ↔ pcc.base32.toNat = 0 ∧ pcc.top33.toNat = 2 ^ 32 := by
    rw [allowAll, Bool.and_eq_true, beq_iff_eq, beq_iff_eq, ← BitVec.toNat_inj, ← BitVec.toNat_inj]
    rfl
  have hbase : decide (pc < pcc.base32) = true ↔ pc.toNat < pcc.base32.toNat := by
    rw [decide_eq_true_iff, BitVec.lt_def]
  obtain ⟨ge, hge, hdef⟩ : ∃ ge : Bool,
      (ge = true ↔ pc.toNat + instrLength isCompressed ≤ pcc.top33.toNat) ∧
        fetchBoundVio true false pcc pc isCompressed =
          (decide (pc < pcc.base32) || !(allowAll pcc || ge)) := by
    refine ⟨_, ?_,
      by rw [fetchBoundVio, Bool.not_false, Bool.and_true, Bool.true_and, Bool.not_not]⟩
    cases isCompressed with
    | true => exact hdrm_ge_iff pcc.top33 pc (k := 1) (n := 32) rfl
    | false => exact hdrm_ge_iff pcc.top33 pc (k := 2) (n := 31) rfl
  rw [hdef, Bool.or_eq_true, Bool.not_eq_true', ← Bool.not_eq_true, Bool.or_eq_true, hall, hge,
    hbase]
  omega

/-- **The access checks are exact.** In CHERIoT mode, outside debug mode, and with a cleared tag not
escalated to a fault. A data access faults exactly if its authority is not tagged, is sealed, lacks
the permission, or does not reach over the bytes accessed, and the second half of a split access
adds no fault of its own. A capability access faults exactly if something is wrong with its
authority, its alignment or its bounds, and is reported as misaligned exactly if nothing else is
wrong. A fetch faults for bounds exactly if the instruction does not lie between base and top,
unless the PCC spans all of memory. -/
theorem accessChecks_exact :
    (∀ (authority : DecodedCap) (lsuType : BitVec 2) (we : Bool) (addr addr' : Word),
      (rv32LsuErr true false authority lsuType we addr false = true ↔
        authority.valid = false ∨ isSealed authority = true ∨
          (if we then authority.perms.sd else authority.perms.ld) = false ∨
          ¬(authority.base32.toNat ≤ addr.toNat ∧
            addr.toNat + accessSize lsuType ≤ authority.top33.toNat)) ∧
      (rv32LsuErr true false authority lsuType we addr' true = true →
        rv32LsuErr true false authority lsuType we addr false = true)) ∧
    (∀ i : ExIn, i.op.isCap = true → i.enable = true → i.debugMode = false →
      i.dbgTclrFault = false →
      (i.cheriotLsuErr = true ↔ i.Unauthorised ∨ i.Misaligned ∨ ¬i.InBounds) ∧
      ∀ we, lsuExcCause we i.cheriotWbErrInfo ≠ .cheriFault ↔
        i.Misaligned ∧ ¬i.Unauthorised ∧ i.InBounds) ∧
    ∀ (pcc : DecodedCap) (pc : Word) (isCompressed : Bool),
      fetchBoundVio true false pcc pc isCompressed = true ↔
        ¬(pcc.base32.toNat ≤ pc.toNat ∧ pc.toNat + instrLength isCompressed ≤ pcc.top33.toNat) ∧
          ¬(pcc.base32.toNat = 0 ∧ pcc.top33.toNat = 2 ^ 32) := by
  refine ⟨fun authority lsuType we addr addr' => ⟨rv32LsuErr_iff _ _ _ _, ?_⟩,
    fun i hcap henable hdebug htclr => ⟨cheriotLsuErr_iff hcap henable hdebug htclr, fun we => ?_⟩,
    fetchBoundVio_iff⟩
  · contrapose!
    intro h
    rw [rv32LsuErr_incr (Bool.eq_false_iff.mpr h)]
    exact Bool.false_ne_true
  · rw [← lsAddrMisalignedOnly_iff hcap hdebug, ← getLsbD_cheriotWbErrInfo, lsuExcCause]
    cases i.cheriotWbErrInfo.getLsbD 11 <;> cases we <;> simp

/-- A capability load four bytes into a granule, through the memory root. -/
def misalignedLoad : ExIn :=
  { (default : ExIn) with op := .cloadCap, cs1 := ⟨0x10000104, rootCapTm⟩, enable := true }

theorem accessChecks_exact_misalignedLoad :
    misalignedLoad.cheriotLsuErr = true ∧
      lsuExcCause false misalignedLoad.cheriotWbErrInfo ≠ .cheriFault := by
  obtain ⟨herr, hcause⟩ := accessChecks_exact.2.1 misalignedLoad rfl rfl rfl rfl
  have hmis : misalignedLoad.Misaligned := by
    show misalignedLoad.cs1AddrPlusimm.toNat % 8 ≠ 0
    decide
  refine ⟨herr.mpr (.inr (.inl hmis)), (hcause false).mpr ⟨hmis, ?_, ?_⟩⟩
  · rintro (h | h | ⟨-, h⟩ | ⟨h, -⟩ | ⟨h, -⟩)
    · exact absurd h (by decide)
    · exact absurd h (by decide)
    · exact absurd h (by decide)
    · exact absurd h (by decide)
    · exact absurd h (by decide)
  · exact ⟨by decide, by decide⟩

end Cheriot

end Croc
