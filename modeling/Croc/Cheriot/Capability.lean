import Croc.Lib.Bits

/-!
# The compressed capability format

The types and constants of `ibex_cheriot_pkg`: the compressed capability kept in registers, the
decoded one used inside the core, and the functions between the two and the memory format.

A capability is 64 bits and a tag. The low word is the address; the high word packs permissions,
object type, exponent and two 9-bit mantissas. The register file keeps two more bits beside it, the
corrections, so that decoding needs no comparison.

## Main definitions

* `Perms`, `expandPerms`, `compressPerms`, `maskLoadedCperms`: the two permission formats.
* `Cap`, `DecodedCap`, `decodeCap`, `encodeCap`: the register format and its expansion.
* `expandBound33`, `computeCorrections`: how a bound is rebuilt from the address.
* `setAddress`: moving the address of a capability.
* `memToCap`, `capToMem`: the memory format.

## Main results

* `memToCap_capToMem`: what comes back from memory.
-/

namespace Croc

namespace Cheriot

open Bits (Word)

/-- The expanded permissions, in the order of the source's packed struct. -/
structure Perms where
  /-- User permission, software defined. -/
  u0 : Bool
  /-- Seal. -/
  se : Bool
  /-- Unseal. -/
  us : Bool
  /-- Execute. -/
  ex : Bool
  /-- Access system registers. -/
  sr : Bool
  /-- Load and store capabilities. -/
  mc : Bool
  /-- Load. -/
  ld : Bool
  /-- Store local capabilities. -/
  sl : Bool
  /-- Load mutable. -/
  lm : Bool
  /-- Store. -/
  sd : Bool
  /-- Load global. -/
  lg : Bool
  /-- Global. -/
  gl : Bool
  deriving DecidableEq, Repr, Inhabited

/-- No permission at all; `default` is the all-zero record. -/
def Perms.none : Perms := default

/-- The permissions as the 12-bit vector the source packs them into. -/
def Perms.toBits (p : Perms) : BitVec 12 :=
  BitVec.ofBoolListBE [p.u0, p.se, p.us, p.ex, p.sr, p.mc, p.ld, p.sl, p.lm, p.sd, p.lg, p.gl]

/-- The permissions packed into a 12-bit vector. -/
def Perms.ofBits (v : BitVec 12) : Perms where
  u0 := v.getLsbD 11
  se := v.getLsbD 10
  us := v.getLsbD 9
  ex := v.getLsbD 8
  sr := v.getLsbD 7
  mc := v.getLsbD 6
  ld := v.getLsbD 5
  sl := v.getLsbD 4
  lm := v.getLsbD 3
  sd := v.getLsbD 2
  lg := v.getLsbD 1
  gl := v.getLsbD 0

/-! ### Sealing types and exponents -/

/-- `OTYPE_UNSEALED`. -/
def otypeUnsealed : BitVec 3 := 0
/-- `OTYPE_SENTRY_II_FWD`: interrupt-inheriting forward sentry. -/
def otypeSentryIiFwd : BitVec 3 := 1
/-- `OTYPE_SENTRY_ID_FWD`: interrupt-disabling forward sentry. -/
def otypeSentryIdFwd : BitVec 3 := 2
/-- `OTYPE_SENTRY_IE_FWD`: interrupt-enabling forward sentry. -/
def otypeSentryIeFwd : BitVec 3 := 3
/-- `OTYPE_SENTRY_ID_BKWD`: interrupt-disabling backward sentry. -/
def otypeSentryIdBkwd : BitVec 3 := 4
/-- `OTYPE_SENTRY_IE_BKWD`: interrupt-enabling backward sentry. -/
def otypeSentryIeBkwd : BitVec 3 := 5

/-- `MAXCEXP`, the stored exponent that stands for `maxExp`. -/
def maxCexp : BitVec 4 := 15
/-- `MAXEXP`, the largest expanded exponent. -/
def maxExp : BitVec 5 := 24

/-! ### Capability types -/

/-- `cap_t`: the compressed capability and its correction bits. -/
structure Cap where
  /-- Correction bits, `{top_hi ^ addr_hi, addr_hi}`. -/
  capCor : BitVec 2
  /-- The tag. -/
  valid : Bool
  /-- The reserved bit. -/
  rsvd : Bool
  /-- Compressed permissions. -/
  cperms : BitVec 6
  /-- Object type. -/
  otype : BitVec 3
  /-- Compressed exponent. -/
  cexp : BitVec 4
  /-- Top mantissa. -/
  top : BitVec 9
  /-- Base mantissa. -/
  base : BitVec 9
  deriving DecidableEq, Repr, Inhabited

/-- `decoded_cap_t`: a compressed capability with its bounds and permissions expanded. -/
structure DecodedCap extends Cap where
  /-- Absolute top. -/
  top33 : BitVec 33
  /-- Absolute base. -/
  base32 : BitVec 32
  /-- Expanded permissions. -/
  perms : Perms
  deriving DecidableEq, Repr, Inhabited

/-- `cap_clrperm_t`: what a capability load strips from the loaded capability. -/
structure CapClrperm where
  /-- Clear the tag: the authority lacks MC. -/
  ctag : Bool
  /-- Clear SD and LM: the authority lacks LM. -/
  sdLm : Bool
  /-- Clear GL and LG: the authority lacks LG. -/
  glLg : Bool
  deriving DecidableEq, Repr, Inhabited

/-- `NULL_CAP`. -/
def nullCap : Cap := default
/-- `NULL_DECODED_CAP`. -/
def nullDecodedCap : DecodedCap := default

/-- `CPERMS_TX`, the executable root's permissions. -/
def cpermsTx : BitVec 6 := 0b101111
/-- `CPERMS_TM`, the memory root's permissions. -/
def cpermsTm : BitVec 6 := 0b111111
/-- `CPERMS_TS`, the sealing root's permissions. -/
def cpermsTs : BitVec 6 := 0b100111

/-- A root: the whole address space under permissions `cperms`. -/
def rootCap (cperms : BitVec 6) : Cap where
  capCor := 0
  valid := true
  rsvd := false
  cperms := cperms
  otype := otypeUnsealed
  cexp := maxCexp
  top := 0x100
  base := 0

/-- `ROOT_CAP_TX`. -/
def rootCapTx : Cap := rootCap cpermsTx
/-- `ROOT_CAP_TM`. -/
def rootCapTm : Cap := rootCap cpermsTm
/-- `ROOT_CAP_TS`. -/
def rootCapTs : Cap := rootCap cpermsTs

/-- `ROOT_DECODED_CAP_TX`, the PCC out of reset. -/
def rootDecodedCapTx : DecodedCap where
  toCap := rootCapTx
  top33 := 0x100000000
  base32 := 0
  perms := Perms.ofBits 0x1eb

/-! ### Permissions -/

/-- `PERM_MRW_IMSK`: what the capability read-write format implies. -/
def permMrwImsk : Perms := { Perms.none with ld := true, mc := true, sd := true }
/-- `PERM_MRO_IMSK`: what the capability read-only format implies. -/
def permMroImsk : Perms := { Perms.none with ld := true, mc := true }
/-- `PERM_MWO_IMSK`: what the capability write-only format implies. -/
def permMwoImsk : Perms := { Perms.none with sd := true, mc := true }
/-- `PERM_MDO_IMSK`: what the data-only format implies. -/
def permMdoImsk : Perms := Perms.none
/-- `PERM_EXE_IMSK`: what the executable format implies. -/
def permExeImsk : Perms := { Perms.none with ex := true, mc := true, ld := true }
/-- `PERM_SEA_IMSK`: what the sealing format implies. -/
def permSeaImsk : Perms := Perms.none

/-- `cheriot_expand_perms`. -/
def expandPerms (cperms : BitVec 6) : Perms :=
  let perms : Perms :=
    if cperms.extractLsb' 3 2 = 0b11#2 then
      { permMrwImsk with lg := cperms.getLsbD 0, lm := cperms.getLsbD 1, sl := cperms.getLsbD 2 }
    else if cperms.extractLsb' 2 3 = 0b101#3 then
      { permMroImsk with lg := cperms.getLsbD 0, lm := cperms.getLsbD 1 }
    else if cperms.extractLsb' 0 5 = 0b10000#5 then
      permMwoImsk
    else if cperms.extractLsb' 2 3 = 0b100#3 then
      { permMdoImsk with sd := cperms.getLsbD 0, ld := cperms.getLsbD 1 }
    else if cperms.extractLsb' 3 2 = 0b01#2 then
      { permExeImsk with lg := cperms.getLsbD 0, lm := cperms.getLsbD 1, sr := cperms.getLsbD 2 }
    else if cperms.extractLsb' 3 2 = 0b00#2 then
      { permSeaImsk with us := cperms.getLsbD 0, se := cperms.getLsbD 1, u0 := cperms.getLsbD 2 }
    else
      Perms.none
  { perms with gl := cperms.getLsbD 5 }

/-- `cheriot_perms_covers`: every bit of `mask` is set in `p`. -/
def permsCovers (p mask : Perms) : Bool :=
  (p.toBits ||| ~~~mask.toBits) == BitVec.allOnes 12

/-- The six bits `c5 … c0` of a compressed permission field. -/
def cpermsOfBits (c5 c4 c3 c2 c1 c0 : Bool) : BitVec 6 :=
  BitVec.ofBoolListBE [c5, c4, c3, c2, c1, c0]

/-- `cheriot_compress_perms`. -/
def compressPerms (perms : Perms) : BitVec 6 :=
  if permsCovers perms permExeImsk then
    cpermsOfBits perms.gl false true perms.sr perms.lm perms.lg
  else if permsCovers perms permMrwImsk then
    cpermsOfBits perms.gl true true perms.sl perms.lm perms.lg
  else if permsCovers perms permMroImsk then
    cpermsOfBits perms.gl true false true perms.lm perms.lg
  else if permsCovers perms permMwoImsk then
    cpermsOfBits perms.gl true false false false false
  else if perms.sd || perms.ld then
    cpermsOfBits perms.gl true false false perms.ld perms.sd
  else
    cpermsOfBits perms.gl false false perms.u0 perms.se perms.us

/-- `cheriot_mask_loaded_cperms`: the clearing rules of a capability load, on the compressed
permissions. -/
def maskLoadedCperms (cpermsIn : BitVec 6) (clrperm : CapClrperm) (validIn sealed : Bool) :
    BitVec 6 :=
  let clrGl := clrperm.glLg && validIn
  let clrLg := clrperm.glLg && validIn && !sealed
  let clrSdlm := clrperm.sdLm && validIn && !sealed
  let c := cpermsIn.getLsbD
  let gl := c 5 && !clrGl
  if cpermsIn.extractLsb' 3 2 = 0b11#2 then
    if clrSdlm then cpermsOfBits gl true false true (c 1 && !clrSdlm) (c 0 && !clrLg)
    else cpermsOfBits gl (c 4) (c 3) (c 2) (c 1 && !clrSdlm) (c 0 && !clrLg)
  else if cpermsIn.extractLsb' 2 3 = 0b101#3 then
    cpermsOfBits gl (c 4) (c 3) (c 2) (c 1 && !clrSdlm) (c 0 && !clrLg)
  else if cpermsIn.extractLsb' 0 5 = 0b10000#5 then
    -- without SD nothing is left of the write-only format
    if clrSdlm then cpermsOfBits gl false false false false false
    else cpermsOfBits gl (c 4) (c 3) (c 2) (c 1) (c 0)
  else if cpermsIn.extractLsb' 2 3 = 0b100#3 then
    cpermsOfBits gl (!(clrSdlm && !c 1)) (c 3) (c 2) (c 1) (c 0 && !clrSdlm)
  else if cpermsIn.extractLsb' 3 2 = 0b01#2 then
    cpermsOfBits gl (c 4) (c 3) (c 2) (c 1 && !clrSdlm) (c 0 && !clrLg)
  else
    cpermsOfBits gl (c 4) (c 3) (c 2) (c 1) (c 0)

/-- `cheriot_is_sealing_cap`. -/
def isSealingCap (cperms : BitVec 6) : Bool :=
  cperms.extractLsb' 3 2 == 0b00#2 && cperms.extractLsb' 0 3 != 0

/-! ### Bounds -/

/-- `cheriot_expand_exp`. -/
def expandExp (cexp : BitVec 4) : BitVec 5 :=
  if cexp = maxCexp then maxExp else cexp.setWidth 5

/-- `cheriot_compress_exp`. -/
def compressExp (exp5 : BitVec 5) : BitVec 4 :=
  if exp5 = maxExp then maxCexp else exp5.setWidth 4

/-- `cheriot_cap_length`: the length of a capability, saturated. -/
def capLength (fullCap : DecodedCap) : Word :=
  let tmp33 := fullCap.top33 - fullCap.base32.setWidth 33
  if tmp33.getLsbD 32 then 0xffffffff else tmp33.setWidth 32

/-- `cheriot_expand_bound33`: an absolute bound from its mantissa, a correction (`-1`, `0` or `+1`
as a two-bit number), the exponent and the address. -/
def expandBound33 (mant : BitVec 9) (cor : BitVec 2) (exp5 : BitVec 5) (addr : Word) : BitVec 33 :=
  let corVal : BitVec 33 :=
    if cor.getLsbD 1 then BitVec.allOnes 33 else (BitVec.ofBool (cor.getLsbD 0)).setWidth 33
  let corVal := (corVal <<< exp5.toNat) <<< 9
  let mask := (BitVec.allOnes 33 <<< exp5.toNat) <<< 9
  let bound := (addr.setWidth 33 &&& mask) + corVal
  bound ||| (mant.setWidth 33 <<< exp5.toNat)

/-- `cheriot_compute_corrections`: which of top and address lie in the region above the base's. -/
def computeCorrections (top base addr : BitVec 9) : BitVec 2 :=
  let topHi := top < base
  let addrHi := addr < base
  BitVec.ofBoolListBE [xor topHi addrHi, addrHi]

/-- `cheriot_get_top_correction`. -/
def getTopCorrection (capCor : BitVec 2) : BitVec 2 :=
  BitVec.ofBoolListBE [capCor.getLsbD 1 && capCor.getLsbD 0, capCor.getLsbD 1]

/-- `cheriot_get_base_correction`. -/
def getBaseCorrection (capCor : BitVec 2) : BitVec 2 :=
  BitVec.ofBoolListBE [capCor.getLsbD 0, capCor.getLsbD 0]

/-- The nine address bits above the exponent, `cbound_t'(addr >> exp5)`. -/
def addrMid (addr : Word) (exp5 : BitVec 5) : BitVec 9 := (addr >>> exp5.toNat).setWidth 9

/-- `cheriot_decode_cap`. -/
def decodeCap (cap : Cap) (addr : Word) : DecodedCap where
  toCap := cap
  perms := expandPerms cap.cperms
  top33 := expandBound33 cap.top (getTopCorrection cap.capCor) (expandExp cap.cexp) addr
  base32 := (expandBound33 cap.base (getBaseCorrection cap.capCor) (expandExp cap.cexp)
    addr).setWidth 32

/-- `cheriot_encode_cap`: the compressed fields of a decoded capability. -/
def encodeCap (d : DecodedCap) : Cap := d.toCap

/-- `cheriot_set_address`: move the address to `newptr`. The tag is cleared if the bounds cannot be
rebuilt from there. -/
def setAddress (inCap : DecodedCap) (newptr : Word) : DecodedCap :=
  let exp5 := expandExp inCap.cexp
  -- all zero for the largest exponent, whose window is the whole address space
  let reprMask : BitVec 24 := BitVec.allOnes 24 <<< exp5.toNat
  let ptrMinusBase : BitVec 33 := newptr.setWidth 33 - inCap.base32.setWidth 33
  let highDelta := ptrMinusBase.extractLsb' 9 24 &&& reprMask
  { inCap with
    valid := inCap.valid && highDelta == 0
    capCor := computeCorrections inCap.top inCap.base (addrMid newptr exp5) }

/-- `cheriot_pcc_to_mepc`: the PCC at the exception PC, as saved on a trap. -/
def pccToMepc (pcc : DecodedCap) (address : Word) (clrtag : Bool) : Cap :=
  let cap := encodeCap (setAddress pcc address)
  { cap with valid := cap.valid && !clrtag }

/-! ### Sealing -/

/-- `cheriot_seal`. -/
def sealCap (inCap : DecodedCap) (newOtype : BitVec 3) : DecodedCap :=
  { inCap with otype := newOtype }

/-- `cheriot_unseal`. -/
def unsealCap (inCap : DecodedCap) : DecodedCap := { inCap with otype := otypeUnsealed }

/-- `cheriot_is_sealed`. -/
def isSealed (inCap : DecodedCap) : Bool := inCap.otype != otypeUnsealed

/-- `cheriot_decode_otype`: the 4-bit object type, with bit 3 set for a sealed capability that
lacks EX. -/
def decodeOtype (otype3 : BitVec 3) (permEx : Bool) : BitVec 4 :=
  BitVec.cons (!permEx && otype3 != 0) otype3

/-! ### Memory format -/

/-- `cheriot_cap_to_mem`: the metadata word with its tag in bit 32. -/
def capToMem (cap : Cap) : BitVec 33 :=
  BitVec.ofBool cap.valid ++ BitVec.ofBool cap.rsvd ++ cap.cperms ++ cap.otype ++ cap.cexp ++
    cap.top ++ cap.base

/-- `cheriot_mem_to_cap`: a metadata word and an address word, both with their tags in bit 32, as a
register capability, under the clearing rules of the load. -/
def memToCap (capMw addr33 : BitVec 33) (clrperm : CapClrperm) : Cap :=
  let validIn := capMw.getLsbD 32 && addr33.getLsbD 32
  let valid := validIn && !clrperm.ctag
  let base := capMw.extractLsb' 0 9
  let top := capMw.extractLsb' 9 9
  let cexp := capMw.extractLsb' 18 4
  let otype := capMw.extractLsb' 22 3
  let sealed := otype != otypeUnsealed
  { capCor := computeCorrections top base (addrMid (addr33.setWidth 32) (expandExp cexp))
    valid := valid
    rsvd := capMw.getLsbD 31
    cperms := maskLoadedCperms (capMw.extractLsb' 25 6) clrperm valid sealed
    otype := otype
    cexp := cexp
    top := top
    base := base }

/-- The fields of a metadata word below its tag, whatever stands above. -/
theorem extractLsb'_packed {w : ℕ} (x : BitVec w) (rsvd : Bool) (cperms : BitVec 6)
    (otype : BitVec 3) (cexp : BitVec 4) (top base : BitVec 9) :
    let v := x ++ BitVec.ofBool rsvd ++ cperms ++ otype ++ cexp ++ top ++ base
    (∀ k, v.getLsbD (32 + k) = x.getLsbD k) ∧ v.getLsbD 31 = rsvd ∧ v.extractLsb' 25 6 = cperms ∧
      v.extractLsb' 22 3 = otype ∧ v.extractLsb' 18 4 = cexp ∧ v.extractLsb' 9 9 = top ∧
      v.extractLsb' 0 9 = base := by
  intro v
  refine ⟨fun k => ?_, ?_, ?_, ?_, ?_, ?_, BitVec.extractLsb'_append_eq_right⟩
  · simp only [v, BitVec.getLsbD_append]
    rw [if_neg (by omega), if_neg (by omega), if_neg (by omega), if_neg (by omega),
      if_neg (by omega), if_neg (by omega), show 32 + k - 9 - 9 - 4 - 3 - 6 - 1 = k by omega]
  · simp only [v, BitVec.getLsbD_append, BitVec.getLsbD_ofBool]
    rfl
  · iterate 4 rw [BitVec.extractLsb'_append_eq_of_le (by decide)]
    exact BitVec.extractLsb'_append_eq_right
  · iterate 3 rw [BitVec.extractLsb'_append_eq_of_le (by decide)]
    exact BitVec.extractLsb'_append_eq_right
  · iterate 2 rw [BitVec.extractLsb'_append_eq_of_le (by decide)]
    exact BitVec.extractLsb'_append_eq_right
  · rw [BitVec.extractLsb'_append_eq_of_le (by decide)]
    exact BitVec.extractLsb'_append_eq_right

theorem getLsbD_capToMem (cap : Cap) : (capToMem cap).getLsbD 32 = cap.valid := by
  refine ((extractLsb'_packed (BitVec.ofBool cap.valid) cap.rsvd cap.cperms cap.otype cap.cexp
    cap.top cap.base).1 0).trans ?_
  simp

/-- A load that clears nothing keeps the permissions. -/
theorem maskLoadedCperms_default (c : BitVec 6) (valid sealed : Bool) :
    maskLoadedCperms c default valid sealed = c := by
  revert c valid sealed
  decide

/-- **What comes back from memory.** The correction bits are computed anew, the tag is that of both
words, and all the rest is what was stored. -/
theorem memToCap_capToMem (cap : Cap) (lo : BitVec 33) : memToCap (capToMem cap) lo default =
    { cap with
      capCor := computeCorrections cap.top cap.base (addrMid (lo.setWidth 32) (expandExp cap.cexp))
      valid := cap.valid && lo.getLsbD 32 } := by
  obtain ⟨-, h31, h25, h22, h18, h9, h0⟩ := extractLsb'_packed (BitVec.ofBool cap.valid) cap.rsvd
    cap.cperms cap.otype cap.cexp cap.top cap.base
  have hrsvd : (capToMem cap).getLsbD 31 = cap.rsvd := h31
  have hcperms : (capToMem cap).extractLsb' 25 6 = cap.cperms := h25
  have hotype : (capToMem cap).extractLsb' 22 3 = cap.otype := h22
  have hcexp : (capToMem cap).extractLsb' 18 4 = cap.cexp := h18
  have htop : (capToMem cap).extractLsb' 9 9 = cap.top := h9
  have hbase : (capToMem cap).extractLsb' 0 9 = cap.base := h0
  simp only [memToCap, maskLoadedCperms_default, getLsbD_capToMem, hrsvd, hcperms, hotype, hcexp,
    htop, hbase]
  rw [show (default : CapClrperm).ctag = false from rfl, Bool.not_false, Bool.and_true]

/-- `cheriot_caps_equal`. -/
def capsEqual (capA capB : DecodedCap) (addrA addrB : Word) : Bool :=
  capA.valid == capB.valid && capA.top == capB.top && capA.base == capB.base &&
    capA.cperms == capB.cperms && capA.rsvd == capB.rsvd && capA.cexp == capB.cexp &&
    capA.otype == capB.otype && addrA == addrB

end Cheriot

end Croc
