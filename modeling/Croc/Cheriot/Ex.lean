import Croc.Cheriot.SetBounds

/-!
# The capability execution unit

`ibex_cheriot_ex` executes the capability instructions of the core. It is combinational: from the
two source registers, the PCC and the fields of the instruction it computes the capability to write
back, the new PCC of a jump, the write to a special capability register, and the checks that a
capability load or store has to pass.

## Main definitions

* `CheriotOp`: the operators, with the selectors that the decoder derives from them.
* `RegVal`: a register, an address word with its capability metadata.
* `ExIn`: the inputs of the unit.
* `ExIn.addrBoundVio`, `ExIn.permVioVec`: the checks.
* `ExIn.result`, `ExIn.rfWe`, `ExIn.pccCap`, `ExIn.csrWrite`: the results of the operators.
* `ExIn.cheriotLsuErr`, `ExIn.lcClrperm`, `ExIn.cscWcap`: what goes to the load/store unit.
-/

namespace Croc

namespace Cheriot

open Bits (Word)

/-! ### Operators -/

/-- `cheriot_cap_field_e`: the field that `CGET_FIELD` reads. -/
inductive CapField
  | perm
  | type
  | base
  | len
  | tag
  | addr
  | high
  | top
  deriving DecidableEq, Repr, Inhabited

/-- `cheriot_op_t`: the one operator that the decoder selects. -/
inductive CheriotOp
  | cgetField (field : CapField)
  | cseal
  | cunseal
  | candPerm
  | csetHigh
  | csetAddr
  | cincAddr
  | cincAddrImm
  | cauipcc
  | cauicgp
  | csetBounds
  | csetBoundsImm
  | csetBoundsEx
  | csetBoundsRndn
  | crrl
  | cram
  | cclearTag
  | cisSubset
  | cisEqual
  | csubCap
  | cmoveCap
  | cloadCap
  | cstoreCap
  | ccsrRw
  | cjalr
  | cjal
  deriving DecidableEq, Repr, Inhabited

/-- `cheriot_adder_a_sel_e`. -/
inductive AdderASel
  | zero
  | imm12
  | imm21
  | imm20
  | rs2
  deriving DecidableEq, Repr

/-- `cheriot_adder_b_sel_e`. -/
inductive AdderBSel
  | zero
  | rs1
  | pc
  deriving DecidableEq, Repr

/-- `cheriot_setaddr_sel_e`. -/
inductive SetaddrSel
  | none
  | pccPcnxt
  | pccArith
  | rfaArith
  | scr
  deriving DecidableEq, Repr

/-- `cheriot_setbounds_sel_e`. -/
inductive SetboundsSel
  | none
  | rs2
  | rndn
  | rs2Ex
  | imm
  | crrl
  | cram
  deriving DecidableEq, Repr

namespace CheriotOp

/-- `cheriot_adder_a_sel_o` of the decoder. -/
def adderASel : CheriotOp → AdderASel
  | cjal => .imm21
  | cjalr => .imm12
  | cauipcc => .imm20
  | cauicgp => .imm20
  | csetAddr => .rs2
  | cincAddr => .rs2
  | cincAddrImm => .imm12
  | _ => .zero

/-- `cheriot_adder_b_sel_o` of the decoder. -/
def adderBSel : CheriotOp → AdderBSel
  | cjal => .pc
  | cjalr => .rs1
  | cauipcc => .pc
  | cauicgp => .rs1
  | cincAddr => .rs1
  | cincAddrImm => .rs1
  | _ => .zero

/-- `cheriot_setaddr_sel_o` of the decoder. -/
def setaddrSel : CheriotOp → SetaddrSel
  | cjal => .pccPcnxt
  | cjalr => .pccPcnxt
  | cauipcc => .pccArith
  | cauicgp => .rfaArith
  | csetAddr => .rfaArith
  | cincAddr => .rfaArith
  | cincAddrImm => .rfaArith
  | ccsrRw => .scr
  | _ => .none

/-- `cheriot_setbounds_sel_o` of the decoder. -/
def setboundsSel : CheriotOp → SetboundsSel
  | csetBounds => .rs2
  | csetBoundsEx => .rs2Ex
  | csetBoundsRndn => .rndn
  | csetBoundsImm => .imm
  | crrl => .crrl
  | cram => .cram
  | _ => .none

/-- `is_cap`: a capability load or store. -/
def isCap : CheriotOp → Bool
  | cloadCap => true
  | cstoreCap => true
  | _ => false

end CheriotOp

/-! ### Special capability registers -/

/-- `CHERIOT_SCR_MEPCC`. -/
def scrMepcc : BitVec 5 := 0x1f
/-- `CHERIOT_SCR_MSCRATCHC`. -/
def scrMscratchc : BitVec 5 := 0x1e
/-- `CHERIOT_SCR_MTDC`. -/
def scrMtdc : BitVec 5 := 0x1d
/-- `CHERIOT_SCR_MTCC`. -/
def scrMtcc : BitVec 5 := 0x1c

/-! ### Inputs -/

/-- A register: its data word and the capability metadata beside it. -/
structure RegVal where
  /-- The data word, the address of the capability. -/
  data : Word
  /-- The metadata. -/
  cap : Cap
  deriving DecidableEq, Repr, Inhabited

/-- The decoded capability of a register. -/
def RegVal.full (r : RegVal) : DecodedCap := decodeCap r.cap r.data

/-- A register without a capability. -/
def RegVal.ofData (data : Word) : RegVal := ⟨data, nullCap⟩

/-- The inputs of the unit while an instruction executes. -/
structure ExIn where
  /-- The operator. -/
  op : CheriotOp
  /-- `rf_rdata_a`, `rf_rcap_a`: the first source register. -/
  cs1 : RegVal
  /-- `rf_rdata_b`, `rf_rcap_b`: the second source register. -/
  cs2 : RegVal
  /-- `rf_raddr_a_i`: the number of the first source register. -/
  raddrA : BitVec 5
  /-- `rf_waddr_i`: the number of the destination register. -/
  waddr : BitVec 5
  /-- `cheriot_imm12_i`. -/
  imm12 : BitVec 12
  /-- `cheriot_imm20_i`. -/
  imm20 : BitVec 20
  /-- `cheriot_imm21_i`. -/
  imm21 : BitVec 21
  /-- `cheriot_cs2_dec_i`: the number of a special capability register. -/
  cs2Dec : BitVec 5
  /-- `pcc_cap_i`. -/
  pcc : DecodedCap
  /-- `pc_id_i`. -/
  pcId : Word
  /-- `instr_is_compressed_i`. -/
  isCompressed : Bool
  /-- `csr_rdata_i`, `csr_rcap_i`: the special capability register that is read. -/
  csr : RegVal
  /-- `csr_mstatus_mie_i`. -/
  mstatusMie : Bool
  /-- `csr_dbg_tclr_fault_i`: a cleared tag is a fault. -/
  dbgTclrFault : Bool
  /-- `debug_mode_i`. -/
  debugMode : Bool
  /-- `cheriot_enable_i`. -/
  enable : Bool
  deriving DecidableEq, Repr, Inhabited

namespace ExIn

variable (i : ExIn)

/-- `rf_fullcap_a`. -/
def fullcapA : DecodedCap := i.cs1.full

/-- `rf_fullcap_b`. -/
def fullcapB : DecodedCap := i.cs2.full

/-! ### Addresses -/

/-- `pc_id_nxt`. -/
def pcIdNxt : Word := i.pcId + if i.isCompressed then 2 else 4

/-- `cs1_addr_plusimm`: the address of a capability load or store. -/
def cs1AddrPlusimm : Word :=
  i.cs1.data + if i.op.isCap || i.op == .cjalr then i.imm12.signExtend 32 else 0

/-- `addr_result`, the shared adder. -/
def addrResult : Word :=
  let tmp32a : Word :=
    match i.op.adderASel with
    | .imm12 => i.imm12.signExtend 32
    | .imm21 => i.imm21.signExtend 32
    | .imm20 => (BitVec.cons (i.imm20.getLsbD 19) i.imm20) ++ (0 : BitVec 11)
    | .rs2 => i.cs2.data
    | .zero => 0
  let tmp32b : Word :=
    match i.op.adderBSel with
    | .rs1 => i.cs1.data
    | .pc => i.pcId
    | .zero => 0
  tmp32a + tmp32b

/-- `scr_legalization`: writes to MTCC and MEPCC are legalised. -/
def scrLegalization : Bool := i.cs2Dec == scrMtcc || i.cs2Dec == scrMepcc

/-- `csr_wdata_o`: the address that goes into a special capability register. -/
def csrWdata : Word :=
  if i.cs2Dec = scrMtcc then i.cs1.data.extractLsb' 2 30 ++ (0 : BitVec 2)
  else if i.cs2Dec = scrMepcc then i.cs1.data.extractLsb' 1 31 ++ (0 : BitVec 1)
  else i.cs1.data

/-- `setaddr1_outcap`. -/
def setaddr1Outcap : DecodedCap :=
  match i.op.setaddrSel with
  | .pccPcnxt => setAddress i.pcc i.pcIdNxt
  | .pccArith => setAddress i.pcc i.addrResult
  | .rfaArith => setAddress i.fullcapA i.addrResult
  | .scr =>
    if i.scrLegalization then setAddress i.fullcapA i.csrWdata else setAddress nullDecodedCap 0
  | .none => setAddress nullDecodedCap 0

/-- The operands of the bounds unit: capability, address, length and exactness. -/
def setboundsOperands : DecodedCap × Word × Word × Bool :=
  match i.op.setboundsSel with
  | .crrl => (nullDecodedCap, 0, i.cs1.data, false)
  | .cram => (nullDecodedCap, 0, i.cs1.data, false)
  | .imm => (i.fullcapA, i.cs1.data, i.imm12.setWidth 32, false)
  | .none => (nullDecodedCap, 0, 0, false)
  | sel => (i.fullcapA, i.cs1.data, i.cs2.data, sel == .rs2Ex)

/-- `setbounds_result`. -/
def setboundsResult : BoundResult :=
  let (tfcap3, tmpAddr, newlen, reqExact) := i.setboundsOperands
  setBoundsEx tfcap3 tmpAddr (prepBounds tfcap3 tmpAddr newlen) reqExact

/-- `setbounds_rndn_outcap`. -/
def setboundsRndnOutcap : DecodedCap :=
  let (tfcap3, tmpAddr, newlen, _) := i.setboundsOperands
  setBoundsRounddown tfcap3 tmpAddr (prepBounds tfcap3 tmpAddr newlen)

/-! ### Checks -/

/-- `addr_bound_vio`: the address check of capability accesses, sealing and the subset test. -/
def addrBoundVio : Bool :=
  let chkBaseChkaddr : Word :=
    match i.op with
    | .cseal => i.cs2.data
    | .cunseal => (decodeOtype i.fullcapA.otype i.fullcapA.perms.ex).setWidth 32
    | .cisSubset => i.fullcapB.base32
    | _ => i.cs1AddrPlusimm
  let chkTopChkaddr : BitVec 33 :=
    if i.op = .cisSubset then i.fullcapB.top33
    else if i.op.isCap then ((chkBaseChkaddr.extractLsb' 3 29) ++ (0 : BitVec 3)).setWidth 33
    else chkBaseChkaddr.setWidth 33
  let sealing := i.op == .cseal || i.op == .cunseal
  let chkTopBound : BitVec 33 :=
    if sealing then i.fullcapB.top33
    else if i.op.isCap then i.fullcapA.top33.extractLsb' 3 30 ++ (0 : BitVec 3)
    else i.fullcapA.top33
  let chkBaseBound : Word := if sealing then i.fullcapB.base32 else i.fullcapA.base32
  let chkTopVio := decide (chkTopBound < chkTopChkaddr)
  let chkBaseVio := decide (chkBaseChkaddr < chkBaseBound)
  let chkTopEqual := chkTopChkaddr == chkTopBound
  if i.debugMode then false
  else if i.op.isCap then chkTopVio || chkBaseVio || chkTopEqual
  else if i.op = .cisSubset then chkTopVio || chkBaseVio
  else if sealing then chkTopVio || chkBaseVio || chkTopEqual
  else false

/-- `perm_vio_vec`, one flag for each kind of violation. -/
structure PermVio where
  /-- The authority is not tagged. -/
  tag : Bool := false
  /-- The authority is sealed, or a sealing rule is broken. -/
  sealed : Bool := false
  /-- The authority lacks EX. -/
  ex : Bool := false
  /-- The authority lacks LD. -/
  ld : Bool := false
  /-- The authority lacks SD. -/
  sd : Bool := false
  /-- A capability is stored through an authority without MC. -/
  sc : Bool := false
  /-- The PCC lacks SR. -/
  asr : Bool := false
  /-- The address of a capability access is not a multiple of eight. -/
  align : Bool := false
  deriving DecidableEq, Repr, Inhabited

/-- `perm_vio`: some flag is set. -/
def PermVio.any (v : PermVio) : Bool :=
  v.tag || v.sealed || v.ex || v.ld || v.sd || v.sc || v.asr || v.align

/-- `chk_cs1_otype_0`. -/
def chkCs1Otype0 : Bool := i.fullcapA.otype == otypeUnsealed

/-- `chk_cs1_otype_1`: a forward sentry. -/
def chkCs1Otype1 : Bool := i.fullcapA.perms.ex && i.fullcapA.otype == otypeSentryIiFwd

/-- `chk_cs1_otype_23`: a forward sentry that changes the interrupt posture. -/
def chkCs1Otype23 : Bool :=
  i.fullcapA.perms.ex &&
    (i.fullcapA.otype == otypeSentryIdFwd || i.fullcapA.otype == otypeSentryIeFwd)

/-- `chk_cs1_otype_45`: a backward sentry. -/
def chkCs1Otype45 : Bool :=
  i.fullcapA.perms.ex &&
    (i.fullcapA.otype == otypeSentryIdBkwd || i.fullcapA.otype == otypeSentryIeBkwd)

/-- `chk_cs2_bad_type`: the address of the sealing authority is not a type that `CSEAL` may give. -/
def chkCs2BadType : Bool :=
  if i.fullcapA.perms.ex then i.cs2.data.extractLsb' 3 29 != 0 || i.cs2.data.extractLsb' 0 3 == 0
  else i.cs2.data.extractLsb' 4 28 != 0 || decide (i.cs2.data.extractLsb' 0 4 ≤ 8)

/-- `perm_vio_vec`. -/
def permVioVec : PermVio :=
  match i.op with
  | .cloadCap =>
    { tag := !i.fullcapA.valid
      sealed := isSealed i.fullcapA
      ld := !i.fullcapA.perms.ld
      align := i.cs1AddrPlusimm.extractLsb' 0 3 != 0 }
  | .cstoreCap =>
    { tag := !i.fullcapA.valid
      sealed := isSealed i.fullcapA
      sd := !i.fullcapA.perms.sd
      sc := !i.fullcapA.perms.mc && i.fullcapB.valid
      align := i.cs1AddrPlusimm.extractLsb' 0 3 != 0 }
  | .cseal =>
    { tag := !i.fullcapB.valid
      sealed :=
        isSealed i.fullcapA || isSealed i.fullcapB || !i.fullcapB.perms.se || i.chkCs2BadType }
  | .cunseal =>
    { tag := !i.fullcapB.valid
      sealed := !isSealed i.fullcapA || isSealed i.fullcapB || !i.fullcapB.perms.us }
  | .cjalr =>
    { tag := !i.fullcapA.valid
      sealed := (isSealed i.fullcapA && i.imm12 != 0) ||
        !((i.waddr == 0 && i.raddrA == 1 && i.chkCs1Otype45) ||
          (i.waddr == 0 && i.raddrA != 1 && (i.chkCs1Otype0 || i.chkCs1Otype1)) ||
          (i.waddr == 1 && (i.chkCs1Otype0 || i.chkCs1Otype23)) ||
          (i.waddr != 0 && (i.chkCs1Otype0 || i.chkCs1Otype1)))
      ex := !i.fullcapA.perms.ex }
  | .ccsrRw => { asr := !i.pcc.perms.sr }
  | _ => {}

/-- `perm_vio`. -/
def permVio : Bool := i.permVioVec.any

/-- `perm_vio_slc`: a local capability is stored through an authority without SL. -/
def permVioSlc : Bool :=
  i.op == .cstoreCap && !i.fullcapA.perms.sl && i.fullcapB.valid && !i.fullcapB.perms.gl

/-- `illegal_scr_addr`: outside debug mode only the four machine registers exist. -/
def illegalScrAddr : Bool :=
  i.op == .ccsrRw &&
    (decide (i.cs2Dec < 24) || i.cs2Dec == 27 || (!i.debugMode && decide (i.cs2Dec < 28)))

/-! ### Results -/

/-- The capability of `CSEAL`, before the checks. -/
def sealedCap : Cap := encodeCap (sealCap i.fullcapA (i.cs2.data.extractLsb' 0 3))

/-- The capability of `CUNSEAL`, before the checks: global only if the authority is. -/
def unsealedCap : Cap :=
  let tfcap := unsealCap i.fullcapA
  let perms := { tfcap.perms with gl := i.fullcapA.perms.gl && i.fullcapB.perms.gl }
  encodeCap { tfcap with perms := perms, cperms := compressPerms perms }

/-- The capability of `CAND_PERM`. A sealed capability keeps its tag only if nothing but GL is
masked. -/
def andPermCap : Cap :=
  let mask := i.cs2.data.extractLsb' 0 12
  let perms := Perms.ofBits (i.fullcapA.perms.toBits &&& mask)
  let pmask := { Perms.ofBits mask with gl := true }
  encodeCap { i.fullcapA with
    perms := perms
    cperms := compressPerms perms
    valid := i.fullcapA.valid && (!isSealed i.fullcapA || pmask.toBits == BitVec.allOnes 12) }

/-- The capability of the operators that move the address. -/
def movedCap : Cap :=
  let clrSealed := if i.op.setaddrSel = .pccArith then false else isSealed i.fullcapA
  encodeCap { i.setaddr1Outcap with valid := i.setaddr1Outcap.valid && !clrSealed }

/-- The capability of the operators that set bounds. -/
def boundedCap : Cap :=
  let tfcap := if i.op.setboundsSel = .rndn then i.setboundsRndnOutcap else i.setboundsResult.cap
  encodeCap { tfcap with valid := tfcap.valid && !isSealed i.fullcapA }

/-- The link capability of a jump, sealed as a backward sentry if it goes to the return register. -/
def linkCap : Cap :=
  let sealType := if i.mstatusMie then otypeSentryIeBkwd else otypeSentryIdBkwd
  encodeCap (if i.waddr = 1 then sealCap i.setaddr1Outcap sealType else i.setaddr1Outcap)

/-- The value that `CGET_FIELD` reads. -/
def fieldData : CapField → Word
  | .perm => i.fullcapA.perms.toBits.setWidth 32
  | .type => (decodeOtype i.fullcapA.otype i.fullcapA.perms.ex).setWidth 32
  | .base => i.fullcapA.base32
  | .top => if i.fullcapA.top33.getLsbD 32 then 0xffffffff else i.fullcapA.top33.setWidth 32
  | .len => capLength i.fullcapA
  | .tag => (BitVec.ofBool i.fullcapA.valid).setWidth 32
  | .addr => i.cs1.data
  | .high => (capToMem i.cs1.cap).setWidth 32

/-- `result_data_o`, `result_cap_o`: the value for the destination register. -/
def result : RegVal :=
  match i.op with
  | .cgetField field => .ofData (i.fieldData field)
  | .cseal =>
    ⟨i.cs1.data, { i.sealedCap with valid := i.sealedCap.valid && !i.addrBoundVio && !i.permVio }⟩
  | .cunseal =>
    ⟨i.cs1.data, { i.unsealedCap with
      valid := i.unsealedCap.valid && !i.addrBoundVio && !i.permVio }⟩
  | .candPerm => ⟨i.cs1.data, i.andPermCap⟩
  | .csetHigh =>
    ⟨i.cs1.data, memToCap (BitVec.cons false i.cs2.data) (BitVec.cons false i.cs1.data) default⟩
  | .csetAddr | .cincAddr | .cincAddrImm | .cauipcc | .cauicgp => ⟨i.addrResult, i.movedCap⟩
  | .csetBounds | .csetBoundsImm | .csetBoundsEx | .csetBoundsRndn => ⟨i.cs1.data, i.boundedCap⟩
  | .crrl => .ofData i.setboundsResult.rlen
  | .cram => .ofData i.setboundsResult.maska
  | .cclearTag => ⟨i.cs1.data, { i.cs1.cap with valid := false }⟩
  | .cisSubset =>
    .ofData ((BitVec.ofBool (i.fullcapA.valid == i.fullcapB.valid && !i.addrBoundVio &&
      permsCovers i.fullcapA.perms i.fullcapB.perms)).setWidth 32)
  | .cisEqual =>
    .ofData ((BitVec.ofBool (capsEqual i.fullcapA i.fullcapB i.cs1.data i.cs2.data)).setWidth 32)
  | .csubCap => .ofData (i.cs1.data - i.cs2.data)
  | .cmoveCap => i.cs1
  | .ccsrRw => i.csr
  | .cjalr | .cjal => ⟨i.pcIdNxt, i.linkCap⟩
  | .cloadCap | .cstoreCap => .ofData 0

/-- `instr_fault`: the instruction traps instead of writing. -/
def instrFault : Bool :=
  match i.op with
  | .csetAddr | .cincAddr | .cincAddrImm | .cauipcc | .cauicgp =>
    i.dbgTclrFault && (i.fullcapA.valid || i.op.setaddrSel == .pccArith) && !i.movedCap.valid
  | .csetBounds | .csetBoundsImm | .csetBoundsEx | .csetBoundsRndn =>
    i.dbgTclrFault && i.fullcapA.valid && !i.boundedCap.valid
  | .ccsrRw => i.permVio || i.illegalScrAddr
  | .cjalr | .cjal => i.permVio
  | _ => false

/-- `cheriot_rf_we_o`. -/
def rfWe : Bool := !i.op.isCap && !i.instrFault

/-- `csr_op_en_o`: a special capability register is written. -/
def csrOpEn : Bool := i.op == .ccsrRw && !i.instrFault && i.raddrA != 0

/-- `csr_wdata_o`, `csr_wcap_o`: the value for a special capability register. The tag survives
legalisation only if the address was aligned and the capability is executable and not sealed. -/
def csrWrite : RegVal :=
  let legal (misaligned : Bool) : Cap :=
    { encodeCap i.setaddr1Outcap with
      valid := if misaligned || !i.fullcapA.perms.ex || i.fullcapA.otype != 0 then false
        else i.fullcapA.valid }
  if i.cs2Dec = scrMtcc then ⟨i.csrWdata, legal (i.cs1.data.extractLsb' 0 2 != 0)⟩
  else if i.cs2Dec = scrMepcc then ⟨i.csrWdata, legal (i.cs1.data.extractLsb' 0 1 != 0)⟩
  else i.cs1

/-- `branch_req_o`: the PCC is replaced. -/
def branchReq : Bool := i.op == .cjalr && !i.instrFault

/-- `pcc_cap_o`. -/
def pccCap : DecodedCap := unsealCap i.fullcapA

/-- `branch_target_o`. -/
def branchTarget : Word := i.addrResult.extractLsb' 1 31 ++ (0 : BitVec 1)

/-- `csr_set_mie_o`: a jump through an interrupt-enabling sentry. -/
def csrSetMie : Bool :=
  i.branchReq && (i.fullcapA.otype == otypeSentryIeFwd || i.fullcapA.otype == otypeSentryIeBkwd)

/-- `csr_clr_mie_o`: a jump through an interrupt-disabling sentry. -/
def csrClrMie : Bool :=
  i.branchReq && (i.fullcapA.otype == otypeSentryIdFwd || i.fullcapA.otype == otypeSentryIdBkwd)

/-- `cheriot_wb_err_o`: the trap of a faulting instruction, masked in debug mode. -/
def cheriotWbErr : Bool := i.instrFault && !i.debugMode

/-! ### Capability loads and stores -/

/-- `cheriot_lsu_err`. -/
def cheriotLsuErr : Bool :=
  i.enable && !i.debugMode && (i.addrBoundVio || i.permVio || (i.dbgTclrFault && i.permVioSlc))

/-- `cheriot_lsu_lc_clrperm`: what the load strips from the capability. -/
def lcClrperm : CapClrperm :=
  if i.debugMode || i.op != .cloadCap then default
  else ⟨!i.fullcapA.perms.mc, !i.fullcapA.perms.lm, !i.fullcapA.perms.lg⟩

/-- `csc_wcap`: the capability that is stored. A local capability loses its tag if the authority
lacks SL. -/
def cscWcap : Cap := { i.cs2.cap with valid := i.cs2.cap.valid && !i.permVioSlc }

/-- `cheriot_lsu_addr`: the address of the first or second word. -/
def cheriotLsuAddr (addrIncrReq : Bool) : Word := i.cs1AddrPlusimm + if addrIncrReq then 4 else 0

end ExIn

/-! ### Data accesses -/

/-- `rv32_lsu_err`: the check of a data access of the base instruction set through `authority`. Only
the first half of a split access is checked against the bounds. -/
def rv32LsuErr (enable debugMode : Bool) (authority : DecodedCap) (lsuType : BitVec 2) (we : Bool)
    (addr : Word) (addrIncrReq : Bool) : Bool :=
  let (topOffset, topSizeOk) : BitVec 33 × Bool :=
    if lsuType = 0b00 then (4, authority.top33.extractLsb' 2 31 != 0)
    else if lsuType = 0b01 then (2, authority.top33.extractLsb' 1 32 != 0)
    else (1, authority.top33 != 0)
  let topBound := authority.top33 - topOffset
  let topVio := decide (topBound < addr.setWidth 33) || !topSizeOk
  let baseVio := decide (addr < authority.base32)
  let addrBoundVio := (topVio || baseVio) && !addrIncrReq
  let permVio := !authority.valid || isSealed authority || (!we && !authority.perms.ld) ||
    (we && !authority.perms.sd)
  enable && !debugMode && (addrBoundVio || permVio)

end Cheriot

end Croc
