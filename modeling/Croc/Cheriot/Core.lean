import Croc.Cheriot.Derivation
import Croc.Lib.Clocked

/-!
# Where the core keeps capabilities

The architectural state of the core that can hold a capability: the register file, the special
capability registers and the PCC, with the mode bit `CHERIOT_ENABLE` that decides how they are read.

In RV32I mode the sixteen entries that hold the metadata of `x0 … x15` in CHERIoT mode hold the
integers `x16 … x31` instead. The switch does not touch them, so what an RV32I program left there is
read as metadata from then on.

One step is one instruction, trap or return, or one write to memory by somebody else. Debug mode is
left out.

## Main definitions

* `regcapToVec`, `vecToRegcap`: the metadata of a register as the vector that is stored.
* `RegFile.read`, `RegFile.write`: the register file.
* `Core`, `Event`, `Core.step`: the state and its steps.
* `Core.ReturnsLastStored`: memory returns a tagged capability only as it was last stored.

## Main results

* `vecToRegcap_regcapToVec`: storing metadata loses nothing.
* `bounds_memToCap_capToMem`: neither does storing a capability in memory, as far as its bounds go.
* `RegFile.read_write`: what a register reads after a write.
-/

namespace Croc

namespace Cheriot

open Clocked

open Bits (Word)

/-! ### The register file -/

/-- `cheriot_regcap_to_vec`. -/
def regcapToVec (cap : Cap) : BitVec 35 :=
  cap.capCor ++ BitVec.ofBool cap.valid ++ BitVec.ofBool cap.rsvd ++ cap.cperms ++ cap.otype ++
    cap.cexp ++ cap.top ++ cap.base

/-- `cheriot_vec_to_regcap`. -/
def vecToRegcap (v : BitVec 35) : Cap where
  capCor := v.extractLsb' 33 2
  valid := v.getLsbD 32
  rsvd := v.getLsbD 31
  cperms := v.extractLsb' 25 6
  otype := v.extractLsb' 22 3
  cexp := v.extractLsb' 18 4
  top := v.extractLsb' 9 9
  base := v.extractLsb' 0 9

/-- The flops of `ibex_register_file_ff`. Entry 0 of `data` does not exist; it reads as zero. -/
structure RegFile where
  /-- `rf_data`: the data of `x0 … x15`. -/
  data : BitVec 4 → Word
  /-- `rf_shared`: the metadata of `x0 … x15`, or the data of `x16 … x31`. -/
  shared : BitVec 4 → BitVec 35

namespace RegFile

/-- A read port. The metadata reads as zero in RV32I mode and for `x0`. -/
def read (rf : RegFile) (enabled : Bool) (raddr : BitVec 5) : RegVal :=
  let ix := raddr.setWidth 4
  { data :=
      if raddr.getLsbD 4 && !enabled then (rf.shared ix).setWidth 32
      else if ix = 0 then 0 else rf.data ix
    cap := vecToRegcap (if enabled && ix != 0 then rf.shared ix else 0) }

/-- The write port. In CHERIoT mode data and metadata are written together; in RV32I mode the upper
half of the registers goes to the shared entries. -/
def write (rf : RegFile) (enabled : Bool) (waddr : BitVec 5) (v : RegVal) : RegFile :=
  let ix := waddr.setWidth 4
  let hi := waddr.getLsbD 4
  { data := fun k => if k = ix ∧ k ≠ 0 ∧ hi = false then v.data else rf.data k
    shared := fun k =>
      if k = ix ∧ (enabled = true ∧ hi = false ∧ k ≠ 0 ∨ enabled = false ∧ hi = true) then
        if enabled then regcapToVec v.cap else v.data.setWidth 35
      else rf.shared k }

end RegFile

/-! ### State and events -/

/-- The state of the core that can hold a capability, and the capabilities in memory. -/
structure Core where
  /-- `cheriot_enable_q` of the SoC control registers. -/
  enable : Bool
  /-- The register file. -/
  rf : RegFile
  /-- `pcc_cap_q`. -/
  pcc : DecodedCap
  /-- `mtvec_q`, `mtvec_cap`. -/
  mtcc : RegVal
  /-- `mtdc_data`, `mtdc_cap`. -/
  mtdc : RegVal
  /-- `mscratchc_data`, `mscratchc_cap`. -/
  mscratchc : RegVal
  /-- `mepc_q`, `mepc_cap`. -/
  mepcc : RegVal
  /-- `mstack_epc_q`, `mstack_epc_cap_q`: what MEPCC was before the last trap. -/
  mstackEpc : RegVal
  /-- The tagged granules of memory: the address word and the metadata word last stored. -/
  mem : BitVec 29 → Option (Word × Word)

/-- A capability instruction in the decode stage, with its register numbers cut to four bits. -/
structure CapInstr where
  /-- The operator. -/
  op : CheriotOp
  /-- `rf_raddr_a`. -/
  raddrA : BitVec 4
  /-- `rf_raddr_b`. -/
  raddrB : BitVec 4
  /-- `rf_waddr`. -/
  waddr : BitVec 4
  /-- `cheriot_imm12`. -/
  imm12 : BitVec 12
  /-- `cheriot_imm20`. -/
  imm20 : BitVec 20
  /-- `cheriot_imm21`. -/
  imm21 : BitVec 21
  /-- `cheriot_cs2_dec`. -/
  cs2Dec : BitVec 5
  /-- `pc_id`. -/
  pcId : Word
  /-- `instr_is_compressed`. -/
  isCompressed : Bool
  /-- `csr_mstatus_mie`. -/
  mstatusMie : Bool
  /-- `csr_dbg_tclr_fault`. -/
  dbgTclrFault : Bool
  deriving Inhabited

/-- The answer of memory to a capability load or store: an error, or the two words with their
tags. -/
structure BusRsp where
  /-- Either word answered with an error. -/
  err : Bool
  /-- The address word. -/
  lo : BitVec 33
  /-- The metadata word. -/
  hi : BitVec 33
  deriving Inhabited

/-- The capability of a load, under the clearing rules of the load. -/
def BusRsp.loaded (rsp : BusRsp) (clrperm : CapClrperm) : RegVal :=
  ⟨rsp.lo.setWidth 32, memToCap rsp.hi rsp.lo clrperm⟩

/-- What one step of the core does. -/
inductive Event
  /-- An instruction of the base set writes an integer. -/
  | integer (waddr : BitVec 5) (wdata : Word)
  /-- `mtvec` is written, by a CSR instruction or out of reset. -/
  | csrMtvec (wdata : Word)
  /-- `mepc` is written by a CSR instruction. -/
  | csrMepc (wdata : Word)
  /-- A capability instruction executes; `rsp` is what memory answers if it is a load or store. -/
  | cheriot (instr : CapInstr) (rsp : BusRsp)
  /-- A trap is taken at `pc`. -/
  | trap (pc : Word) (clrtag : Bool)
  /-- `mret`, from an NMI or not. -/
  | mret (nmiMode : Bool)
  /-- `CHERIOT_ENABLE` is set. It cannot be cleared. -/
  | cheriotEnable
  /-- A write that is not a capability store hits a granule. -/
  | dataWrite (granule : BitVec 29)

namespace Core

variable (s : Core)

/-- Out of reset. -/
def init : Core where
  enable := false
  rf := ⟨fun _ => 0, fun _ => 0⟩
  pcc := rootDecodedCapTx
  mtcc := ⟨1, rootCapTx⟩
  mtdc := ⟨0, rootCapTm⟩
  mscratchc := ⟨0, rootCapTs⟩
  mepcc := ⟨0, rootCapTx⟩
  mstackEpc := ⟨0, nullCap⟩
  mem := fun _ => none

/-- The register `x_k` in the current mode. -/
def readReg (k : BitVec 4) : RegVal := s.rf.read s.enable (k.setWidth 5)

/-- `cheriot_csr_rdata_o`, `cheriot_csr_rcap_o`. -/
def readScr (addr : BitVec 5) : RegVal :=
  if addr = scrMtcc then s.mtcc
  else if addr = scrMtdc then s.mtdc
  else if addr = scrMscratchc then s.mscratchc
  else if addr = scrMepcc then s.mepcc
  else .ofData 0

/-- The execution unit's inputs while `instr` executes. -/
def exIn (instr : CapInstr) : ExIn where
  op := instr.op
  cs1 := s.readReg instr.raddrA
  cs2 := s.readReg instr.raddrB
  raddrA := instr.raddrA.setWidth 5
  waddr := instr.waddr.setWidth 5
  imm12 := instr.imm12
  imm20 := instr.imm20
  imm21 := instr.imm21
  cs2Dec := instr.cs2Dec
  pcc := s.pcc
  pcId := instr.pcId
  isCompressed := instr.isCompressed
  csr := s.readScr instr.cs2Dec
  mstatusMie := instr.mstatusMie
  dbgTclrFault := instr.dbgTclrFault
  debugMode := false
  enable := s.enable

/-- The granule that a capability load or store accesses. -/
def granuleOf (instr : CapInstr) : BitVec 29 := (s.exIn instr).cs1AddrPlusimm.extractLsb' 3 29

/-- What a capability instruction writes to its destination register, if anything. -/
def regWrite (instr : CapInstr) (rsp : BusRsp) : Option RegVal :=
  let i := s.exIn instr
  if instr.op = .cloadCap then
    if i.cheriotLsuErr || rsp.err then none else some (rsp.loaded i.lcClrperm)
  else if i.rfWe then some i.result else none

/-- What a capability instruction writes to the special capability register `scr`, if anything. -/
def scrWrite (instr : CapInstr) (scr : BitVec 5) : Option RegVal :=
  let i := s.exIn instr
  if i.csrOpEn && instr.cs2Dec == scr then some i.csrWrite else none

/-- A capability instruction. -/
def execCheriot (instr : CapInstr) (rsp : BusRsp) : Core :=
  let i := s.exIn instr
  { s with
    rf := match s.regWrite instr rsp with
      | some v => s.rf.write s.enable (instr.waddr.setWidth 5) v
      | none => s.rf
    pcc := if i.branchReq then i.pccCap else s.pcc
    -- MTCC is cut to direct mode once more
    mtcc := match s.scrWrite instr scrMtcc with
      | some v => ⟨v.data.extractLsb' 2 30 ++ (0 : BitVec 2), v.cap⟩
      | none => s.mtcc
    mtdc := (s.scrWrite instr scrMtdc).getD s.mtdc
    mscratchc := (s.scrWrite instr scrMscratchc).getD s.mscratchc
    mepcc := (s.scrWrite instr scrMepcc).getD s.mepcc
    mem := fun g =>
      if instr.op = .cstoreCap ∧ i.cheriotLsuErr = false ∧ rsp.err = false ∧
        g = s.granuleOf instr then
        if i.cscWcap.valid then some (i.cs2.data, (capToMem i.cscWcap).setWidth 32) else none
      else s.mem g }

/-- One step. -/
def step : Event → Core
  | .integer waddr wdata => { s with rf := s.rf.write s.enable waddr (.ofData wdata) }
  | .csrMtvec wdata =>
    if s.enable then s
    else { s with mtcc := ⟨wdata.extractLsb' 8 24 ++ (1 : BitVec 8), s.mtcc.cap⟩ }
  | .csrMepc wdata =>
    if s.enable then s
    else { s with mepcc := ⟨wdata.extractLsb' 1 31 ++ (0 : BitVec 1), s.mepcc.cap⟩ }
  | .cheriot instr rsp => if s.enable then s.execCheriot instr rsp else s
  | .trap pc clrtag =>
    { s with
      mepcc := ⟨pc, if s.enable then pccToMepc s.pcc pc clrtag else s.mepcc.cap⟩
      mstackEpc := s.mepcc
      pcc := if s.enable then s.mtcc.full else s.pcc }
  | .mret nmiMode =>
    { s with
      mepcc := if nmiMode then
          ⟨s.mstackEpc.data, if s.enable then s.mstackEpc.cap else s.mepcc.cap⟩
        else s.mepcc
      pcc := if s.enable then s.mepcc.full else s.pcc }
  | .cheriotEnable => { s with enable := true }
  | .dataWrite granule => { s with mem := fun g => if g = granule then none else s.mem g }

/-- The core as a machine. -/
def machine : Machine Core Event := ⟨init, step⟩

/-- A load returns both words tagged only if they are the words of the capability that was last
stored to the granule. -/
def ReturnsLastStored : Event → Prop
  | .cheriot instr rsp =>
    instr.op = .cloadCap → rsp.lo.getLsbD 32 = true → rsp.hi.getLsbD 32 = true →
      s.mem (s.granuleOf instr) = some (rsp.lo.setWidth 32, rsp.hi.setWidth 32)
  | _ => True

end Core

/-! ### Packing -/

/-- **Storing metadata in a register loses nothing.** -/
@[simp] theorem vecToRegcap_regcapToVec (cap : Cap) : vecToRegcap (regcapToVec cap) = cap := by
  obtain ⟨capCor, valid, rsvd, cperms, otype, cexp, top, base⟩ := cap
  obtain ⟨hx, h31, h25, h22, h18, h9, h0⟩ := extractLsb'_packed (capCor ++ BitVec.ofBool valid) rsvd
    cperms otype cexp top base
  have hvalid : (capCor ++ BitVec.ofBool valid).getLsbD 0 = valid := by
    rw [BitVec.getLsbD_append, if_pos Nat.zero_lt_one, BitVec.getLsbD_ofBool]
    rfl
  have hcor : (regcapToVec ⟨capCor, valid, rsvd, cperms, otype, cexp, top, base⟩).extractLsb' 33 2 =
      capCor := by
    refine BitVec.eq_of_getLsbD_eq fun k hk => ?_
    rw [BitVec.getLsbD_extractLsb', decide_eq_true hk, Bool.true_and,
      show 33 + k = 32 + (k + 1) by omega]
    refine (hx (k + 1)).trans ?_
    rw [BitVec.getLsbD_append, if_neg (by omega), Nat.add_sub_cancel]
  simp only [vecToRegcap, Cap.mk.injEq]
  exact ⟨hcor, (hx 0).trans hvalid, h31, h25, h22, h18, h9, h0⟩

/-- **Storing a capability in memory loses nothing that its bounds depend on.** -/
theorem bounds_memToCap_capToMem {cap : Cap} {lo : BitVec 33} (h : cap.Coherent (lo.setWidth 32)) :
    (memToCap (capToMem cap) lo default).bounds = cap.bounds := by
  rw [memToCap_capToMem, ← h]
  rfl

/-! ### Reading what was written -/

namespace RegFile

variable (rf : RegFile)

theorem setWidth_regNumber (k : BitVec 4) : (k.setWidth 5).setWidth 4 = k := by
  revert k
  decide

theorem getLsbD_regNumber (k : BitVec 4) : (k.setWidth 5).getLsbD 4 = false := by
  revert k
  decide

/-- In RV32I mode no register reads as tagged. -/
theorem valid_read_rv32 (raddr : BitVec 5) : (rf.read false raddr).cap.valid = false := by
  simp [read, vecToRegcap]

theorem read_cheriot (k : BitVec 4) :
    rf.read true (k.setWidth 5) =
      if k = 0 then ⟨0, vecToRegcap 0⟩ else ⟨rf.data k, vecToRegcap (rf.shared k)⟩ := by
  rw [read, setWidth_regNumber, getLsbD_regNumber]
  by_cases hk : k = 0
  · simp [hk]
  · have hne : (true && k != 0) = true := bne_iff_ne.mpr hk
    simp only [Bool.false_and, Bool.false_eq_true, if_false, if_neg hk, if_pos hne]

/-- **A write in CHERIoT mode** reaches the register it names, data and metadata, and no other. -/
theorem read_write (k : BitVec 4) (waddr : BitVec 5) (v : RegVal) :
    (rf.write true waddr v).read true (k.setWidth 5) =
      if k = waddr.setWidth 4 ∧ waddr.getLsbD 4 = false ∧ k ≠ 0 then v
      else rf.read true (k.setWidth 5) := by
  rw [read_cheriot, read_cheriot]
  by_cases hk : k = 0
  · simp [hk]
  · by_cases hw : k = waddr.setWidth 4 ∧ waddr.getLsbD 4 = false
    · have hdata : (rf.write true waddr v).data k = v.data := if_pos ⟨hw.1, hk, hw.2⟩
      have hshared : (rf.write true waddr v).shared k = regcapToVec v.cap :=
        if_pos ⟨hw.1, .inl ⟨rfl, hw.2, hk⟩⟩
      rw [hdata, hshared, if_neg hk, if_pos ⟨hw.1, hw.2, hk⟩, vecToRegcap_regcapToVec]
    · have hdata : (rf.write true waddr v).data k = rf.data k := if_neg fun h => hw ⟨h.1, h.2.2⟩
      have hshared : (rf.write true waddr v).shared k = rf.shared k := by
        refine if_neg ?_
        rintro ⟨hix, ⟨-, hhi, -⟩ | ⟨hen, -⟩⟩
        · exact hw ⟨hix, hhi⟩
        · exact absurd hen (by decide)
      rw [hdata, hshared, if_neg hk, if_neg fun h => hw ⟨h.1, h.2.1⟩]

/-- An RV32I program cannot set the bit that a tag is read from. -/
theorem tag_write_rv32 (h : ∀ k, (rf.shared k).getLsbD 32 = false) (waddr : BitVec 5) (v : RegVal)
    (k : BitVec 4) : ((rf.write false waddr v).shared k).getLsbD 32 = false := by
  simp only [write]
  split
  · simp
  · exact h k

end RegFile

end Cheriot

end Croc
