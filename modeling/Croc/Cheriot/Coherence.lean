import Croc.Cheriot.Provenance

/-!
# The correction bits

A register keeps, beside the address and the compressed bounds, two bits that say on which side of
the window of the address each bound lies. They are a cache: they could be computed from the
mantissas and the address at any time, and a capability in memory is stored without them. Six paths
write them, by the formula or by a constant, and addresses are written on other paths again.

No assumption on memory is needed here: whatever a load returns, its correction bits are computed
from the words that were returned.

## Main definitions

* `RegVal.Coherent`: the correction bits of a tagged register match the address beside them.
* `Core.Coherence`: the invariant.

## Main results

* `ExIn.result_coherent`, `ExIn.csrWrite_coherent`: what an instruction writes.
* `Core.coherence_step`, `Core.coherence_stateAt`: one step, and a whole run.
* `Core.correctionBits_coherent`: the bounds decode as they would from memory.
-/

namespace Croc

namespace Cheriot

open Clocked

open Bits (Word)

/-- The correction bits of a tagged register match the address beside them. -/
def RegVal.Coherent (r : RegVal) : Prop := r.cap.valid = true → r.cap.Coherent r.data

theorem RegVal.coherent_of_untagged {r : RegVal} (h : r.cap.valid = false) : r.Coherent :=
  fun hv => absurd (h.symm.trans hv) Bool.false_ne_true

/-- A register with the address and the bounds of a coherent one, tagged only if that one is. -/
theorem RegVal.Coherent.congr {r src : RegVal} (h : src.Coherent)
    (hv : r.cap.valid = true → src.cap.valid = true) (hdata : r.data = src.data)
    (hbounds : r.cap.bounds = src.cap.bounds) : r.Coherent := by
  intro hr
  rw [hdata]
  exact (h (hv hr)).congr hbounds

theorem rootCap_coherent (cperms : BitVec 6) (a : Word) : (RegVal.mk a (rootCap cperms)).Coherent :=
  fun _ => (rootCap_spec cperms a).1.coherent

/-- Loading a capability recomputes the corrections. -/
theorem loaded_coherent (rsp : BusRsp) (clrperm : CapClrperm) : (rsp.loaded clrperm).Coherent :=
  fun _ => rfl

/-! ### What an instruction writes -/

namespace ExIn

variable {i : ExIn}

theorem movedCap_coherent (hsel : i.op.setaddrSel = .rfaArith ∨ i.op.setaddrSel = .pccArith) :
    i.movedCap.Coherent i.addrResult := by
  have hout : i.setaddr1Outcap.toCap.Coherent i.addrResult := by
    rw [setaddr1Outcap]
    rcases hsel with h | h
    · rw [h]
      exact setAddress_coherent _ _
    · rw [h]
      exact setAddress_coherent _ _
  exact hout.congr rfl

theorem linkCap_coherent (hsel : i.op.setaddrSel = .pccPcnxt) : i.linkCap.Coherent i.pcIdNxt := by
  have hout : i.setaddr1Outcap.toCap.Coherent i.pcIdNxt := by
    rw [setaddr1Outcap, hsel]
    exact setAddress_coherent _ _
  -- sealing the link capability does not touch its bounds
  have hbounds : i.linkCap.bounds = i.setaddr1Outcap.toCap.bounds := by
    rw [linkCap]
    split_ifs <;> rfl
  exact hout.congr hbounds

/-- The bounds unit starts from the address of the register. -/
theorem boundedCap_coherent (hsel : i.op.setboundsSel = .rs2 ∨ i.op.setboundsSel = .rs2Ex ∨
      i.op.setboundsSel = .imm ∨ i.op.setboundsSel = .rndn) : i.boundedCap.Coherent i.cs1.data := by
  obtain ⟨len, exact, hops⟩ := setboundsOperands_eq hsel
  rw [boundedCap]
  split_ifs
  · rw [setboundsRndnOutcap, hops]
    exact (setBoundsRounddown_coherent i.fullcapA _).congr rfl
  · rw [setboundsResult, hops]
    exact (setBoundsEx_coherent i.fullcapA exact).congr rfl

/-- **The destination register.** Whatever an instruction writes is coherent if its first source
register and the special capability register it reads are. -/
theorem result_coherent (hcs1 : i.cs1.Coherent) (hcsr : i.csr.Coherent) : i.result.Coherent := by
  rw [result]
  cases hop : i.op with
  | cgetField field => exact RegVal.coherent_of_untagged rfl
  | crrl | cram | cisSubset | cisEqual | csubCap | cloadCap | cstoreCap =>
    exact RegVal.coherent_of_untagged rfl
  | cclearTag => exact RegVal.coherent_of_untagged rfl
  | csetHigh =>
    refine RegVal.coherent_of_untagged ?_
    simp only [memToCap, BitVec.getLsbD_cons, if_true, Bool.false_and]
  | cmoveCap => exact hcs1
  | ccsrRw => exact hcsr
  | cseal | cunseal =>
    refine hcs1.congr (fun hv => ?_) rfl rfl
    exact (Bool.and_eq_true_iff.mp (Bool.and_eq_true_iff.mp hv).1).1
  | candPerm =>
    refine hcs1.congr (fun hv => ?_) rfl rfl
    exact (Bool.and_eq_true_iff.mp hv).1
  | csetAddr | cincAddr | cincAddrImm | cauicgp =>
    exact fun _ => movedCap_coherent (.inl (by rw [hop]; rfl))
  | cauipcc => exact fun _ => movedCap_coherent (.inr (by rw [hop]; rfl))
  | csetBounds | csetBoundsImm | csetBoundsEx | csetBoundsRndn =>
    exact fun _ => boundedCap_coherent (by rw [hop]; decide)
  | cjalr | cjal => exact fun _ => linkCap_coherent (by rw [hop]; rfl)

/-- **Special capability registers.** Legalisation moves the address and the corrections
together. -/
theorem csrWrite_coherent (hop : i.op = .ccsrRw) (hcs1 : i.cs1.Coherent) : i.csrWrite.Coherent := by
  have hlegal : i.scrLegalization = true → i.setaddr1Outcap.toCap.Coherent i.csrWdata := by
    intro h
    have hsel : i.op.setaddrSel = .scr := by rw [hop]; rfl
    rw [setaddr1Outcap, hsel]
    simp only [h, if_true]
    exact setAddress_coherent _ _
  rw [csrWrite]
  split_ifs with hm hp
  · refine fun _ => (hlegal ?_).congr rfl
    rw [scrLegalization, Bool.or_eq_true, beq_iff_eq]
    exact .inl hm
  · refine fun _ => (hlegal ?_).congr rfl
    rw [scrLegalization, Bool.or_eq_true, beq_iff_eq, beq_iff_eq]
    exact .inr hp
  · exact hcs1

end ExIn

/-! ### The invariant -/

/-- Where the core keeps a capability beside its address. -/
def Core.capReg (s : Core) : Loc → Option RegVal
  | .reg k => some (s.readReg k)
  | .mtcc => some s.mtcc
  | .mtdc => some s.mtdc
  | .mscratchc => some s.mscratchc
  | .mepcc => some s.mepcc
  | .mstackEpc => some s.mstackEpc
  | .pcc => none

/-- The invariant of the core. -/
structure Core.Coherence (s : Core) : Prop where
  /-- Every register is coherent. -/
  capReg : ∀ l, ∀ r ∈ s.capReg l, r.Coherent
  /-- An RV32I program has not set a bit that will be read as a tag. -/
  shared : s.enable = false → ∀ k, (s.rf.shared k).getLsbD 32 = false
  /-- Until the switch MTCC and MEPCC are the executable root, which is coherent at every
  address. -/
  roots : s.enable = false → s.mtcc.cap = rootCapTx ∧ s.mepcc.cap = rootCapTx

namespace Core

variable {s : Core}

section Step

variable (hs : s.Coherence)
include hs

theorem readReg_coherent (k : BitVec 4) : (s.readReg k).Coherent := hs.capReg (.reg k) _ rfl

theorem readScr_coherent (addr : BitVec 5) : (s.readScr addr).Coherent := by
  rw [readScr]
  split_ifs
  · exact hs.capReg .mtcc _ rfl
  · exact hs.capReg .mtdc _ rfl
  · exact hs.capReg .mscratchc _ rfl
  · exact hs.capReg .mepcc _ rfl
  · exact RegVal.coherent_of_untagged rfl

/-- The destination register of a capability instruction, a load included. -/
theorem regWrite_coherent {instr : CapInstr} {rsp : BusRsp} {v : RegVal}
    (hw : s.regWrite instr rsp = some v) : v.Coherent := by
  simp only [regWrite] at hw
  split_ifs at hw
  · obtain rfl := Option.some.inj hw
    exact loaded_coherent rsp _
  · obtain rfl := Option.some.inj hw
    exact ExIn.result_coherent (readReg_coherent hs _) (readScr_coherent hs _)

/-- The special capability register of a capability instruction. -/
theorem scrWrite_coherent {instr : CapInstr} {scr : BitVec 5} {v : RegVal}
    (hw : s.scrWrite instr scr = some v) : v.Coherent := by
  simp only [scrWrite] at hw
  split_ifs at hw with hen
  obtain rfl := Option.some.inj hw
  have hccsr : (s.exIn instr).op = .ccsrRw := by
    simp only [ExIn.csrOpEn, Bool.and_eq_true, beq_iff_eq] at hen
    exact hen.1.1.1
  exact ExIn.csrWrite_coherent hccsr (readReg_coherent hs _)

theorem scrWrite_getD_coherent {instr : CapInstr} {scr : BitVec 5} {r : RegVal} (hr : r.Coherent) :
    ((s.scrWrite instr scr).getD r).Coherent := by
  cases hw : s.scrWrite instr scr with
  | none => exact hr
  | some v => exact scrWrite_coherent hs hw

theorem execCheriot_coherent (hen : s.enable = true) (instr : CapInstr) (rsp : BusRsp) (l : Loc) :
    ∀ r ∈ (s.execCheriot instr rsp).capReg l, r.Coherent := by
  rintro r hr
  cases l with
  | reg k =>
    obtain rfl := Option.some.inj hr
    cases hw : s.regWrite instr rsp with
    | none =>
      have hread : (s.execCheriot instr rsp).readReg k = s.readReg k := by
        simp only [execCheriot, readReg, hw]
      rw [hread]
      exact readReg_coherent hs k
    | some v =>
      rw [readReg_execCheriot hen hw]
      split_ifs
      · exact regWrite_coherent hs hw
      · exact readReg_coherent hs k
  | mtcc =>
    obtain rfl := Option.some.inj hr
    simp only [execCheriot]
    cases hw : s.scrWrite instr scrMtcc with
    | none => exact hs.capReg .mtcc _ rfl
    | some v =>
      -- the address is cut once more, but legalisation has cut it already
      simp only [scrWrite_mtcc hw]
      exact scrWrite_coherent hs hw
  | mtdc =>
    obtain rfl := Option.some.inj hr
    exact scrWrite_getD_coherent hs (hs.capReg .mtdc _ rfl)
  | mscratchc =>
    obtain rfl := Option.some.inj hr
    exact scrWrite_getD_coherent hs (hs.capReg .mscratchc _ rfl)
  | mepcc =>
    obtain rfl := Option.some.inj hr
    exact scrWrite_getD_coherent hs (hs.capReg .mepcc _ rfl)
  | mstackEpc => exact hs.capReg .mstackEpc r hr
  | pcc => cases hr

theorem integer_coherent (waddr : BitVec 5) (wdata : Word) (k : BitVec 4) :
    ((s.step (.integer waddr wdata)).readReg k).Coherent := by
  cases hen : s.enable with
  | false =>
    refine RegVal.coherent_of_untagged ?_
    simp only [step, readReg, hen]
    exact RegFile.valid_read_rv32 _ _
  | true =>
    simp only [step, readReg, hen]
    rw [RegFile.read_write]
    split_ifs
    · exact RegVal.coherent_of_untagged rfl
    · have := readReg_coherent hs k
      rwa [readReg, hen] at this

/-- At the switch no register is tagged. -/
theorem cheriotEnable_coherent (k : BitVec 4) : ((s.step .cheriotEnable).readReg k).Coherent := by
  cases hen : s.enable with
  | false =>
    refine RegVal.coherent_of_untagged ?_
    simp only [step, readReg]
    rw [RegFile.read_cheriot]
    split
    · rfl
    · exact hs.shared hen k
  | true =>
    have := readReg_coherent hs k
    simp only [readReg, hen] at this
    exact this

/-- MEPCC after a trap, and the copy of it that a trap or a return leaves. -/
theorem trap_coherent (pc : Word) (clrtag : Bool) :
    (RegVal.mk pc (if s.enable then pccToMepc s.pcc pc clrtag else s.mepcc.cap)).Coherent := by
  cases hen : s.enable with
  | false =>
    simp only [(hs.roots hen).2]
    exact rootCap_coherent _ pc
  | true => exact fun _ => (setAddress_coherent s.pcc pc).congr rfl

theorem mret_coherent :
    (RegVal.mk s.mstackEpc.data (if s.enable then s.mstackEpc.cap else s.mepcc.cap)).Coherent := by
  cases hen : s.enable with
  | false =>
    simp only [(hs.roots hen).2]
    exact rootCap_coherent _ _
  | true => exact hs.capReg .mstackEpc _ rfl

/-- **One step** keeps every register coherent. -/
theorem capReg_step (e : Event) (l : Loc) : ∀ r ∈ (s.step e).capReg l, r.Coherent := by
  intro r hr
  have hold := hs.capReg l r
  cases e with
  | integer waddr wdata =>
    cases l with
    | reg k =>
      obtain rfl := Option.some.inj hr
      exact integer_coherent hs waddr wdata k
    | mtcc | mtdc | mscratchc | mepcc | mstackEpc | pcc => exact hold hr
  | csrMtvec wdata =>
    simp only [step] at hr
    split at hr
    case isTrue => exact hold hr
    case isFalse hen =>
      cases l with
      | mtcc =>
        obtain rfl := Option.some.inj hr
        simp only [(hs.roots (Bool.eq_false_of_not_eq_true hen)).1]
        exact rootCap_coherent _ _
      | reg | mtdc | mscratchc | mepcc | mstackEpc | pcc => exact hold hr
  | csrMepc wdata =>
    simp only [step] at hr
    split at hr
    case isTrue => exact hold hr
    case isFalse hen =>
      cases l with
      | mepcc =>
        obtain rfl := Option.some.inj hr
        simp only [(hs.roots (Bool.eq_false_of_not_eq_true hen)).2]
        exact rootCap_coherent _ _
      | reg | mtcc | mtdc | mscratchc | mstackEpc | pcc => exact hold hr
  | cheriot instr rsp =>
    simp only [step] at hr
    split at hr
    case isTrue hen => exact execCheriot_coherent hs hen instr rsp l r hr
    case isFalse => exact hold hr
  | trap pc clrtag =>
    cases l with
    | mepcc =>
      obtain rfl := Option.some.inj hr
      exact trap_coherent hs pc clrtag
    | mstackEpc => exact hs.capReg .mepcc r hr
    | reg | mtcc | mtdc | mscratchc | pcc => exact hold hr
  | mret nmiMode =>
    cases l with
    | mepcc =>
      obtain rfl := Option.some.inj hr
      cases nmiMode with
      | false => exact hs.capReg .mepcc _ rfl
      | true => exact mret_coherent hs
    | reg | mtcc | mtdc | mscratchc | mstackEpc | pcc => exact hold hr
  | cheriotEnable =>
    cases l with
    | reg k =>
      obtain rfl := Option.some.inj hr
      exact cheriotEnable_coherent hs k
    | mtcc | mtdc | mscratchc | mepcc | mstackEpc | pcc => exact hold hr
  | dataWrite granule => cases l <;> exact hold hr

theorem coherence_step (e : Event) : (s.step e).Coherence where
  capReg := capReg_step hs e
  shared := step_shared hs.shared
  roots := step_roots hs.roots

end Step

theorem coherence_init : init.Coherence where
  capReg := by
    intro l r hr
    cases l with
    | reg k =>
      obtain rfl := Option.some.inj hr
      exact RegVal.coherent_of_untagged (RegFile.valid_read_rv32 _ _)
    | mtcc | mtdc | mscratchc | mepcc =>
      obtain rfl := Option.some.inj hr
      exact rootCap_coherent _ _
    | mstackEpc =>
      obtain rfl := Option.some.inj hr
      exact RegVal.coherent_of_untagged rfl
    | pcc => cases hr
  shared := fun _ _ => BitVec.getLsbD_zero
  roots := fun _ => ⟨rfl, rfl⟩

/-- **A whole run**, from reset, through any RV32I phase and any answers of memory. -/
theorem coherence_stateAt (ins : ℕ → Event) (t : ℕ) : (machine.stateAt ins t).Coherence :=
  Machine.stateAt_inv' (I := Coherence) coherence_init (fun _ e hs => coherence_step hs e) t

/-- **The correction bits are coherent.** Over any run, whatever is tagged in a register, in MTCC,
MTDC, MSCRATCHC, MEPCC or the saved copy of MEPCC has the correction bits that its mantissas and the
address beside it determine, and has the bounds that its image in memory would be loaded with. -/
theorem correctionBits_coherent (ins : ℕ → Event) (t : ℕ) (l : Loc) (r : RegVal)
    (hr : (machine.stateAt ins t).capReg l = some r) (hv : r.cap.valid = true) :
    r.cap.capCor = computeCorrections r.cap.top r.cap.base (addrMid r.data (expandExp r.cap.cexp)) ∧
    ∀ lo : BitVec 33, lo.setWidth 32 = r.data →
      let image := memToCap (capToMem r.cap) lo default
      (decodeCap image r.data).base32 = (decodeCap r.cap r.data).base32 ∧
        (decodeCap image r.data).top33 = (decodeCap r.cap r.data).top33 := by
  have hco : r.cap.Coherent r.data := (coherence_stateAt ins t).capReg l r hr hv
  refine ⟨hco, fun lo hlo => ?_⟩
  have hbounds : (memToCap (capToMem r.cap) lo default).bounds = r.cap.bounds :=
    bounds_memToCap_capToMem (by rwa [hlo])
  exact ⟨decodeCap_base32_congr hbounds, decodeCap_top33_congr hbounds⟩

/-- A run that reads MTDC, the memory root, into `x1`, moves it to `0x9f0`, cuts 256 bytes there and
moves the address on by 128 bytes, across the end of the window of the base. -/
def moveAcrossWindow : ℕ → Event
  | 0 => .integer 2 0x9f0
  | 1 => .cheriotEnable
  | 2 => .cheriot { (default : CapInstr) with op := .ccsrRw, waddr := 1, cs2Dec := scrMtdc } default
  | 3 =>
    .cheriot { (default : CapInstr) with op := .csetAddr, raddrA := 1, raddrB := 2, waddr := 3 }
      default
  | 4 =>
    .cheriot
      { (default : CapInstr) with op := .csetBoundsImm, raddrA := 3, waddr := 3, imm12 := 256 }
      default
  | 5 =>
    .cheriot { (default : CapInstr) with op := .cincAddrImm, raddrA := 3, waddr := 3, imm12 := 128 }
      default
  | _ => .dataWrite 0

theorem correctionBits_coherent_moveAcrossWindow :
    let r := (machine.stateAt moveAcrossWindow 6).readReg 3
    r.cap.valid = true ∧ r.data = 0xa70 ∧ r.cap.capCor = 0b01 ∧
      r.cap.capCor =
        computeCorrections r.cap.top r.cap.base (addrMid r.data (expandExp r.cap.cexp)) := by
  intro r
  have hv : r.cap.valid = true := by decide +kernel
  exact ⟨hv, by decide +kernel, by decide +kernel,
    (correctionBits_coherent moveAcrossWindow 6 (.reg 3) r rfl hv).1⟩

end Core

end Cheriot

end Croc
