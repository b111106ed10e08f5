import Croc.Lib.Clocked
import Croc.Lib.ObiPort

/-!
# The SoC control registers

`soc_ctrl_regs` holds the boot address, the fetch enable and what the boot code reports, behind an
OBI port that grants every request and answers it a cycle later. A write takes effect at the end of
the cycle in which it is made.

The byte enables of a write are expanded to a mask, and the register becomes the masked data: the
bytes that are not enabled are cleared, not kept.

## Main definitions

* `Reg`: the registers that a write replaces. The CHERIoT enable is not one of them, it can only be
  set.
* `SocCtrlRegs`, `SocCtrlRegs.next`, `SocCtrlRegs.obiRsp`: the registers and their port.
* `lastWritten`: what was last written to a byte of a register, or its reset value.

## Main results

* `SocCtrlRegs.cheriotEnable_stable`: the CHERIoT enable never falls.
* `bytes_kept_iff`: a byte of a register reads as what was last written to it exactly as
  long as no write leaves out a byte that holds anything.
-/

namespace Croc

namespace SocCtrl

open Clocked ObiPort

open Bits (Word)

/-- The registers that a write replaces. -/
inductive Reg where
  | bootAddr
  | fetchEn
  | coreStatus
  | bootMode
  | sramDly
  | exceptionCause
  | exceptionTval
  | exceptionMepc
  deriving DecidableEq, Repr

/-- `SOC_CTRL_…_OFFSET`. -/
def Reg.offset : Reg → BitVec 6
  | .bootAddr => 0x00
  | .fetchEn => 0x04
  | .coreStatus => 0x08
  | .bootMode => 0x0c
  | .sramDly => 0x10
  | .exceptionCause => 0x1c
  | .exceptionTval => 0x20
  | .exceptionMepc => 0x24

/-- `SOC_CTRL_INFO_OFFSET`. -/
def infoOffset : BitVec 6 := 0x14
/-- `SOC_CTRL_CHERIOT_ENABLE_OFFSET`. -/
def cheriotEnableOffset : BitVec 6 := 0x18

/-- `HwInfoWord`: version 1 with the DMA, two banks of 16384 words. -/
def hwInfoWord : Word :=
  (1#4 ++ 1#1 ++ 0#3 ++ 0#3 ++ 0#1 ++ 0#4 ++ 2#3 ++ 256#9 ++ 0#4 : BitVec 32)

/-- The bits of a register that are implemented. -/
def Reg.implemented : Reg → Word
  | .fetchEn | .bootMode | .sramDly => 1
  | .bootAddr | .coreStatus | .exceptionCause | .exceptionTval | .exceptionMepc => BitVec.allOnes 32

/-- The address of a request inside the block, `{addr[5:2], 2'b00}`. -/
def offset (q : ObiReq) : BitVec 6 := q.addr.extractLsb' 2 4 ++ 0#2

/-- The request writes `r`. -/
def writes (q : ObiReq) (r : Reg) : Bool := q.req && q.we && offset q == r.offset

/-- The request reads `r`. -/
def reads (q : ObiReq) (r : Reg) : Bool := q.req && !q.we && offset q == r.offset

/-- The state of the block. -/
structure SocCtrlRegs where
  /-- `boot_addr_q`. -/
  bootAddr : Word
  /-- `fetch_en_q`. -/
  fetchEn : Bool
  /-- `core_status_q`. -/
  coreStatus : Word
  /-- `boot_mode_q`. -/
  bootMode : Bool
  /-- `sram_dly_q`. -/
  sramDly : Bool
  /-- `cheriot_enable_q`. -/
  cheriotEnable : Bool
  /-- `exception_cause_q`. -/
  exceptionCause : Word
  /-- `exception_tval_q`. -/
  exceptionTval : Word
  /-- `exception_mepc_q`. -/
  exceptionMepc : Word
  /-- `req_q`. -/
  reqQ : Bool
  /-- `we_q`. -/
  weQ : Bool
  /-- `id_q`. -/
  idQ : BitVec 4
  /-- `{addr_q, 2'b00}`. -/
  offsetQ : BitVec 6
  deriving DecidableEq, Repr

namespace SocCtrlRegs

variable (s : SocCtrlRegs)

/-- The block out of reset. -/
def init (bootAddrDefault : Word) : SocCtrlRegs where
  bootAddr := bootAddrDefault
  fetchEn := true
  coreStatus := 0
  bootMode := false
  sramDly := false
  cheriotEnable := false
  exceptionCause := 0
  exceptionTval := 0
  exceptionMepc := 0
  reqQ := false
  weQ := false
  idQ := 0
  offsetQ := 0

/-- A register as it is read. -/
def value : Reg → Word
  | .bootAddr => s.bootAddr
  | .fetchEn => bitWord s.fetchEn
  | .coreStatus => s.coreStatus
  | .bootMode => bitWord s.bootMode
  | .sramDly => bitWord s.sramDly
  | .exceptionCause => s.exceptionCause
  | .exceptionTval => s.exceptionTval
  | .exceptionMepc => s.exceptionMepc

/-- `write_fsm`. -/
def writeFsm (q : ObiReq) : SocCtrlRegs :=
  let data := q.wdata &&& q.beMask
  let bit := q.wdata.getLsbD 0 && q.beMask.getLsbD 0
  if q.req && q.we then
    if offset q = Reg.bootAddr.offset then { s with bootAddr := data }
    else if offset q = Reg.fetchEn.offset then { s with fetchEn := bit }
    else if offset q = Reg.coreStatus.offset then { s with coreStatus := data }
    else if offset q = Reg.bootMode.offset then { s with bootMode := bit }
    else if offset q = Reg.sramDly.offset then { s with sramDly := bit }
    else if offset q = cheriotEnableOffset then { s with cheriotEnable := s.cheriotEnable || bit }
    else if offset q = Reg.exceptionCause.offset then { s with exceptionCause := data }
    else if offset q = Reg.exceptionTval.offset then { s with exceptionTval := data }
    else if offset q = Reg.exceptionMepc.offset then { s with exceptionMepc := data }
    else s
  else s

/-- One clock edge. -/
def next (q : ObiReq) : SocCtrlRegs :=
  { s.writeFsm q with reqQ := q.req, weQ := q.we, idQ := q.aid, offsetQ := offset q }

/-- The data and error of a read at `offset`. -/
def readData (offset : BitVec 6) : Word × Bool :=
  if offset = Reg.bootAddr.offset then (s.bootAddr, false)
  else if offset = Reg.fetchEn.offset then (bitWord s.fetchEn, false)
  else if offset = Reg.coreStatus.offset then (s.coreStatus, false)
  else if offset = Reg.bootMode.offset then (bitWord s.bootMode, false)
  else if offset = Reg.sramDly.offset then (bitWord s.sramDly, false)
  else if offset = infoOffset then (hwInfoWord, false)
  else if offset = cheriotEnableOffset then (bitWord s.cheriotEnable, false)
  else if offset = Reg.exceptionCause.offset then (s.exceptionCause, false)
  else if offset = Reg.exceptionTval.offset then (s.exceptionTval, false)
  else if offset = Reg.exceptionMepc.offset then (s.exceptionMepc, false)
  else (0xBADCAB1E, true)

/-- Whether a write at `offset` is answered with an error. -/
def writeErr (offset : BitVec 6) : Bool :=
  !(offset == cheriotEnableOffset ||
    [Reg.bootAddr, .fetchEn, .coreStatus, .bootMode, .sramDly, .exceptionCause, .exceptionTval,
      .exceptionMepc].any fun r => offset == r.offset)

/-- `obi_response`. -/
def obiRsp : ObiRsp where
  gnt := true
  rvalid := s.reqQ
  rid := s.idQ
  rdata := if s.reqQ && !s.weQ then (s.readData s.offsetQ).1 else 0
  err := s.reqQ && if s.weQ then writeErr s.offsetQ else (s.readData s.offsetQ).2

/-- The block as a machine. -/
def machine (bootAddrDefault : Word) : Machine SocCtrlRegs ObiReq := ⟨init bootAddrDefault, next⟩

variable {s} {q : ObiReq} {r : Reg}

/-! ### One request -/

theorem bitWord_getLsbD_and (x y : Word) :
    bitWord (x.getLsbD 0 && y.getLsbD 0) = x &&& 1 &&& y := by
  refine BitVec.eq_of_getLsbD_eq fun i hi => ?_
  obtain rfl | hpos := Nat.eq_zero_or_pos i
  · simp [bitWord]
  · have hone : (1 : Word).getLsbD i = false := by simp [BitVec.getLsbD_one]; omega
    have hzero : (BitVec.ofBool (x.getLsbD 0 && y.getLsbD 0)).getLsbD i = false :=
      BitVec.getLsbD_of_ge _ _ hpos
    rw [bitWord, BitVec.getLsbD_setWidth, hzero, BitVec.getLsbD_and, BitVec.getLsbD_and, hone]
    simp

/-- A request for another offset leaves a register alone. -/
theorem value_writeFsm_of_ne (hoff : offset q ≠ r.offset) : (s.writeFsm q).value r = s.value r := by
  rw [writeFsm]
  simp only [apply_ite (value · r)]
  cases r <;> simp only [value, ite_self, if_neg hoff]

/-- A register after an edge: a write leaves the masked data in it. -/
theorem value_next : (s.next q).value r =
    if writes q r then q.wdata &&& r.implemented &&& q.beMask else s.value r := by
  have hnext : (s.next q).value r = (s.writeFsm q).value r := by cases r <;> rfl
  rw [hnext]
  by_cases hoff : offset q = r.offset
  · have hw : writes q r = (q.req && q.we) := by rw [writes, hoff, beq_self_eq_true, Bool.and_true]
    have hbit := bitWord_getLsbD_and q.wdata q.beMask
    have hall : q.wdata &&& BitVec.allOnes 32 = q.wdata := BitVec.and_allOnes
    rw [hw, writeFsm, hoff]
    by_cases hwe : (q.req && q.we) = true
    · rw [if_pos hwe, if_pos hwe]
      cases r <;> first | exact congrArg (· &&& q.beMask) hall.symm | exact hbit
    · rw [if_neg hwe, if_neg hwe]
  · rw [value_writeFsm_of_ne hoff, writes, beq_eq_false_iff_ne.mpr hoff, Bool.and_false,
      if_neg Bool.false_ne_true]

/-- A read is answered with the register, without error. -/
theorem readData_offset : s.readData r.offset = (s.value r, false) := by
  cases r <;> rfl

theorem obiRsp_of_reads (h : reads q r = true) :
    (s.next q).obiRsp = ⟨true, true, s.value r, q.aid, false⟩ := by
  rw [reads, Bool.and_eq_true, Bool.and_eq_true, Bool.not_eq_true', beq_iff_eq] at h
  obtain ⟨⟨hreq, hwe⟩, hoff⟩ := h
  have hv : (s.next q).value r = s.value r := by simp [value_next, writes, hwe]
  have hread : (s.next q).readData (offset q) = (s.value r, false) := by
    rw [hoff, readData_offset, hv]
  have hreqQ : (s.next q).reqQ = true := hreq
  have hweQ : (s.next q).weQ = false := hwe
  have hoffsetQ : (s.next q).offsetQ = offset q := rfl
  have hidQ : (s.next q).idQ = q.aid := rfl
  rw [obiRsp, hreqQ, hweQ, hoffsetQ, hidQ, hread]
  rfl

/-- **One write.** The enabled bytes take the data and the others keep what they hold exactly if the
others hold nothing. -/
theorem write_merges_iff (h : writes q r = true) :
    (∀ b < 4, ((s.next q).value r).extractLsb' (8 * b) 8 =
        (if q.be.getLsbD b then q.wdata &&& r.implemented else s.value r).extractLsb' (8 * b) 8) ↔
      s.value r &&& ~~~q.beMask = 0 := by
  rw [value_next, if_pos h]
  exact Bits.and_byteMask_merges_iff _ _ _

/-! ### Runs -/

/-- **The CHERIoT enable never falls.** -/
theorem cheriotEnable_stable (boot : Word) (ins : ℕ → ObiReq) {t u : ℕ} (htu : t ≤ u)
    (h : ((machine boot).stateAt ins t).cheriotEnable = true) :
    ((machine boot).stateAt ins u).cheriotEnable = true := by
  refine Machine.stateAt_stable (I := fun s : SocCtrlRegs => s.cheriotEnable = true) h
    (fun v _ hv => ?_) htu
  show (writeFsm _ _).cheriotEnable = true
  rw [writeFsm]
  simp only [apply_ite SocCtrlRegs.cheriotEnable, hv, Bool.true_or, ite_self]

end SocCtrlRegs

open SocCtrlRegs

/-- What was last written to byte `b` of `r` before cycle `t`, or its reset value. -/
def lastWritten (boot : Word) (ins : ℕ → ObiReq) (r : Reg) (b : ℕ) : ℕ → BitVec 8
  | 0 => ((init boot).value r).extractLsb' (8 * b) 8
  | t + 1 =>
    if writes (ins t) r && (ins t).be.getLsbD b then
      ((ins t).wdata &&& r.implemented).extractLsb' (8 * b) 8
    else lastWritten boot ins r b t

/-- In cycle `t`, every byte of every register is what was last written to it. -/
def Current (boot : Word) (ins : ℕ → ObiReq) (t : ℕ) : Prop :=
  ∀ r, ∀ b < 4, (((machine boot).stateAt ins t).value r).extractLsb' (8 * b) 8 =
    lastWritten boot ins r b t

/-- The request leaves out no byte that holds anything. -/
def SocCtrlRegs.Covers (s : SocCtrlRegs) (q : ObiReq) : Prop :=
  ∀ r, writes q r = true → s.value r &&& ~~~q.beMask = 0

theorem current_succ_iff {boot : Word} {ins : ℕ → ObiReq} {t : ℕ} (h : Current boot ins t) :
    Current boot ins (t + 1) ↔ ((machine boot).stateAt ins t).Covers (ins t) := by
  refine forall_congr' fun r => ?_
  rw [Machine.stateAt_succ]
  cases hw : writes (ins t) r with
  | false =>
    have hv : (((machine boot).stateAt ins t).next (ins t)).value r =
        ((machine boot).stateAt ins t).value r := by
      rw [value_next, hw, if_neg Bool.false_ne_true]
    refine iff_of_true (fun b hb => ?_) (fun hf => absurd hf Bool.false_ne_true)
    rw [lastWritten, hw, Bool.false_and, if_neg Bool.false_ne_true]
    exact (congrArg _ hv).trans (h r b hb)
  | true =>
    rw [forall_prop_of_true rfl, ← write_merges_iff hw]
    refine forall₂_congr fun b hb => ?_
    rw [lastWritten, hw, Bool.true_and]
    cases hbe : (ins t).be.getLsbD b with
    | true => exact Iff.rfl
    | false =>
      rw [if_neg Bool.false_ne_true, if_neg Bool.false_ne_true, h r b hb]
      rfl

/-- **When bytes are kept.** From every state, the enabled bytes of a write take the data and the
others keep what they hold exactly if the others hold nothing. So a register reads, byte by byte, as
what was last written to it exactly as long as no write leaves out a byte that holds anything. A
read is answered with the register it finds. -/
theorem bytes_kept_iff (boot : Word) (ins : ℕ → ObiReq) (t : ℕ) :
    (∀ (s : SocCtrlRegs) (q : ObiReq) (r : Reg), writes q r = true →
      ((∀ b < 4, ((s.next q).value r).extractLsb' (8 * b) 8 =
          (if q.be.getLsbD b then q.wdata &&& r.implemented else s.value r).extractLsb' (8 * b) 8) ↔
        s.value r &&& ~~~q.beMask = 0)) ∧
      ((∀ u ≤ t, Current boot ins u) ↔ ∀ u < t, ((machine boot).stateAt ins u).Covers (ins u)) ∧
      ∀ r, reads (ins t) r = true →
        ((machine boot).stateAt ins (t + 1)).obiRsp =
          ⟨true, true, ((machine boot).stateAt ins t).value r, (ins t).aid, false⟩ := by
  refine ⟨fun s q r h => write_merges_iff h, ?_, fun r h => obiRsp_of_reads h⟩
  induction t with
  | zero => simp [Current, lastWritten, machine]
  | succ t ih =>
    rw [Nat.forall_lt_succ_right, ← ih]
    constructor
    · intro h
      refine ⟨fun u hu => h u (Nat.le_succ_of_le hu), ?_⟩
      exact (current_succ_iff (h t t.le_succ)).mp (h (t + 1) le_rfl)
    · rintro ⟨h, hc⟩ u hu
      obtain hu | rfl := Nat.of_le_succ hu
      · exact h u hu
      · exact (current_succ_iff (h t le_rfl)).mpr hc

/-- A store to the top byte of `BOOTADDR`, of which the other bytes hold nothing, and a read. -/
def topByteStore : ℕ → ObiReq
  | 0 => ⟨true, 0x00, true, 0b1000, 0x20345678, 0⟩
  | 1 => ⟨true, 0x00, false, 0b1111, 0, 3⟩
  | _ => default

/-- A store that leaves out only bytes that hold nothing keeps them, and the register is read back
byte by byte as it was last written. -/
theorem bytes_kept_topByteStore :
    writes (topByteStore 0) .bootAddr = true ∧ (topByteStore 0).be.getLsbD 0 = false ∧
      (∀ u ≤ 1, Current 0x10000000 topByteStore u) ∧
      lastWritten 0x10000000 topByteStore .bootAddr 3 1 = 0x20 ∧
      ((machine 0x10000000).stateAt topByteStore 2).obiRsp =
        ⟨true, true, 0x20000000, 3, false⟩ := by
  obtain ⟨-, hcurrent, hread⟩ := bytes_kept_iff 0x10000000 topByteStore 1
  refine ⟨by decide, by decide, hcurrent.mpr fun u hu => ?_, by decide, hread .bootAddr (by decide)⟩
  obtain rfl := Nat.lt_one_iff.mp hu
  intro r hw
  cases r
  case bootAddr => decide
  all_goals exact absurd hw (by decide)

/-- A byte store to the upper bytes of `FETCHEN`. -/
def byteStore : ObiReq := ⟨true, 0x04, true, 0b0010, 0, 0⟩

/-- A store that does not enable the byte of the fetch enable clears it. -/
theorem byteStore_clears_fetchEn :
    writes byteStore .fetchEn = true ∧ byteStore.be.getLsbD 0 = false ∧
      (init 0x10000000).value .fetchEn = 1 ∧ ((init 0x10000000).next byteStore).value .fetchEn = 0 ∧
      ¬Current 0x10000000 (fun _ => byteStore) 1 := by
  refine ⟨by decide, by decide, by decide, by decide, fun h => ?_⟩
  exact absurd (h .fetchEn 0 (by omega)) (by decide)

end SocCtrl

end Croc
