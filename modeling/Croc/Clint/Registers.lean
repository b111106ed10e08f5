import Croc.Lib.Clocked
import Croc.Lib.ObiPort
import Croc.Lib.Routine

/-!
# The CLINT

`clint` counts the rising edges of the reference clock in a register of 64 bits, `mtime`, and raises
the timer interrupt while the count has reached `mtimecmp`. The bus has 32 bits, so both registers
are accessed in halves.

The count is a remainder: after 2^64 edges it starts again. `time` is the number that it is the
remainder of, and everything about the order of two readings is said about `time`.

## Main definitions

* `Clint`, `ClintIn`, `Clint.next`, `Clint.obiRsp`, `Clint.timerIrq`: the block.
* `stateAt`, `time`: a run, from any state, and the count without its wrap-around.
* `port`: the loads and stores that a run serves.

## Main results

* `mtime_stateAt`, `time_mono`: `mtime` is the remainder of a number that never falls.
* `load_iff`: a load is answered with the register as it was in the cycle of the request.
* `mtimecmp_of_store`, `mtimecmp_of_not_writes`: what becomes of the compare register.
-/

namespace Croc

namespace Clock

open Clocked ObiPort

open Bits (Word high low)

open Routine (Port)

/-- `CLINT_MSIP_OFFSET`. -/
def msipOffset : BitVec 16 := 0x0000
/-- `CLINT_MTIMECMP_LOW0_OFFSET`. -/
def mtimecmpLow0Offset : BitVec 16 := 0x4000
/-- `CLINT_MTIMECMP_HIGH0_OFFSET`. -/
def mtimecmpHigh0Offset : BitVec 16 := 0x4004
/-- `CLINT_MTIME_LOW_OFFSET`. -/
def mtimeLowOffset : BitVec 16 := 0xbff8
/-- `CLINT_MTIME_HIGH_OFFSET`. -/
def mtimeHighOffset : BitVec 16 := 0xbffc

/-- The address of a request inside the block, `{addr[15:2], 2'b00}`. -/
def offset (q : ObiReq) : BitVec 16 := q.addr.extractLsb' 2 14 ++ 0#2

/-- The state of the block. -/
structure Clint where
  /-- `mtime_q`. -/
  mtime : BitVec 64
  /-- `mtimecmp_q`. -/
  mtimecmp : BitVec 64
  /-- `msip_q`. -/
  msip : Bool
  /-- `reg_q` of the synchroniser, two stages. -/
  regQ : BitVec 2
  /-- `rtc_sync_q`. -/
  rtcSync : Bool
  /-- `obi_req_q`. -/
  obiReq : ObiReq
  /-- `rdata_q`. -/
  rdata : Word
  /-- `err_q`. -/
  err : Bool
  deriving DecidableEq, Repr

/-- The inputs of a cycle. -/
structure ClintIn where
  /-- `rtc_i`. -/
  rtc : Bool
  /-- `obi_req_i`. -/
  req : ObiReq
  deriving DecidableEq, Repr

namespace Clint

variable (s : Clint) (q : ObiReq) (i : ClintIn)

/-- The block out of reset. -/
def init : Clint := ⟨0, 0, false, 0, false, ⟨false, 0, false, 0, 0, 0⟩, 0, false⟩

/-- `timer_irq_o`. -/
def timerIrq : Bool := decide (s.mtimecmp ≤ s.mtime)

/-- `serial_o` of the synchroniser. -/
def rtcSyncD : Bool := s.regQ.getLsbD 1

/-- `increase_mtime`: a rising edge. -/
def increaseMtime : Bool := s.rtcSyncD && !s.rtcSync

/-- `count_time`. -/
def countTime : BitVec 64 := if s.increaseMtime then s.mtime + 1 else s.mtime

/-- `mtimecmp_d`. -/
def mtimecmpD : BitVec 64 :=
  if q.req && q.we then
    if offset q = mtimecmpLow0Offset then high s.mtimecmp ++ q.masked (low s.mtimecmp)
    else if offset q = mtimecmpHigh0Offset then q.masked (high s.mtimecmp) ++ low s.mtimecmp
    else s.mtimecmp
  else s.mtimecmp

/-- `msip_d`. -/
def msipD : Bool :=
  if q.req && q.we && offset q == msipOffset then q.maskedBit s.msip 0 else s.msip

/-- The register at an offset, for a read. -/
def readReg (o : BitVec 16) : Option Word :=
  if o = msipOffset then some (bitWord s.msip)
  else if o = mtimecmpLow0Offset then some (low s.mtimecmp)
  else if o = mtimecmpHigh0Offset then some (high s.mtimecmp)
  else if o = mtimeLowOffset then some (low s.mtime)
  else if o = mtimeHighOffset then some (high s.mtime)
  else none

/-- `rdata_d`. -/
def rdataD : Word :=
  if q.req && !q.we then (s.readReg (offset q)).getD 0xBADCAB1E else 0

/-- `err_d`. The count cannot be written. -/
def errD : Bool :=
  q.req &&
    if q.we then
      offset q != msipOffset && offset q != mtimecmpLow0Offset && offset q != mtimecmpHigh0Offset
    else (s.readReg (offset q)).isNone

/-- One clock edge. -/
def next : Clint where
  mtime := s.countTime
  mtimecmp := s.mtimecmpD i.req
  msip := s.msipD i.req
  regQ := s.regQ.extractLsb' 0 1 ++ BitVec.ofBool i.rtc
  rtcSync := s.rtcSyncD
  obiReq := i.req
  rdata := s.rdataD i.req
  err := s.errD i.req

/-- `obi_response`. -/
def obiRsp : ObiRsp := ⟨true, s.obiReq.req, s.rdata, s.obiReq.aid, s.err⟩

end Clint

/-! ### Runs -/

section Runs

variable (boot : Clint) (ins : ℕ → ClintIn)

/-- The state at the start of cycle `t`, in a run that starts in the state `boot`. -/
def stateAt (t : ℕ) : Clint := (⟨boot, Clint.next⟩ : Machine Clint ClintIn).stateAt ins t

/-- The count without its wrap-around. -/
def time : ℕ → ℕ
  | 0 => boot.mtime.toNat
  | t + 1 => time t + (stateAt boot ins t).increaseMtime.toNat

/-- What a run serves: a load is answered in the next cycle, without an error, a store is one of a
whole word. -/
def port : Port Word Word where
  load t addr a := (ins t).req.req = true ∧ (ins t).req.we = false ∧ (ins t).req.addr = addr ∧
    (stateAt boot ins (t + 1)).obiRsp.rvalid = true ∧
    (stateAt boot ins (t + 1)).obiRsp.err = false ∧
    (stateAt boot ins (t + 1)).obiRsp.rdata = a
  store t addr a := (ins t).req.req = true ∧ (ins t).req.we = true ∧ (ins t).req.addr = addr ∧
    (ins t).req.be = 0xf ∧ (ins t).req.wdata = a

/-- The request of a cycle writes a half of the compare register. -/
def writesMtimecmp (q : ObiReq) : Bool :=
  q.req && q.we && (offset q == mtimecmpLow0Offset || offset q == mtimecmpHigh0Offset)

end Runs

variable {boot : Clint} {ins : ℕ → ClintIn} {t u : ℕ}

/-- The synchroniser shifts the reference clock in. -/
theorem regQ_stateAt_succ : (stateAt boot ins (t + 1)).regQ =
    (stateAt boot ins t).regQ.extractLsb' 0 1 ++ BitVec.ofBool (ins t).rtc := rfl

theorem rtcSync_stateAt_succ :
    (stateAt boot ins (t + 1)).rtcSync = (stateAt boot ins t).rtcSyncD := rfl

/-- The register holds the count modulo 2^64. -/
theorem mtime_stateAt : (stateAt boot ins t).mtime = BitVec.ofNat 64 (time boot ins t) := by
  induction t with
  | zero => exact (BitVec.ofNat_toNat 64 boot.mtime).symm
  | succ t ih =>
    have hnext : (stateAt boot ins (t + 1)).mtime = (stateAt boot ins t).countTime := rfl
    rw [hnext, Clint.countTime, time, ih]
    cases (stateAt boot ins t).increaseMtime with
    | false => rfl
    | true => exact (BitVec.ofNat_add _ _).symm

/-- The count never falls. -/
theorem time_mono (boot : Clint) (ins : ℕ → ClintIn) : Monotone (time boot ins) :=
  monotone_nat_of_le_succ fun _ => Nat.le_add_right _ _

/-- As long as the count fits, the register holds it. -/
theorem toNat_mtime (h : time boot ins t < 2 ^ 64) :
    (stateAt boot ins t).mtime.toNat = time boot ins t := by
  rw [mtime_stateAt, BitVec.toNat_ofNat, Nat.mod_eq_of_lt h]

/-! ### Accesses -/

/-- **A load.** It shows the register as it is in the cycle of the request. -/
theorem load_iff {addr a : Word} {w : Word}
    (hreg : (stateAt boot ins t).readReg (addr.extractLsb' 2 14 ++ 0#2) = some w) :
    (port boot ins).load t addr a ↔
      (ins t).req.req = true ∧ (ins t).req.we = false ∧ (ins t).req.addr = addr ∧ a = w := by
  constructor
  · rintro ⟨hreq, hwe, rfl, -, -, hdata⟩
    refine ⟨hreq, hwe, rfl, ?_⟩
    have hd : (stateAt boot ins (t + 1)).obiRsp.rdata = (stateAt boot ins t).rdataD (ins t).req :=
      rfl
    rw [hd, Clint.rdataD, hreq, hwe, offset, hreg] at hdata
    exact hdata.symm
  · rintro ⟨hreq, hwe, rfl, rfl⟩
    have herr : (stateAt boot ins (t + 1)).obiRsp.err = (stateAt boot ins t).errD (ins t).req := rfl
    have hd : (stateAt boot ins (t + 1)).obiRsp.rdata = (stateAt boot ins t).rdataD (ins t).req :=
      rfl
    refine ⟨hreq, hwe, rfl, hreq, ?_, ?_⟩
    · rw [herr, Clint.errD, hwe, offset, hreg, hreq]
      rfl
    · rw [hd, Clint.rdataD, hreq, hwe, offset, hreg]
      rfl

/-- A cycle that writes neither half keeps the compare register. -/
theorem mtimecmp_of_not_writes (h : writesMtimecmp (ins t).req = false) :
    (stateAt boot ins (t + 1)).mtimecmp = (stateAt boot ins t).mtimecmp := by
  have hnext : (stateAt boot ins (t + 1)).mtimecmp = (stateAt boot ins t).mtimecmpD (ins t).req :=
    rfl
  rw [hnext, Clint.mtimecmpD]
  cases hw : (ins t).req.req && (ins t).req.we with
  | false => rfl
  | true =>
    rw [writesMtimecmp, hw, Bool.true_and, Bool.or_eq_false_iff, beq_eq_false_iff_ne,
      beq_eq_false_iff_ne] at h
    rw [if_pos rfl, if_neg h.1, if_neg h.2]

/-- A store replaces the half that it addresses and keeps the other one. -/
theorem mtimecmp_of_store {addr a : Word} (h : (port boot ins).store t addr a) :
    (stateAt boot ins (t + 1)).mtimecmp =
      if addr.extractLsb' 2 14 ++ 0#2 = mtimecmpLow0Offset then
        high (stateAt boot ins t).mtimecmp ++ a
      else if addr.extractLsb' 2 14 ++ 0#2 = mtimecmpHigh0Offset then
        a ++ low (stateAt boot ins t).mtimecmp
      else (stateAt boot ins t).mtimecmp := by
  obtain ⟨hreq, hwe, rfl, hbe, rfl⟩ := h
  have hnext : (stateAt boot ins (t + 1)).mtimecmp = (stateAt boot ins t).mtimecmpD (ins t).req :=
    rfl
  rw [hnext, Clint.mtimecmpD, hreq, hwe, ObiReq.masked_of_full hbe, ObiReq.masked_of_full hbe]
  rfl

end Clock

end Croc
