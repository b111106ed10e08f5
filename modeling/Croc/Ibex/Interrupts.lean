import Croc.Bootrom.TrapWrapper

/-!
# The interrupt enables of the core

`mie` enables the interrupts one by one and `mstatus.MIE` all of them. On a trap the core moves
`mstatus.MIE` to `mstatus.MPIE` and clears it, so that the handler is not interrupted, and `mret`
moves it back. Software changes both registers with instructions that set or clear the bits of a
mask: these read the register, combine the two words and write the result.

This is the core in RV32I mode, outside of debug mode and of the mode for non-maskable
interrupts.

## Main definitions

* `Status`, `Irqs`, `Csrs`: the registers.
* `Csrs.access`: an instruction on a register.
* `Csrs.saveCause`, `Csrs.restoreMret`: trap and return.
* `Irqs.excCause`, `Csrs.handleIrq`: whether an interrupt is taken, and which.

## Main results

* `access_mie`, `access_mstatus`: what the instructions do to the enables.
-/

namespace Croc

namespace Ibex

open Bootrom (ExcCause)

open Bits (Word)

/-- `priv_lvl_e`. -/
inductive PrivLvl
  | u
  | s
  | h
  | m
  deriving DecidableEq, Repr

namespace PrivLvl

/-- The bits of a privilege level. -/
def encode : PrivLvl → BitVec 2
  | .u => 0b00
  | .s => 0b01
  | .h => 0b10
  | .m => 0b11

/-- The privilege level with given bits. -/
def decode (b : BitVec 2) : PrivLvl :=
  if b = 0b00 then .u else if b = 0b01 then .s else if b = 0b10 then .h else .m

end PrivLvl

/-- `status_t`. -/
structure Status where
  mie : Bool
  mpie : Bool
  mpp : PrivLvl
  mprv : Bool
  tw : Bool
  deriving DecidableEq, Repr

namespace Status

/-- `mstatus` as software reads it. -/
def rdata (s : Status) : Word :=
  0#10 ++ BitVec.ofBool s.tw ++ 0#3 ++ BitVec.ofBool s.mprv ++ 0#4 ++ s.mpp.encode ++ 0#3 ++
    BitVec.ofBool s.mpie ++ 0#3 ++ BitVec.ofBool s.mie ++ 0#3

/-- `mstatus` after a write. There are two privilege levels, and any other becomes U-mode. -/
def ofWdata (w : Word) : Status where
  mie := w.getLsbD 3
  mpie := w.getLsbD 7
  mpp :=
    let mpp := PrivLvl.decode (w.extractLsb' 11 2)
    if mpp ≠ .m ∧ mpp ≠ .u then .u else mpp
  mprv := w.getLsbD 17
  tw := w.getLsbD 21

theorem getLsbD_rdata (s : Status) : s.rdata.getLsbD 3 = s.mie := by
  simp only [rdata, BitVec.getLsbD_append]
  simp

end Status

/-- `irqs_t`. -/
structure Irqs where
  irqSoftware : Bool
  irqTimer : Bool
  irqExternal : Bool
  irqFast : BitVec 15
  deriving DecidableEq, Repr

namespace Irqs

variable (q r : Irqs)

/-- `mie` as software reads it. -/
def rdata : Word :=
  0#1 ++ q.irqFast ++ 0#4 ++ BitVec.ofBool q.irqExternal ++ 0#3 ++ BitVec.ofBool q.irqTimer ++
    0#3 ++ BitVec.ofBool q.irqSoftware ++ 0#3

/-- `mie` after a write. -/
def ofWdata (w : Word) : Irqs where
  irqSoftware := w.getLsbD 3
  irqTimer := w.getLsbD 7
  irqExternal := w.getLsbD 11
  irqFast := w.extractLsb' 16 15

/-- `irqs_o`: the requests that are enabled. -/
def and : Irqs where
  irqSoftware := q.irqSoftware && r.irqSoftware
  irqTimer := q.irqTimer && r.irqTimer
  irqExternal := q.irqExternal && r.irqExternal
  irqFast := q.irqFast &&& r.irqFast

/-- `irq_pending_o`. -/
def pending : Bool := q.irqSoftware || q.irqTimer || q.irqExternal || q.irqFast != 0

/-- `mfip_id`: the lowest fast interrupt. -/
def mfipId (f : BitVec 15) : BitVec 4 :=
  BitVec.ofNat 4 (((List.range 15).find? fun i => f.getLsbD i).getD 0)

/-- `exc_cause_o`, by the priority of the requests. -/
def excCause : ExcCause :=
  if q.irqFast ≠ 0 then ⟨true, false, 1#1 ++ mfipId q.irqFast⟩
  else if q.irqExternal then ⟨true, false, 11⟩
  else if q.irqSoftware then ⟨true, false, 3⟩
  else ⟨true, false, 7⟩

theorem getLsbD_rdata : q.rdata.getLsbD 7 = q.irqTimer := by
  simp only [rdata, BitVec.getLsbD_append]
  simp

end Irqs

/-- The registers that decide about interrupts. -/
structure Csrs where
  /-- `priv_lvl_q`. -/
  privLvl : PrivLvl
  /-- `mstatus_q`. -/
  mstatus : Status
  /-- `mie_q`. -/
  mie : Irqs
  deriving DecidableEq, Repr

/-- The registers that software accesses here. -/
inductive CsrNum
  | mstatus
  | mie
  deriving DecidableEq, Repr

/-- `csr_op_e`. -/
inductive CsrOp
  | read
  | write
  | set
  | clear
  deriving DecidableEq, Repr

/-- What an instruction with the bit `w` in its operand makes of a bit `r` of a register. -/
def CsrOp.bit : CsrOp → Bool → Bool → Bool
  | .read, _, r => r
  | .write, w, _ => w
  | .set, w, r => w || r
  | .clear, w, r => !w && r

namespace Csrs

variable (c : Csrs)

/-! ### Accesses -/

/-- `csr_rdata_o`. -/
def rdata : CsrNum → Word
  | .mstatus => c.mstatus.rdata
  | .mie => c.mie.rdata

/-- `csr_wdata_int`. -/
def wdataInt (op : CsrOp) (wdata rdata : Word) : Word :=
  match op with
  | .set => wdata ||| rdata
  | .clear => ~~~wdata &&& rdata
  | .read | .write => wdata

/-- The registers after a write. -/
def write (w : Word) : CsrNum → Csrs
  | .mstatus => { c with mstatus := Status.ofWdata w }
  | .mie => { c with mie := Irqs.ofWdata w }

/-- An instruction on a register: what it reads, and the registers after it. Both registers are for
M-mode only. -/
def access (op : CsrOp) (n : CsrNum) (wdata : Word) : Option (Word × Csrs) :=
  if c.privLvl = .m then
    some (c.rdata n, if op = .read then c else c.write (wdataInt op wdata (c.rdata n)) n)
  else none

/-! ### Traps -/

/-- `csr_save_cause_i`. -/
def saveCause : Csrs :=
  { c with
    privLvl := .m
    mstatus := { c.mstatus with mie := false, mpie := c.mstatus.mie, mpp := c.privLvl } }

/-- `csr_restore_mret_i`. -/
def restoreMret : Csrs :=
  { c with
    privLvl := c.mstatus.mpp
    mstatus := { c.mstatus with
      mie := c.mstatus.mpie
      mpie := true
      mpp := .u
      mprv := if c.mstatus.mpp ≠ .m then false else c.mstatus.mprv } }

/-- `irq_enabled`. -/
def irqEnabled : Bool := c.mstatus.mie || c.privLvl == .u

/-- `handle_irq`, with the requests on the lines. -/
def handleIrq (mip : Irqs) : Bool := (mip.and c.mie).pending && c.irqEnabled

/-! ### The enables -/

variable {c} {op : CsrOp} {w r : Word} {c' : Csrs}

theorem getLsbD_wdataInt (hop : op ≠ .read) (w r : Word) {i : ℕ} (hi : i < 32) :
    (wdataInt op w r).getLsbD i = op.bit (w.getLsbD i) (r.getLsbD i) := by
  cases op with
  | read => exact absurd rfl hop
  | write => rfl
  | set => exact BitVec.getLsbD_or
  | clear => rw [wdataInt, BitVec.getLsbD_and, BitVec.getLsbD_not, decide_eq_true hi]; rfl

/-- What an access reads, and what it leaves. -/
theorem access_eq {n : CsrNum} (h : c.access op n w = some (r, c')) :
    r = c.rdata n ∧ c' = if op = .read then c else c.write (wdataInt op w (c.rdata n)) n := by
  rw [access] at h
  split at h
  · simpa [eq_comm] using h
  · cases h

/-- **An access to `mie`** leaves `mstatus`, and does to the enable of the timer what it does to any
bit. -/
theorem access_mie (h : c.access op .mie w = some (r, c')) :
    r = c.mie.rdata ∧ c'.mstatus = c.mstatus ∧
      c'.mie.irqTimer = op.bit (w.getLsbD 7) c.mie.irqTimer := by
  obtain ⟨hr, rfl⟩ := access_eq h
  refine ⟨hr, ?_⟩
  split_ifs with hop
  · subst hop
    exact ⟨rfl, rfl⟩
  · refine ⟨rfl, (getLsbD_wdataInt hop w _ (by decide)).trans ?_⟩
    rw [rdata, Irqs.getLsbD_rdata]

/-- **An access to `mstatus`** leaves `mie`, and does to the global enable what it does to any
bit. -/
theorem access_mstatus (h : c.access op .mstatus w = some (r, c')) :
    r = c.mstatus.rdata ∧ c'.mie = c.mie ∧
      c'.mstatus.mie = op.bit (w.getLsbD 3) c.mstatus.mie := by
  obtain ⟨hr, rfl⟩ := access_eq h
  refine ⟨hr, ?_⟩
  split_ifs with hop
  · subst hop
    exact ⟨rfl, rfl⟩
  · refine ⟨rfl, (getLsbD_wdataInt hop w _ (by decide)).trans ?_⟩
    rw [rdata, Status.getLsbD_rdata]

end Csrs

end Ibex

end Croc
