import Croc.Lib.ObiPort

/-!
# The GPIO registers

`gpio_reg_top` is the register file of the GPIO block. It grants every request. A write acts in the
cycle of its request, a read in the cycle of its response, one later, so a write and the read before
it meet in one cycle.

The interrupt status cannot be written. It collects what the pins report, and a read of it returns
what has been collected and starts again with what the pins report in the cycle of the response.

## Main definitions

* `Fields`: the registers.
* `Hw2reg`: what the pins report in a cycle.
* `Setting`: the registers that only the bus writes and that decide which edges count.
* `RegTop`, `RegTop.next`, `RegTop.obiRsp`: the register file and its port.

## Main results

* `RegTop.setting_next`: a bit of such a register after an edge.
* `RegTop.intrpt_next`: the interrupt status after an edge.
* `RegTop.read_status`: what a read of the interrupt status returns.
-/

namespace Croc

namespace Pins

open ObiPort

open Bits (Word)

/-! ### Addresses -/

/-- `GPIO_DIR_OFFSET`. -/
def dirOffset : BitVec 12 := 0x000
/-- `GPIO_EN_OFFSET`. -/
def enOffset : BitVec 12 := 0x080
/-- `GPIO_IN_OFFSET`. -/
def inOffset : BitVec 12 := 0x100
/-- `GPIO_OUT_OFFSET`. -/
def outOffset : BitVec 12 := 0x180
/-- `GPIO_TOGGLE_OFFSET`. -/
def toggleOffset : BitVec 12 := 0x200
/-- `GPIO_INTRPT_EN_OFFSET`. -/
def intrptEnOffset : BitVec 12 := 0x280
/-- `GPIO_INTRPT_STATUS_OFFSET`. -/
def intrptStatusOffset : BitVec 12 := 0x300
/-- `GPIO_INTRPT_EDGE_OFFSET`. -/
def intrptEdgeOffset : BitVec 12 := 0x380

/-- The word address of a request, `addr[11:2]`. -/
def wordAddr (q : ObiReq) : BitVec 10 := q.addr.extractLsb' 2 10

/-- A word address as an offset. -/
def offsetOf (a : BitVec 10) : BitVec 12 := a ++ 0#2

/-- `obi_write_request`. -/
def writeRequest (q : ObiReq) : Bool := q.req && q.we

/-! ### Registers -/

section Fields

variable {n : ℕ}

/-- `gpio_reg_fields_t`, for `n` pins. -/
structure Fields (n : ℕ) where
  /-- Direction, set for an output. -/
  dir : BitVec n
  /-- Enable. -/
  en : BitVec n
  /-- Input. -/
  inp : BitVec n
  /-- Output. -/
  out : BitVec n
  /-- Toggle, which clears itself. -/
  toggle : BitVec n
  /-- Interrupt enable. -/
  intrptEn : BitVec n
  /-- Interrupt status. -/
  intrpt : BitVec n
  /-- Interrupt edge, set for a rising one. -/
  intrptEdge : BitVec n
  deriving DecidableEq, Repr, Inhabited

/-- `gpio_hw2reg_t`, one bit for each pin. -/
structure Hw2reg (n : ℕ) where
  /-- `sync_in`. -/
  syncIn : BitVec n
  /-- `out`. -/
  out : BitVec n
  /-- `out_valid`. -/
  outValid : BitVec n
  /-- `intrpt`. -/
  intrpt : BitVec n
  /-- `intrpt_valid`. -/
  intrptValid : BitVec n
  deriving DecidableEq, Repr

/-- A register after a write, `(~bit_mask & old) | (bit_mask & wdata)`. -/
def masked (q : ObiReq) (old : BitVec n) : BitVec n :=
  (~~~q.beMask.setWidth n &&& old) ||| (q.beMask.setWidth n &&& q.wdata.setWidth n)

/-- `toggle_out`: the outputs that a write asks to toggle. -/
def toggleOut (q : ObiReq) : BitVec n :=
  if writeRequest q && offsetOf (wordAddr q) == toggleOffset then
    q.beMask.setWidth n &&& q.wdata.setWidth n
  else 0

/-- `new_reg`: the registers after a cycle without a request. -/
def Fields.newReg (r : Fields n) (hw : Hw2reg n) : Fields n :=
  { r with
    inp := hw.syncIn
    toggle := 0
    out := Bits.ofFn fun idx =>
      if hw.outValid.getLsbD idx then hw.out.getLsbD idx else r.out.getLsbD idx
    intrpt := Bits.ofFn fun idx =>
      if hw.intrptValid.getLsbD idx then hw.intrpt.getLsbD idx else r.intrpt.getLsbD idx }

/-- `new_intrpt`: the interrupts of this cycle. -/
def Hw2reg.newIntrpt (hw : Hw2reg n) : BitVec n :=
  Bits.ofFn fun idx => hw.intrptValid.getLsbD idx && hw.intrpt.getLsbD idx

/-- The registers after a write, and whether it hit none of them. -/
def Fields.write (r : Fields n) (q : ObiReq) : Fields n × Bool :=
  let offset := offsetOf (wordAddr q)
  if writeRequest q then
    if offset = dirOffset then ({ r with dir := masked q r.dir }, false)
    else if offset = enOffset then ({ r with en := masked q r.en }, false)
    else if offset = outOffset then ({ r with out := masked q r.out }, false)
    -- the toggle goes through the pins and comes back as a new output
    else if offset = toggleOffset then (r, false)
    else if offset = intrptEnOffset then ({ r with intrptEn := masked q r.intrptEn }, false)
    else if offset = intrptEdgeOffset then ({ r with intrptEdge := masked q r.intrptEdge }, false)
    else (r, true)
  else (r, false)

/-- The registers that decide which edges count. -/
inductive Setting where
  | dir
  | en
  | intrptEn
  | intrptEdge
  deriving DecidableEq, Repr

/-- The offset of a setting. -/
def Setting.offset : Setting → BitVec 12
  | .dir => dirOffset
  | .en => enOffset
  | .intrptEn => intrptEnOffset
  | .intrptEdge => intrptEdgeOffset

/-- The register of a setting. -/
def Fields.setting (r : Fields n) : Setting → BitVec n
  | .dir => r.dir
  | .en => r.en
  | .intrptEn => r.intrptEn
  | .intrptEdge => r.intrptEdge

/-- The request writes the register of a setting. -/
def writesSetting (q : ObiReq) (c : Setting) : Bool :=
  writeRequest q && offsetOf (wordAddr q) == c.offset

/-- A write takes the bits of the enabled bytes from the bus and keeps the others. -/
theorem getLsbD_masked (q : ObiReq) (old : BitVec n) {idx : ℕ} (hidx : idx < n) (h32 : idx < 32) :
    (masked q old).getLsbD idx =
      if q.be.getLsbD (idx / 8) then q.wdata.getLsbD idx else old.getLsbD idx := by
  rw [masked, BitVec.getLsbD_or, BitVec.getLsbD_and, BitVec.getLsbD_and, BitVec.getLsbD_not,
    BitVec.getLsbD_setWidth, BitVec.getLsbD_setWidth, ObiReq.getLsbD_beMask h32]
  cases q.be.getLsbD (idx / 8) <;> simp [hidx]

theorem Fields.setting_write (r : Fields n) (q : ObiReq) (c : Setting) :
    (r.write q).1.setting c = if writesSetting q c then masked q (r.setting c)
      else r.setting c := by
  rw [writesSetting]
  by_cases hoff : offsetOf (wordAddr q) = c.offset
  · rw [Fields.write, hoff, beq_self_eq_true, Bool.and_true]
    cases writeRequest q <;> cases c <;> rfl
  · rw [beq_eq_false_iff_ne.mpr hoff, Bool.and_false, if_neg Bool.false_ne_true, Fields.write]
    simp only [apply_ite Prod.fst, apply_ite (Fields.setting · c)]
    cases c <;> simp only [Fields.setting, Setting.offset] at hoff ⊢ <;>
      simp only [if_neg hoff, ite_self]

/-- A write does not touch the interrupt status. -/
theorem Fields.intrpt_write (r : Fields n) (q : ObiReq) : (r.write q).1.intrpt = r.intrpt := by
  simp only [Fields.write]
  split_ifs <;> rfl

end Fields

/-! ### The register file -/

/-- The state of `gpio_reg_top`. -/
structure RegTop (n : ℕ) where
  /-- `reg_q`. -/
  reg : Fields n
  /-- `id_q`. The block is built with identifiers of one bit, whatever the bus has. -/
  idQ : BitVec 1
  /-- `valid_q`. -/
  validQ : Bool
  /-- `read_addr_q`. -/
  readAddrQ : BitVec 10
  /-- `req_q`. -/
  reqQ : Bool
  /-- `we_q`. -/
  weQ : Bool
  /-- `w_err_q`. -/
  wErrQ : Bool
  deriving DecidableEq, Repr

namespace RegTop

variable {n : ℕ} (s : RegTop n)

/-- The register file out of reset. -/
def init : RegTop n := ⟨⟨0, 0, 0, 0, 0, 0, 0, 0⟩, 0, false, 0, false, false, false⟩

/-- `obi_read_request`. -/
def readRequest : Bool := s.reqQ && !s.weQ

/-- `obi_rdata`, `obi_err`. -/
def read : Word × Bool :=
  let offset := offsetOf s.readAddrQ
  if s.readRequest then
    if offset = dirOffset then (s.reg.dir.setWidth 32, false)
    else if offset = enOffset then (s.reg.en.setWidth 32, false)
    else if offset = inOffset then (s.reg.inp.setWidth 32, false)
    else if offset = outOffset then (s.reg.out.setWidth 32, false)
    else if offset = toggleOffset then (0, false)
    else if offset = intrptEnOffset then (s.reg.intrptEn.setWidth 32, false)
    else if offset = intrptStatusOffset then (s.reg.intrpt.setWidth 32, false)
    else if offset = intrptEdgeOffset then (s.reg.intrptEdge.setWidth 32, false)
    else (0xBADCAB1E, true)
  else (0, s.wErrQ)

/-- The interrupt status is being read. -/
def statusRead : Bool := s.readRequest && offsetOf s.readAddrQ == intrptStatusOffset

/-- `obi_rsp_o`. -/
def obiRsp : ObiRsp := ⟨true, s.validQ, s.read.1, s.idQ.setWidth 4, s.read.2⟩

/-- One clock edge. -/
def next (q : ObiReq) (hw : Hw2reg n) : RegTop n where
  reg :=
    let written := ((s.reg.newReg hw).write q).1
    -- clear read interrupts, immediately set new interrupts
    if s.statusRead then { written with intrpt := hw.newIntrpt } else written
  idQ := q.aid.setWidth 1
  validQ := q.req
  readAddrQ := wordAddr q
  reqQ := q.req
  weQ := q.we
  wErrQ := ((s.reg.newReg hw).write q).2

variable {s} {q : ObiReq} {hw : Hw2reg n}

/-- **A setting** after an edge: an enabled byte of a write replaces its bits, and nothing else
does. -/
theorem setting_next (c : Setting) {idx : ℕ} (hidx : idx < n) (h32 : idx < 32) :
    ((s.next q hw).reg.setting c).getLsbD idx =
      if writesSetting q c && q.be.getLsbD (idx / 8) then q.wdata.getLsbD idx
      else (s.reg.setting c).getLsbD idx := by
  have hclear : (s.next q hw).reg.setting c = (((s.reg.newReg hw).write q).1).setting c := by
    rw [next]
    cases s.statusRead <;> cases c <;> rfl
  have hpins : (s.reg.newReg hw).setting c = s.reg.setting c := by cases c <;> rfl
  rw [hclear, Fields.setting_write, hpins]
  cases writesSetting q c with
  | false => rfl
  | true => rw [if_pos rfl, getLsbD_masked q _ hidx h32, Bool.true_and]

/-- **The interrupt status.** A bit is set after an edge if its pin reports an interrupt, or if it
was set before and is not being read. -/
theorem intrpt_next (h : hw.intrptValid = hw.intrpt) {idx : ℕ} (hidx : idx < n) :
    (s.next q hw).reg.intrpt.getLsbD idx =
      (hw.intrpt.getLsbD idx || s.reg.intrpt.getLsbD idx && !s.statusRead) := by
  simp only [next]
  cases s.statusRead with
  | true =>
    simp only [if_true, Hw2reg.newIntrpt, h, Bits.getLsbD_ofFn, decide_eq_true hidx, Bool.and_self,
      Bool.true_and, Bool.not_true, Bool.and_false, Bool.or_false]
  | false =>
    simp only [Bool.false_eq_true, if_false, Fields.intrpt_write, Fields.newReg, h,
      Bits.getLsbD_ofFn]
    cases hw.intrpt.getLsbD idx <;> simp [hidx]

/-- **A read of the interrupt status** returns it, without an error. -/
theorem read_status (h : s.statusRead = true) : s.read = (s.reg.intrpt.setWidth 32, false) := by
  obtain ⟨hreq, hoff⟩ := Bool.and_eq_true_iff.mp h
  rw [read, if_pos hreq, beq_iff_eq.mp hoff]
  rfl

end RegTop

end Pins

end Croc
