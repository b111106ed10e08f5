import Croc.Lib.Bits

/-!
# A register block behind the bus

The request and the response of a subordinate port of the open bus interface, with a data path of
32 bits and identifiers of four. A write has one enable for each byte; a block expands the enables
to a mask of bits and merges the data into its register under the mask.

## Main definitions

* `ObiReq`, `ObiRsp`: what goes over the port in a cycle.
* `ObiReq.beMask`: the byte enables as a mask.
* `ObiReq.masked`, `ObiReq.maskedBit`: a register, or a bit of one, after a write.
* `bitWord`: a bit as it is read.

## Main results

* `ObiReq.getLsbD_beMask`: a bit is in the mask if its byte is enabled.
* `ObiReq.masked_of_full`: a write of all bytes replaces the register.
-/

namespace ObiPort

open Bits (Word)

/-- A request, `obi_req_i`. -/
structure ObiReq where
  /-- `req`. -/
  req : Bool
  /-- `a.addr`. -/
  addr : Word
  /-- `a.we`. -/
  we : Bool
  /-- `a.be`. -/
  be : BitVec 4
  /-- `a.wdata`. -/
  wdata : Word
  /-- `a.aid`. -/
  aid : BitVec 4
  deriving DecidableEq, Repr, Inhabited

/-- A response, `obi_rsp_o`. -/
structure ObiRsp where
  /-- `gnt`. -/
  gnt : Bool
  /-- `rvalid`. -/
  rvalid : Bool
  /-- `r.rdata`. -/
  rdata : Word
  /-- `r.rid`. -/
  rid : BitVec 4
  /-- `r.err`. -/
  err : Bool
  deriving DecidableEq, Repr

namespace ObiReq

variable (q : ObiReq)

/-- `be_mask`. -/
def beMask : Word := Bits.byteMask q.be

/-- A register after a write that keeps the bytes left out,
`(old & ~be_mask) | (wdata & be_mask)`. -/
def masked (old : Word) : Word := (old &&& ~~~q.beMask) ||| (q.wdata &&& q.beMask)

/-- The same for bit `i` of a register. -/
def maskedBit (old : Bool) (i : ℕ) : Bool :=
  (old && !q.beMask.getLsbD i) || (q.wdata.getLsbD i && q.beMask.getLsbD i)

variable {q}

/-- A bit is in the mask if its byte is enabled. -/
theorem getLsbD_beMask {i : ℕ} (hi : i < 32) : q.beMask.getLsbD i = q.be.getLsbD (i / 8) :=
  Bits.getLsbD_byteMask q.be hi

/-- A write of all bytes replaces the register. -/
theorem masked_of_full (h : q.be = 0xf) (old : Word) : q.masked old = q.wdata := by
  have hmask : q.beMask = BitVec.allOnes 32 := by
    rw [beMask, h]
    decide
  rw [masked, hmask, BitVec.and_allOnes, BitVec.not_allOnes, BitVec.and_zero, BitVec.zero_or]

end ObiReq

/-- A bit as it is read, `{31'h0, b}`. -/
def bitWord (b : Bool) : Word := (BitVec.ofBool b).setWidth 32

end ObiPort
