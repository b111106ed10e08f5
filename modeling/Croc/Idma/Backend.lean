import Croc.Lib.ByteMemory
import Croc.Cells.Streams
import Croc.Idma.Legalizer

/-!
# The backend

`idma_backend_rw_obi` moves the bytes. The legalizer gives out beats for both sides. On the read
side their addresses go to the bus through a fall-through register, and the answers are rotated and
dealt to four lanes of bytes (`idma_obi_read`, `idma_dataflow_element`). On the write side a beat
waits until all its lanes hold a byte; these are rotated to their places in the destination word and
written (`idma_obi_write`). The answers to the writes are counted off against the marks of the
beats, and the answer to the last beat of a transfer finishes it. The two ports have no
back-pressure on their answers, so each has a converter that holds a request back until there is
room for its answer.

What an empty FIFO shows at its output is left open, as an input of the cycle.

## Main definitions

* `DpReq.mask`, `rotateMask`, `rotateBytes`: which bytes a beat has, and the barrel shifters.
* `Backend`, `BackendIn`: the registers and the inputs of a cycle.
* `Backend.next`: one clock edge.
* `Backend.readReq`, `Backend.writeReq`, `Backend.report`: what goes out to the two ports and to the
  midend.
-/

namespace Croc

namespace Idma

open Clocked ByteMemory

open Bits (Word)

/-! ### Masks and shifters -/

/-- `read_aligned_in_mask`, `mask_out`: the bytes of the word that belong to the beat. -/
def DpReq.mask (q : DpReq) : BitVec 4 :=
  (BitVec.allOnes 4 <<< q.offset.toNat) &&&
    if q.tailer ≠ 0 then BitVec.allOnes 4 >>> (4 - q.tailer.toNat) else BitVec.allOnes 4

/-- `{m, m} >> shift`. -/
def rotateMask (m : BitVec 4) (shift : Offset) : BitVec 4 := ((m ++ m) >>> shift.toNat).setWidth 4

/-- `{d, d} >> (shift * 8)`. -/
def rotateBytes (d : Word) (shift : Offset) : Word := ((d ++ d) >>> (shift.toNat * 8)).setWidth 32

/-- The bit of a mask for a byte position or lane. -/
def maskBit (m : BitVec 4) (p : Offset) : Bool := m.getLsbD p.toNat

/-! ### State and inputs -/

/-- A write on the bus. -/
structure Write where
  /-- `addr`. -/
  addr : Word
  /-- `be`. -/
  be : BitVec 4
  /-- `wdata`. -/
  wdata : Word
  deriving DecidableEq, Repr

/-- What the FIFOs show while they are empty. -/
structure Stale where
  /-- `r_dp_req_out`. -/
  rDp : DpReq
  /-- `w_dp_req_out`. -/
  wDp : DpReq
  /-- `{w_super_last, w_last_burst}`. -/
  marks : Bool × Bool
  /-- `buffer_out`. -/
  lanes : Offset → BitVec 8

/-- The inputs of the backend in one cycle. -/
structure BackendIn where
  /-- `idma_req_i`, where `req_valid_i` is set. -/
  req : Option BurstReq
  /-- `rsp_ready_i`. -/
  rspReady : Bool
  /-- `gnt` of the read port. -/
  rGnt : Bool
  /-- `rdata` of the read port, where `rvalid` is set. -/
  rRsp : Option Word
  /-- `gnt` of the write port. -/
  wGnt : Bool
  /-- `rvalid` of the write port. -/
  wRsp : Option Unit
  /-- What the FIFOs show while they are empty. -/
  stale : Stale

/-- The registers of `idma_backend_rw_obi` and of the two converters behind it. -/
structure Backend where
  /-- `i_idma_legalizer`. -/
  legalizer : Legalizer
  /-- `i_r_dp_req`. -/
  rDpReqs : StreamFifo DpReq 2
  /-- `i_w_dp_req`. -/
  wDpReqs : StreamFifo DpReq 2
  /-- `i_ar_fall_through_register`. -/
  arReg : FallThroughFifo Word 1
  /-- `i_aw_fifo`. -/
  awFifo : StreamFifo Word 2
  /-- `i_w_last`. -/
  wLast : StreamFifo (Bool × Bool) 5
  /-- `i_dataflow_element`. -/
  lanes : Offset → PassthroughStreamFifo (BitVec 8) 3
  /-- `i_obi_rready_converter_read`. -/
  rConv : RreadyConverter Word
  /-- `i_obi_rready_converter_write`. -/
  wConv : RreadyConverter Unit

namespace Backend

/-- The backend out of reset. -/
def init : Backend where
  legalizer := Legalizer.init
  rDpReqs := StreamFifo.init
  wDpReqs := StreamFifo.init
  arReg := FallThroughFifo.init
  awFifo := StreamFifo.init
  wLast := StreamFifo.init
  lanes := fun _ => PassthroughStreamFifo.init
  rConv := RreadyConverter.init
  wConv := RreadyConverter.init

variable (s : Backend) (i : BackendIn)

/-! ### Requests -/

/-- `r_ready`. -/
def rReady : Bool := s.rDpReqs.readyO && s.arReg.readyO

/-- `w_ready`. -/
def wReady : Bool := s.wDpReqs.readyO && s.awFifo.readyO && s.wLast.readyO

/-- `req_ready_o`. -/
def reqReady : Bool := s.legalizer.readyO s.rReady s.wReady

/-- A transfer of length zero is answered at once. -/
def lengthZero : Bool := match i.req with
  | some q => q.length == 0 && s.reqReady
  | none => false

/-- What the legalizer is offered: `idma_req_i`, where `req_valid` is set. -/
def legReq : Option BurstReq := match i.req with
  | some q => if q.length = 0 then none else some q
  | none => none

/-- The transfer that is taken. -/
def taken : Option BurstReq := s.legalizer.taken (legReq i) s.rReady s.wReady

/-- `rsp_ready`: not while a transfer of length zero is answered. -/
def rspReady : Bool := i.rspReady && !s.lengthZero i

/-- `r_valid`. -/
def rValid : Bool := s.legalizer.rValidO s.rReady s.wReady

/-- `w_valid`. -/
def wValid : Bool := s.legalizer.wValidO s.rReady s.wReady

/-- `r_dp_req_out`. -/
def rDp : DpReq := s.rDpReqs.store.items.headD i.stale.rDp

/-- `w_dp_req_out`. -/
def wDp : DpReq := s.wDpReqs.store.items.headD i.stale.wDp

/-- The address offered to the fall-through register. -/
def arOffer : Option Word := if s.rValid then some s.legalizer.arReq else none

/-- `ar_req_dp`, where `ar_valid_dp` is set. -/
def arDp : Option Word := s.arReg.out s.arOffer

/-- `aw_req_dp`, where `aw_valid_dp` is set. -/
def awDp : Option Word := s.awFifo.store.items.head?

/-! ### Writing -/

/-- `buffer_out_valid`. -/
def bufferOutValid : BitVec 4 := Bits.ofFn fun k => (s.lanes (BitVec.ofNat 2 k)).validO

/-- `buffer_out` of one lane. -/
def laneOut (l : Offset) : BitVec 8 := (s.lanes l).store.items.headD (i.stale.lanes l)

/-- `buffer_out`. -/
def bufferOut : Word := s.laneOut i 3 ++ s.laneOut i 2 ++ s.laneOut i 1 ++ s.laneOut i 0

/-- `buffer_out_valid_shifted`. -/
def outValid : BitVec 4 := rotateMask s.bufferOutValid (s.wDp i).shift

/-- `ready_to_write`. -/
def readyToWrite : Bool :=
  s.awDp.isSome && s.wDpReqs.validO && (s.outValid i &&& (s.wDp i).mask) == (s.wDp i).mask &&
    s.outValid i != 0

/-- `w_dp_rsp_valid`: `rvalid` behind the converter. -/
def wDpRspValid : Bool := (s.wConv.out i.wRsp).isSome

/-- `write_happening`. -/
def writeHappening : Bool := s.readyToWrite i && s.wConv.gntO true i.wRsp (s.rspReady i) i.wGnt

/-- `buffer_out_ready`. -/
def bufferOutReady : BitVec 4 := if s.writeHappening i then (s.wDp i).mask else 0

/-- `buffer_out_ready_shifted`. -/
def outReady : BitVec 4 := rotateMask (s.bufferOutReady i) (-(s.wDp i).shift)

/-- The write on the port: `obi_write_req_o`, where `req` is set. -/
def writeReq : Option Write :=
  match s.awDp with
  | some addr =>
    if s.wConv.reqO true i.wRsp (s.rspReady i) (s.readyToWrite i) then
      some ⟨addr, (s.wDp i).mask,
        rotateBytes (s.bufferOut i) (s.wDp i).shift &&& Bits.byteMask (s.wDp i).mask⟩
    else none
  | none => none

/-! ### Reading -/

/-- `mask_in`. -/
def maskIn : BitVec 4 := rotateMask (s.rDp i).mask (s.rDp i).shift

/-- `in_ready`. -/
def inReady : Bool :=
  decide (∀ l : Offset,
    ((s.lanes l).readyO (maskBit (s.outReady i) l) || !maskBit (s.maskIn i) l) = true)

/-- `rready` of the read port. -/
def rRready : Bool := s.inReady i && s.rspReady i

/-- `rdata`, where `rvalid` is set, behind the converter. -/
def rOut : Option Word := s.rConv.out i.rRsp

/-- `buffer_in_shifted`, where `in_valid` is set. -/
def bufferIn : Option Word :=
  if s.rRready i then (s.rOut i).map (rotateBytes · (s.rDp i).shift) else none

/-- What a lane is pushed. -/
def lanePush (l : Offset) : Option (BitVec 8) :=
  if maskBit (s.maskIn i) l then (s.bufferIn i).map (byteOf · l.toNat) else none

/-- `r_dp_req_out_ready`. -/
def rDpReady : Bool := s.rDpReqs.validO && s.rspReady i && (s.rOut i).isSome && s.inReady i

/-- The read on the port: the address of `obi_read_req_o`, where `req` is set. -/
def readReq : Option Word :=
  match s.arDp with
  | some addr => if s.rConv.reqO false i.rRsp (s.rRready i) true then some addr else none
  | none => none

/-! ### Answers -/

/-- `{w_super_last, w_last_burst}`. -/
def marks : Bool × Bool := s.wLast.store.items.headD i.stale.marks

/-- `rsp_valid`, without the answer to a transfer of length zero. -/
def dpRspValid : Bool := s.wDpRspValid i && (s.marks i).2

/-- The answer of the data path that is heard in this cycle: `last` of `idma_rsp`. -/
def report : Option Bool := if s.dpRspValid i && s.rspReady i then some (s.marks i).1 else none

/-! ### The clock edge -/

/-- One clock edge. -/
def next : Backend where
  legalizer := s.legalizer.next (legReq i) s.rReady s.wReady
  rDpReqs := s.rDpReqs.next s.rValid s.legalizer.rDpReq (s.rDpReady i)
  wDpReqs := s.wDpReqs.next s.wValid s.legalizer.wDpReq (s.writeHappening i)
  arReg := s.arReg.next s.arOffer (s.rConv.gntO false i.rRsp (s.rRready i) i.rGnt)
  awFifo := s.awFifo.next (s.wValid && s.awFifo.readyO) s.legalizer.awReq
    (s.writeHappening i && s.awDp.isSome)
  wLast := s.wLast.next (s.wValid && s.wReady) (s.legalizer.optTf.superLast, s.legalizer.wDone)
    (s.wDpRspValid i && s.rspReady i)
  lanes := fun l => (s.lanes l).next (s.lanePush i l) (maskBit (s.outReady i) l)
  rConv := s.rConv.next false i.rRsp (s.rRready i) s.arDp.isSome i.rGnt
  wConv := s.wConv.next true i.wRsp (s.rspReady i) (s.readyToWrite i) i.wGnt

/-- The backend as a machine. -/
def machine : Machine Backend BackendIn := ⟨init, next⟩

end Backend

end Idma

end Croc
