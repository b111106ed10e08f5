import Croc.Idma.ConfigPort

/-!
# The midend and the front of the backend

`idma_nd_midend` takes the oldest job of the FIFO and hands it to the backend as one transfer for
each repetition, the last of them marked. A job without repetitions never reaches the backend; the
midend answers it itself. `idma_backend_rw_obi` in turn answers a transfer of length zero at once.
Every other transfer goes through the data path, which answers in the order in which it was given
the transfers.

The data path is left to its environment: it decides when a transfer is taken and when the oldest
one is finished.

## Main definitions

* `Midend`: the repetition counter and the address pointers.
* `CrocIdma`: the port, the midend and the transfers in flight.
* `CrocIdma.retire`, `CrocIdma.retiredJob`: the pulse that the done counter counts, and the job that
  is finished.
-/

namespace Croc

namespace Idma

open Clocked

open Bits (Word)

/-! ### The midend -/

/-- A transfer for the backend, `idma_req_t`. -/
structure BurstReq where
  /-- `length`. -/
  length : Word
  /-- `src_addr`. -/
  srcAddr : Word
  /-- `dst_addr`. -/
  dstAddr : Word
  /-- `opt.last`: the last transfer of its job. -/
  last : Bool
  deriving DecidableEq, Repr

/-- The registers of `idma_nd_midend` with two dimensions. -/
structure Midend where
  /-- `counter_q` of `i_num_rep_counter`. -/
  counterQ : Word
  /-- `stride_sel_q`: the next transfer is the first of its job. -/
  strideSelQ : Bool
  /-- `src_addr_q`. -/
  srcAddrQ : Word
  /-- `dst_addr_q`. -/
  dstAddrQ : Word
  /-- `burst_sent_q`. -/
  burstSentQ : Bool
  deriving DecidableEq, Repr

namespace Midend

/-- The midend out of reset. -/
def init : Midend := ⟨1, true, 0, 0, false⟩

variable (m : Midend) (job : Option NdReq) (burstReqReady : Bool)

/-- `local_rep`. The job is `nd_req_i`, where `nd_req_valid_i` is set. -/
def localRep : Word := match job with
  | some j => j.reps
  | none => 0

/-- `zero`: the job has no repetitions. -/
def zero : Bool := localRep job == 0

/-- `stage_done[1]`. -/
def stageDone : Bool := if localRep job = 0 then job.isSome else m.counterQ == localRep job

/-- `last`. -/
def last : Bool := job.isSome && m.stageDone job

/-- `nd_req_ready_o`. -/
def ndReqReady : Bool := m.last job && job.isSome && burstReqReady

/-- `burst_req_valid_o`. -/
def burstReqValid : Bool := job.isSome && !zero job

/-- `src_addr_d`. -/
def srcAddr (j : NdReq) : Word :=
  if m.strideSelQ then j.srcAddr
  else if m.burstSentQ then m.srcAddrQ + j.srcStrides else m.srcAddrQ

/-- `dst_addr_d`. -/
def dstAddr (j : NdReq) : Word :=
  if m.strideSelQ then j.dstAddr
  else if m.burstSentQ then m.dstAddrQ + j.dstStrides else m.dstAddrQ

/-- `burst_req_o`, where it is valid. -/
def burstReq : Option BurstReq :=
  match job with
  | some j =>
    if burstReqValid job then some ⟨j.length, m.srcAddr j, m.dstAddr j, m.last job⟩ else none
  | none => none

/-- A job without repetitions is answered by the midend. -/
def zeroTransfer : Bool := zero job && job.isSome && m.ndReqReady job burstReqReady

/-- `nd_rsp_valid_o`. -/
def ndRspValid (burstRspValid burstRspLast : Bool) : Bool :=
  if m.zeroTransfer job burstReqReady then true else burstRspValid && burstRspLast

/-- `burst_rsp_ready_o`. -/
def burstRspReady : Bool := !m.zeroTransfer job burstReqReady

/-- One clock edge. -/
def next : Midend :=
  let stageEn := job.isSome && burstReqReady
  let stageClear := job.isSome && m.stageDone job && burstReqReady
  { counterQ := if stageClear then 1 else if stageEn then m.counterQ + 1 else m.counterQ
    strideSelQ := if job.isSome then stageClear else m.strideSelQ
    srcAddrQ := match job with
      | some j => m.srcAddr j
      | none => m.srcAddrQ
    dstAddrQ := match job with
      | some j => m.dstAddr j
      | none => m.dstAddrQ
    burstSentQ := burstReqValid job && burstReqReady }

end Midend

/-! ### The DMA -/

/-- A transfer in the data path: the job it belongs to, counted from reset, and the `super_last`
flag that `i_w_last` keeps of it. -/
structure Burst where
  /-- The number of the job. -/
  job : ℕ
  /-- `super_last`. -/
  last : Bool
  deriving DecidableEq, Repr

/-- The inputs of the DMA in one cycle. -/
structure IdmaIn where
  /-- The request on the configuration port. -/
  cfg : CfgReq
  /-- `req_ready_o` of the backend: a transfer is taken. -/
  reqReady : Bool
  /-- The data path has finished its oldest transfer. -/
  dpRspValid : Bool
  deriving DecidableEq, Repr, Inhabited

/-- The state of the DMA. -/
structure CrocIdma where
  /-- The configuration port. -/
  port : ConfigPort
  /-- The midend. -/
  midend : Midend
  /-- The transfers in the data path, oldest first. -/
  inFlight : List Burst
  /-- The number of jobs that have left the FIFO. -/
  issued : ℕ
  deriving DecidableEq

namespace CrocIdma

/-- The DMA out of reset. -/
def init : CrocIdma := ⟨ConfigPort.init, Midend.init, [], 0⟩

variable (s : CrocIdma) (i : IdmaIn)

/-- The job at the head of the FIFO. -/
def head : Option NdReq := s.port.jobs.store.items.head?

/-- The transfer that the midend offers. -/
def burst : Option BurstReq := s.midend.burstReq s.head

/-- A transfer of length zero is answered by the backend. -/
def lengthZero : Bool := match s.burst with
  | some b => b.length == 0 && i.reqReady
  | none => false

/-- A job without repetitions is answered by the midend. -/
def zeroTransfer : Bool := s.midend.zeroTransfer s.head i.reqReady

/-- The data path is heard: its answer is neither missing nor held back by another one. -/
def dpRsp : Option Burst :=
  if i.dpRspValid && !s.lengthZero i && !s.zeroTransfer i then s.inFlight.head? else none

/-- `rsp_valid_o` of the backend with its `last` flag. A transfer of length zero is always answered
as a last one. -/
def burstRsp : Bool × Bool :=
  if s.lengthZero i then (true, true)
  else match s.inFlight.head? with
    | some b => (i.dpRspValid, b.last)
    | none => (false, false)

/-- `retire`. -/
def retire : Bool := s.midend.ndRspValid s.head i.reqReady (s.burstRsp i).1 (s.burstRsp i).2

/-- `nd_req_ready`. -/
def ndReqReady : Bool := s.midend.ndReqReady s.head i.reqReady

/-- What the data path takes in. -/
def accepted : List Burst := match s.burst with
  | some b => if i.reqReady && b.length != 0 then [⟨s.issued, b.last⟩] else []
  | none => []

/-- The inputs of the port. -/
def portIn : PortIn := ⟨i.cfg, s.ndReqReady i, s.retire i⟩

/-- One clock edge. -/
def next : CrocIdma where
  port := s.port.next (s.portIn i)
  midend := s.midend.next s.head i.reqReady
  inFlight := s.inFlight.drop (s.dpRsp i).isSome.toNat ++ s.accepted i
  issued := s.issued + (s.port.issue (s.ndReqReady i)).toNat

/-- The DMA as a machine. -/
def machine : Machine CrocIdma IdmaIn := ⟨init, next⟩

/-- The job whose last transfer is answered, or which is answered without one. -/
def retiredJob : Option ℕ :=
  if s.zeroTransfer i then some s.issued
  else if s.lengthZero i then if s.midend.last s.head then some s.issued else none
  else match s.dpRsp i with
    | some b => if b.last then some b.job else none
    | none => none

/-! ### The driver -/

/-- `idma_launch`: the identifiers that the launches before cycle `t` returned, in order. -/
def launches (ins : ℕ → IdmaIn) (t : ℕ) : List Word :=
  machine.log ins (fun s _ => if s.port.jobReqValid then [s.port.nextQ] else []) t

/-- The jobs that have retired before cycle `t`, in order. -/
def retired (ins : ℕ → IdmaIn) (t : ℕ) : List ℕ :=
  machine.log ins (fun s i => (s.retiredJob i).toList) t

/-- `idma_is_done`, from a value of `DONE_ID`. -/
def isDone (doneId jobId : Word) : Bool := decide (jobId ≤ doneId)

end CrocIdma

end Idma

end Croc
