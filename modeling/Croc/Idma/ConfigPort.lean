import Croc.Cells
import Croc.Lib.Bits
import Croc.Lib.Clocked

/-!
# The configuration port of the DMA

`croc_idma` is configured over an OBI port. A job is described in registers and launched by a read
of `NEXT_ID`: the read returns an identifier and puts the job into a FIFO with room for two.

The port decides on a request in one cycle and acts on it in the next. The grant of a launch looks
at the room in the FIFO when the read is requested, while the job is offered to the FIFO a cycle
later, from a request bit that is stored whether the request was granted or not.

## Main definitions

* `Regs`, `Regs.write`, `ConfigPort.read`: the registers.
* `idCount`: the two counters of `idma_transfer_id_gen`.
* `ConfigPort`: the port with the job FIFO and the counters.
* `ConfigPort.grants`, `ConfigPort.enqueues`: a launch is granted, a job enters the FIFO.
* `ConfigPort.accepted`, `ConfigPort.responded`: the requests accepted and the responses given so
  far.

## Main results

* `ConfigPort.room_next`: when the room in the FIFO changes.
* `ConfigPort.launch_exactlyOnce_iff`: a launch and its job go together in every cycle but those in
  which the room changes between request and response.
* `ConfigPort.response_exactlyOnce_iff`: an accepted request and its response go together in every
  cycle but those in which a request for `NEXT_ID` finds the FIFO full.
-/

namespace Croc

namespace Idma

open Clocked

open Bits (Word)

/-! ### Registers -/

/-- `obi_cfg_req_i`. -/
structure CfgReq where
  /-- `req`. -/
  req : Bool
  /-- `a.addr`. -/
  addr : Word
  /-- `a.we`. -/
  we : Bool
  /-- `a.be`. -/
  be : BitVec 4
  /-- `a.wdata`. -/
  wdata : Word
  /-- `a.aid`. -/
  aid : BitVec 4
  deriving DecidableEq, Repr, Inhabited

/-- `obi_cfg_rsp_o`. -/
structure CfgRsp where
  /-- `gnt`. -/
  gnt : Bool
  /-- `rvalid`. -/
  rvalid : Bool
  /-- `r.rdata`. -/
  rdata : Word
  /-- `r.rid`. -/
  rid : BitVec 4
  /-- `r.err`. -/
  err : Bool
  deriving DecidableEq, Repr

/-- `word_addr_d`. -/
def CfgReq.wordAddr (r : CfgReq) : BitVec 9 := r.addr.setWidth 9

/-- `ConfOffset`. -/
def confOffset : BitVec 9 := 0x00
/-- `NextIdOffset`. -/
def nextIdOffset : BitVec 9 := 0x44
/-- `DoneIdOffset`. -/
def doneIdOffset : BitVec 9 := 0x84
/-- `DstAddrOffset`. -/
def dstAddrOffset : BitVec 9 := 0xd0
/-- `SrcAddrOffset`. -/
def srcAddrOffset : BitVec 9 := 0xd8
/-- `LengthOffset`. -/
def lengthOffset : BitVec 9 := 0xe0
/-- `DstStride2Offset`. -/
def dstStride2Offset : BitVec 9 := 0xe8
/-- `SrcStride2Offset`. -/
def srcStride2Offset : BitVec 9 := 0xf0
/-- `Reps2Offset`. -/
def reps2Offset : BitVec 9 := 0xf8

/-- The registers that describe a job. -/
structure Regs where
  /-- `nd_ena_q`. -/
  ndEna : Bool
  /-- `src_addr_q`. -/
  srcAddr : Word
  /-- `dst_addr_q`. -/
  dstAddr : Word
  /-- `tf_len_q`. -/
  tfLen : Word
  /-- `src_str_q`. -/
  srcStr : Word
  /-- `dst_str_q`. -/
  dstStr : Word
  /-- `num_rep_q`. -/
  numRep : Word
  deriving DecidableEq, Repr, Inhabited

/-- `obi_reg_write`: the registers after a write, and whether it hit none of them. -/
def Regs.write (r : Regs) (q : CfgReq) : Regs × Bool :=
  let merge (old : Word) : Word := Bits.mergeBytes old q.wdata q.be
  if q.we && q.req then
    if q.wordAddr = confOffset then
      -- the old bit is kept under the byte mask of bit 0, the new one comes from bit 11
      ({ r with ndEna := (!q.be.getLsbD 0 && r.ndEna) || (q.be.getLsbD 1 && q.wdata.getLsbD 11) },
        false)
    else if q.wordAddr = dstAddrOffset then ({ r with dstAddr := merge r.dstAddr }, false)
    else if q.wordAddr = srcAddrOffset then ({ r with srcAddr := merge r.srcAddr }, false)
    else if q.wordAddr = lengthOffset then ({ r with tfLen := merge r.tfLen }, false)
    else if q.wordAddr = dstStride2Offset then ({ r with dstStr := merge r.dstStr }, false)
    else if q.wordAddr = srcStride2Offset then ({ r with srcStr := merge r.srcStr }, false)
    else if q.wordAddr = reps2Offset then ({ r with numRep := merge r.numRep }, false)
    else (r, true)
  else (r, false)

/-- `idma_nd_req_t`: a job, as far as it is not constant. -/
structure NdReq where
  /-- `burst_req.length`. -/
  length : Word
  /-- `burst_req.src_addr`. -/
  srcAddr : Word
  /-- `burst_req.dst_addr`. -/
  dstAddr : Word
  /-- `d_req[0].reps`. -/
  reps : Word
  /-- `d_req[0].src_strides`. -/
  srcStrides : Word
  /-- `d_req[0].dst_strides`. -/
  dstStrides : Word
  deriving DecidableEq, Repr, Inhabited

/-- `assemble_idma_job`. -/
def Regs.jobReq (r : Regs) : NdReq where
  length := r.tfLen
  srcAddr := r.srcAddr
  dstAddr := r.dstAddr
  reps := if r.ndEna then r.numRep else 1
  srcStrides := if r.ndEna then r.srcStr else 0
  dstStrides := if r.ndEna then r.dstStr else 0

/-! ### Identifiers -/

/-- One counter of `idma_transfer_id_gen`. The value with all bits set is left at once, and zero is
never taken. -/
def idCount (q : Word) (event : Bool) : Word :=
  if q = BitVec.allOnes 32 then if event then 2 else 1
  else if event then 1 + q else q

/-! ### The port -/

/-- The state of the port. -/
structure ConfigPort where
  /-- The registers that describe a job. -/
  regs : Regs
  /-- `id_q`. -/
  idQ : BitVec 4
  /-- `word_addr_q`. -/
  wordAddrQ : BitVec 9
  /-- `req_q`. -/
  reqQ : Bool
  /-- `we_q`. -/
  weQ : Bool
  /-- `w_err_q`. -/
  wErrQ : Bool
  /-- `i_stream_fifo_jobs`. -/
  jobs : StreamFifo NdReq 2
  /-- `next_q`. -/
  nextQ : Word
  /-- `completed_q`. -/
  completedQ : Word
  deriving DecidableEq

/-- The inputs of the port in one cycle. -/
structure PortIn where
  /-- The request on the bus. -/
  cfg : CfgReq
  /-- `nd_req_ready`: the oldest job is taken. -/
  ndReqReady : Bool
  /-- `retire`. -/
  retire : Bool
  deriving DecidableEq, Repr, Inhabited

namespace ConfigPort

variable (s : ConfigPort)

/-- The port out of reset. -/
def init : ConfigPort where
  regs := default
  idQ := 0
  wordAddrQ := 0
  reqQ := false
  weQ := false
  wErrQ := false
  jobs := StreamFifo.init
  nextQ := 2
  completedQ := 1

/-- `job_req_valid`: the stored request is a launch. -/
def jobReqValid : Bool := !s.weQ && s.reqQ && s.wordAddrQ == nextIdOffset

/-- `job_req_ready`. -/
def jobReqReady : Bool := s.jobs.readyO

/-- `obi_reg_read`: `reg_read_data` and `r_err`. -/
def read : Word × Bool :=
  if !s.weQ && s.reqQ then
    if s.wordAddrQ = confOffset then ((BitVec.ofBool s.regs.ndEna).setWidth 32 <<< 11, false)
    else if s.wordAddrQ = nextIdOffset then (s.nextQ, false)
    else if s.wordAddrQ = doneIdOffset then (s.completedQ, false)
    else if s.wordAddrQ = dstAddrOffset then (s.regs.dstAddr, false)
    else if s.wordAddrQ = srcAddrOffset then (s.regs.srcAddr, false)
    else if s.wordAddrQ = lengthOffset then (s.regs.tfLen, false)
    else if s.wordAddrQ = dstStride2Offset then (s.regs.dstStr, false)
    else if s.wordAddrQ = srcStride2Offset then (s.regs.srcStr, false)
    else if s.wordAddrQ = reps2Offset then (s.regs.numRep, false)
    else (0, true)
  else (0, false)

/-- `proc_obi_cfg_rsp`. -/
def cfgRsp (q : CfgReq) : CfgRsp where
  gnt := if q.wordAddr = nextIdOffset then q.req && s.jobReqReady else q.req
  rvalid := s.reqQ
  rdata := s.read.1
  rid := s.idQ
  err := if s.reqQ && s.weQ then s.wErrQ else s.read.2

/-- `issue`: the oldest job leaves the FIFO. -/
def issue (ndReqReady : Bool) : Bool := s.jobs.validO && ndReqReady

/-- One clock edge. -/
def next (i : PortIn) : ConfigPort where
  regs := (s.regs.write i.cfg).1
  idQ := i.cfg.aid
  wordAddrQ := i.cfg.wordAddr
  reqQ := i.cfg.req
  weQ := i.cfg.we
  wErrQ := (s.regs.write i.cfg).2
  jobs := s.jobs.next s.jobReqValid s.regs.jobReq i.ndReqReady
  nextQ := idCount s.nextQ (s.issue i.ndReqReady)
  completedQ := idCount s.completedQ i.retire

/-- The port as a machine, with requests, takers and retirements from outside. -/
def machine : Machine ConfigPort PortIn := ⟨init, next⟩

/-! ### Launches -/

/-- A read of `NEXT_ID` is requested. -/
def launchReq (q : CfgReq) : Bool := q.req && !q.we && q.wordAddr == nextIdOffset

/-- A read of `NEXT_ID` is granted. -/
def grants (q : CfgReq) : Bool := launchReq q && (s.cfgRsp q).gnt

/-- A job enters the FIFO. -/
def enqueues : Bool := s.jobs.push s.jobReqValid

/-- A launch is requested in a cycle in which the room in the FIFO changes: a full FIFO lets a job
out, or the last place is taken by the launch before. -/
def roomChanges (i : PortIn) : Prop :=
  launchReq i.cfg = true ∧
    (s.jobs.store.items.length = 2 ∧ i.ndReqReady = true ∨
      s.jobs.store.items.length = 1 ∧ s.jobReqValid = true ∧ i.ndReqReady = false)

instance (i : PortIn) : Decidable (s.roomChanges i) := inferInstanceAs (Decidable (_ ∧ _))

variable {s}

theorem jobReqValid_next (i : PortIn) : (s.next i).jobReqValid = launchReq i.cfg := by
  simp only [jobReqValid, next, launchReq]
  cases i.cfg.we <;> cases i.cfg.req <;> rfl

/-- The number of jobs after an edge. -/
theorem length_jobs_next (i : PortIn) :
    (s.next i).jobs.store.items.length + (s.issue i.ndReqReady).toNat =
      s.jobs.store.items.length + s.enqueues.toNat := by
  rw [issue, Bool.and_comm]
  exact StreamFifo.length_next

theorem jobReqReady_iff : s.jobReqReady = true ↔ s.jobs.store.items.length < 2 := by
  have hle := s.jobs.store.length_le
  simp only [jobReqReady, StreamFifo.readyO, Bool.not_eq_true', Queue.full, beq_eq_false_iff_ne]
  omega

theorem enqueues_iff :
    s.enqueues = true ↔ s.jobReqValid = true ∧ s.jobs.store.items.length < 2 := by
  rw [enqueues, StreamFifo.push, Bool.and_eq_true, ← jobReqReady_iff, jobReqReady]

theorem issue_iff (ndReqReady : Bool) :
    s.issue ndReqReady = true ↔ 0 < s.jobs.store.items.length ∧ ndReqReady = true := by
  simp [issue, StreamFifo.validO, List.length_pos_iff]

/-- **When the room in the FIFO changes.** -/
theorem room_next (i : PortIn) : (s.next i).jobReqReady = s.jobReqReady ↔
    ¬(s.jobs.store.items.length = 2 ∧ i.ndReqReady = true ∨
      s.jobs.store.items.length = 1 ∧ s.jobReqValid = true ∧ i.ndReqReady = false) := by
  have hle := s.jobs.store.length_le
  have hlen := length_jobs_next (s := s) i
  have henq : s.enqueues.toNat = if s.jobReqValid = true ∧
      s.jobs.store.items.length < 2 then 1 else 0 := by
    split_ifs with h
    · rw [enqueues_iff.mpr h, Bool.toNat_true]
    · rw [Bool.eq_false_iff.mpr (mt enqueues_iff.mp h), Bool.toNat_false]
  have hissue : (s.issue i.ndReqReady).toNat =
      if 0 < s.jobs.store.items.length ∧ i.ndReqReady = true then 1 else 0 := by
    split_ifs with h
    · rw [(issue_iff _).mpr h, Bool.toNat_true]
    · rw [Bool.eq_false_iff.mpr (mt (issue_iff _).mp h), Bool.toNat_false]
  rw [henq, hissue] at hlen
  rw [Bool.eq_iff_iff, jobReqReady_iff, jobReqReady_iff]
  cases hv : s.jobReqValid <;> cases hr : i.ndReqReady <;>
    simp only [hv, hr, true_and, and_true, false_and, and_false, or_false, false_or,
      Bool.false_eq_true, Bool.true_eq_false, if_false, not_false_eq_true, iff_true] at hlen ⊢ <;>
    (try split_ifs at hlen) <;> omega

/-- **A launch is exactly once, except where the room changes.** In every cycle, a job enters the
FIFO exactly if a read of `NEXT_ID` was granted in the cycle before, unless that read was requested
while a full FIFO let a job out or the last place was being taken. -/
theorem launch_exactlyOnce_iff (ins : ℕ → PortIn) :
    (machine.stateAt ins 0).enqueues = false ∧
      ∀ t, (machine.stateAt ins (t + 1)).enqueues = (machine.stateAt ins t).grants (ins t).cfg ↔
        ¬(machine.stateAt ins t).roomChanges (ins t) := by
  refine ⟨rfl, fun t => ?_⟩
  set s := machine.stateAt ins t with hs
  have hnext : machine.stateAt ins (t + 1) = s.next (ins t) := rfl
  have henq : (s.next (ins t)).enqueues =
      (launchReq (ins t).cfg && (s.next (ins t)).jobReqReady) := by
    rw [enqueues, StreamFifo.push, jobReqValid_next, jobReqReady]
  have hgnt : s.grants (ins t).cfg = (launchReq (ins t).cfg && s.jobReqReady) := by
    rw [grants, cfgRsp]
    cases hl : launchReq (ins t).cfg with
    | false => rfl
    | true =>
      simp only [launchReq, Bool.and_eq_true, beq_iff_eq] at hl
      rw [if_pos hl.2, hl.1.1, Bool.true_and, Bool.true_and]
  rw [hnext, henq, hgnt, roomChanges]
  cases hl : launchReq (ins t).cfg with
  | false => simp
  | true => simpa using room_next (ins t)

/-- A read of `NEXT_ID`. -/
def launch : CfgReq := ⟨true, 0x44, false, 0xf, 0, 0⟩

/-- Two launches fill the FIFO; a third is requested, and not granted, while a job is let out. -/
def stalledRead : ℕ → PortIn
  | 0 | 1 => ⟨launch, false, false⟩
  | 3 => ⟨launch, true, false⟩
  | _ => default

/-- Three launches in a row, while no job is taken. -/
def backToBack : ℕ → PortIn
  | 0 | 1 | 2 => ⟨launch, false, false⟩
  | _ => default

/-- A read that is not granted enqueues a job, and a granted one loses its job. -/
theorem launch_spurious_and_lost :
    ((machine.stateAt stalledRead 3).grants (stalledRead 3).cfg = false ∧
      (machine.stateAt stalledRead 4).enqueues = true) ∧
    (machine.stateAt backToBack 2).grants (backToBack 2).cfg = true ∧
      (machine.stateAt backToBack 3).enqueues = false := by
  decide

/-! ### Responses -/

variable (s)

/-- A request is accepted. -/
def accepts (q : CfgReq) : Bool := q.req && (s.cfgRsp q).gnt

/-- A request for `NEXT_ID`, read or write, finds the FIFO full. -/
def stalls (q : CfgReq) : Prop :=
  q.req = true ∧ q.wordAddr = nextIdOffset ∧ s.jobs.store.items.length = 2

instance (q : CfgReq) : Decidable (s.stalls q) := inferInstanceAs (Decidable (_ ∧ _))

variable {s}

/-- The identifiers of the requests accepted before cycle `t`. -/
def accepted (ins : ℕ → PortIn) (t : ℕ) : List (BitVec 4) :=
  machine.log ins (fun s i => if s.accepts i.cfg then [i.cfg.aid] else []) t

/-- The identifiers of the responses given before cycle `t`. -/
def responded (ins : ℕ → PortIn) (t : ℕ) : List (BitVec 4) :=
  machine.log ins (fun s i => if (s.cfgRsp i.cfg).rvalid then [(s.cfgRsp i.cfg).rid] else []) t

theorem accepts_eq_req_iff (q : CfgReq) : s.accepts q = q.req ↔ ¬s.stalls q := by
  have hready := jobReqReady_iff (s := s)
  have hle := s.jobs.store.length_le
  rw [accepts, cfgRsp, stalls]
  cases hq : q.req with
  | false => simp
  | true =>
    by_cases ha : q.wordAddr = nextIdOffset
    · rw [if_pos ha, Bool.true_and, Bool.true_and, hready]
      simp only [ha, true_and]
      omega
    · simp [ha]

/-- Every request is answered in the next cycle, with its identifier, granted or not. -/
theorem responded_succ (ins : ℕ → PortIn) (t : ℕ) :
    responded ins (t + 1) =
      machine.log ins (fun _ i => if i.cfg.req then [i.cfg.aid] else []) t := by
  induction t with
  | zero => rfl
  | succ t ih =>
    rw [responded, Machine.log_succ, ← responded, ih, Machine.log_succ]
    rfl

/-- The responses are those to the accepted requests as long as no request stalls, and no longer. -/
theorem responded_eq_accepted_iff (ins : ℕ → PortIn) (t : ℕ) :
    (∀ u ≤ t, responded ins (u + 1) = accepted ins u) ↔
      ∀ u < t, ¬(machine.stateAt ins u).stalls (ins u).cfg := by
  simp only [responded_succ, accepted]
  induction t with
  | zero => simp
  | succ t ih =>
    rw [Nat.forall_lt_succ_right, ← ih, ← accepts_eq_req_iff]
    constructor
    · intro h
      refine ⟨fun u hu => h u (Nat.le_succ_of_le hu), ?_⟩
      have hlog := h (t + 1) le_rfl
      rw [Machine.log_succ, Machine.log_succ, h t t.le_succ, List.append_cancel_left_eq] at hlog
      generalize (machine.stateAt ins t).accepts (ins t).cfg = b at hlog ⊢
      cases b <;> cases hr : (ins t).cfg.req <;> simp [hr] at hlog ⊢
    · rintro ⟨h, hreq⟩ u hu
      obtain hu | rfl := Nat.of_le_succ hu
      · exact h u hu
      · rw [Machine.log_succ, Machine.log_succ, h t le_rfl, hreq]

/-- **The response discipline of the port.** A request is answered in the next cycle, with its
identifier, exactly if it was accepted, in every cycle but those in which a request for `NEXT_ID`
finds the FIFO full. So the responses of a run are those to its accepted requests, each once and in
order, exactly as long as no such request is made. -/
theorem response_exactlyOnce_iff (ins : ℕ → PortIn) :
    (∀ q, ((machine.stateAt ins 0).cfgRsp q).rvalid = false) ∧
      (∀ t q, (((machine.stateAt ins (t + 1)).cfgRsp q).rvalid =
            (machine.stateAt ins t).accepts (ins t).cfg ∧
          ((machine.stateAt ins (t + 1)).cfgRsp q).rid = (ins t).cfg.aid) ↔
        ¬(machine.stateAt ins t).stalls (ins t).cfg) ∧
      ∀ t, (∀ u ≤ t, responded ins (u + 1) = accepted ins u) ↔
        ∀ u < t, ¬(machine.stateAt ins u).stalls (ins u).cfg := by
  refine ⟨fun q => rfl, fun t q => ?_, responded_eq_accepted_iff ins⟩
  have hrvalid : ((machine.stateAt ins (t + 1)).cfgRsp q).rvalid = (ins t).cfg.req := rfl
  have hrid : ((machine.stateAt ins (t + 1)).cfgRsp q).rid = (ins t).cfg.aid := rfl
  rw [hrvalid, ← accepts_eq_req_iff]
  exact ⟨fun h => h.1.symm, fun h => ⟨h.symm, hrid⟩⟩

/-- A read of `NEXT_ID` that waits for room in the FIFO is answered while it waits. -/
theorem stalledRead_answered :
    (machine.stateAt stalledRead 3).accepts (stalledRead 3).cfg = false ∧
      ((machine.stateAt stalledRead 4).cfgRsp (stalledRead 4).cfg).rvalid = true ∧
      responded stalledRead 5 ≠ accepted stalledRead 4 := by
  decide

end ConfigPort

end Idma

end Croc
