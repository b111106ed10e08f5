import Croc.Lsu.Protocol
import Croc.Lsu.ByteLanes

/-!
# The load/store unit on a word memory

The load/store unit on a word memory with byte enables that makes no errors. The memory grants a
request when it likes, performs the access then, and answers the accesses in order, each in some
later cycle of its choice.

An access of the base instruction set goes through five phases, by which of its halves have been
granted and answered. The phases are a small machine of their own, driven by grants and responses
alone, and the load/store unit refines it.

## Main definitions

* `MemSystem`, `MemSystem.step`: the pipeline and the memory.
* `Phase`, `Phase.next`: the phases of an access.
* `InFlight`: an access is in a phase.

## Main results

* `MemSystem.served`: what the memory does with a request.
* `InFlight.step`: the unit and the memory follow the phases.
-/

namespace Croc

namespace Lsu

open Cheriot Revocation ByteMemory Clocked

open Bits (Word)

/-! ### The pipeline and the memory -/

/-- The inputs of a cycle. -/
structure PortIn where
  /-- The instruction that ID/EX would execute, as in `PipeIn`. -/
  instr : Option Access
  /-- The memory grants a request. -/
  gnt : Bool
  /-- The memory answers the oldest access that is unanswered. -/
  respond : Bool
  /-- What a response has beside the data of a load. -/
  filler : DsRsp
  /-- A write to the register that turns CHERIoT mode on. -/
  enableSet : Bool
  deriving Inhabited

/-- The pipeline and a word memory. -/
structure MemSystem where
  /-- The pipeline. -/
  pipe : MemPipe
  /-- The words. -/
  mem : WordMem
  /-- The accesses that are granted and unanswered, with the data of a load. -/
  due : List (Option Word)

namespace MemSystem

variable (s : MemSystem) (i : PortIn)

/-- A response comes. -/
def rvalid : Bool := i.respond && !s.due.isEmpty

/-- The data port. The memory makes no errors. -/
def bus : BusIn where
  gnt := i.gnt
  rvalid := s.rvalid i
  rsp := { i.filler with data := s.due.head?.join.getD i.filler.data, err := false }

/-- The inputs of the pipeline. -/
def pipeIn : PipeIn := ⟨i.instr, s.bus i, i.enableSet⟩

/-- The request on the data port. -/
def up : UpstreamReq := s.pipe.up (s.pipeIn i)

/-- A request is granted. -/
def granted : Bool := (s.up i).req && i.gnt

/-- The memory after the access that is granted. -/
def memNext : WordMem :=
  if s.granted i && (s.up i).we then
    s.mem.write (wordIndex (s.up i).addr) (s.up i).wdata (s.up i).be
  else s.mem

/-- The answer to the access that is granted. -/
def answer : List (Option Word) :=
  if s.granted i then [if (s.up i).we then none else some (s.mem (wordIndex (s.up i).addr))] else []

/-- One clock edge. -/
def step : MemSystem where
  pipe := s.pipe.step (s.pipeIn i)
  mem := s.memNext i
  due := (if s.rvalid i then s.due.tail else s.due) ++ s.answer i

/-- The system, with any contents of the memory. -/
def machine (boot : WordMem) : Machine MemSystem PortIn := ⟨⟨.init, boot, []⟩, step⟩

/-! ### Instructions -/

/-- An instruction goes to the load/store unit: `lsu_go`. -/
def starts : Bool :=
  (s.pipe.lsu.ctl s.pipe.enable (s.pipe.request (s.pipeIn i)) (s.bus i)).lsuGo

/-- A load or store of the base instruction set goes to the unit, in RV32I mode or with its check
passed. -/
structure StartsRv32 (a : Rv32Access) : Prop where
  /-- The unit is idle. -/
  idle : s.pipe.lsu.fsm = .idle
  /-- The instruction is there. -/
  instr : i.instr = some (.rv32 a)
  /-- No earlier access keeps it from executing. -/
  executing : s.pipe.executing (s.pipeIn i) = true
  /-- It passes the check. -/
  check : s.pipe.enable = true →
    rv32LsuErr true a.debugMode a.cs1.full a.lsuType a.we a.addr false = false

/-- An instruction completes: `lsu_resp_valid_o`. -/
def completes : Bool := s.pipe.lsu.respValid s.pipe.enable (s.bus i)

/-- The invariant of the system. -/
structure Inv : Prop where
  /-- The unit works on the instruction in ID/EX. -/
  pipe : s.pipe.Inv
  /-- The second state machine is in step. -/
  receiving : s.pipe.Receiving
  /-- The memory owes what the pipeline waits for. -/
  due : s.due.length = s.pipe.outstanding

variable {s i}

theorem lsu_step : (s.step i).pipe.lsu =
    s.pipe.lsu.step s.pipe.enable (s.pipe.request (s.pipeIn i)) (s.bus i) := rfl

theorem due_step :
    (s.step i).due = (if s.rvalid i then s.due.tail else s.due) ++ s.answer i := rfl

theorem outstanding_pos (hs : s.Inv) (h : s.rvalid i = true) : 0 < s.pipe.outstanding := by
  rw [← hs.due]
  rw [rvalid, Bool.and_eq_true, Bool.not_eq_true', List.isEmpty_eq_false_iff] at h
  exact List.length_pos_of_ne_nil h.2

theorem Inv.step (hs : s.Inv) (i : PortIn) : (s.step i).Inv := by
  obtain ⟨hreceiving, hcount⟩ :=
    hs.receiving.advances (i := s.pipeIn i) hs.pipe (outstanding_pos hs)
  refine ⟨hs.pipe.step _, hreceiving, ?_⟩
  have hdue := hs.due
  have hpos := outstanding_pos (i := i) hs
  change (s.step i).pipe.outstanding + (s.rvalid i).toNat =
    s.pipe.outstanding + (s.granted i).toNat at hcount
  have hanswer : (s.answer i).length = (s.granted i).toNat := by
    rw [answer]
    cases s.granted i <;> rfl
  have hpop : (if s.rvalid i then s.due.tail else s.due).length + (s.rvalid i).toNat =
      s.due.length := by
    cases hrv : s.rvalid i with
    | false => rfl
    | true =>
      have := hpos hrv
      rw [if_pos rfl, List.length_tail]
      simp only [Bool.toNat_true]
      omega
  rw [due_step, List.length_append]
  omega

theorem inv_stateAt (boot : WordMem) (ins : ℕ → PortIn) (t : ℕ) :
    ((machine boot).stateAt ins t).Inv :=
  Machine.stateAt_inv' ⟨MemPipe.inv_init, MemPipe.receiving_init, rfl⟩ (fun _ i hs => hs.step i) t

end MemSystem

/-! ### The phases of an access -/

/-- Where an access stands. -/
inductive Phase
  /-- The first half waits for its grant. -/
  | first
  /-- The first half waits for its response, the second for its grant. -/
  | middle
  /-- The first half is done, the second waits for its grant. -/
  | second
  /-- Both halves wait for their responses. -/
  | both
  /-- The last response is missing. -/
  | last
  deriving DecidableEq, Repr

namespace Phase

/-- What a cycle does, by whether the access is split. -/
def next (split gnt rvalid : Bool) : Phase → Phase
  | first => if gnt then if split then middle else last else first
  | middle => if rvalid then if gnt then last else second else if gnt then both else middle
  | second => if gnt then last else second
  | both => if rvalid then last else both
  | last => last

/-- The state of the unit. -/
def fsm (split : Bool) : Phase → LsFsm
  | first => if split then .waitGntMis else .waitGnt
  | middle => .waitRvalidMis
  | second => .waitGnt
  | both => .waitRvalidMisGntsDone
  | last => .idle

theorem fsm_ne_idle {split : Bool} {p : Phase} (hp : p ≠ last) : p.fsm split ≠ .idle := by
  cases p with
  | first => cases split <;> decide
  | last => exact absurd rfl hp
  | _ => exact LsFsm.noConfusion

/-- The second half is being requested. -/
def requestsSecond : Phase → Bool
  | middle | second => true
  | _ => false

/-- Whether a grant ends the phase; otherwise it is a response. -/
def awaitsGnt : Phase → Bool
  | first | second => true
  | _ => false

/-- How far the access is from its end. -/
def rank : Phase → ℕ
  | first => 3
  | middle => 2
  | second | both => 1
  | last => 0

/-- What a phase waits for ends it. -/
theorem rank_next_lt {split gnt rvalid : Bool} {p : Phase} (hp : p ≠ last)
    (hevent : if p.awaitsGnt then gnt = true else rvalid = true) :
    (p.next split gnt rvalid).rank < p.rank := by
  cases p with
  | first =>
    cases hevent
    cases split <;> simp [next, rank]
  | middle =>
    cases hevent
    cases gnt <;> simp [next, rank]
  | second =>
    cases hevent
    simp [next, rank]
  | both =>
    cases hevent
    simp [next, rank]
  | last => exact absurd rfl hp

theorem next_eq_or_rank_lt (split gnt rvalid : Bool) (p : Phase) :
    p.next split gnt rvalid = p ∨ (p.next split gnt rvalid).rank < p.rank := by
  cases p <;> cases split <;> cases gnt <;> cases rvalid <;> decide

end Phase

namespace Rv32Access

variable (a : Rv32Access) (m : WordMem)

/-- The access is split. -/
def split : Bool := (a.lsuType == 0 && a.offset != 0) || (a.lsuType == 1 && a.offset == 3)

theorem split_iff : a.split = true ↔ (Access.rv32 a).Splits := by
  simp [split, Access.Splits, offset]

/-- What the memory answers to an access of a word. -/
def answerOf (d : Word) : Option Word := if a.we then none else some d

/-- A load finds the memory as it was. -/
theorem answerOf_first (w : BitVec 30) : a.answerOf (a.first m w) = a.answerOf (m w) := by
  rw [answerOf, answerOf, first]
  cases a.we <;> rfl

/-- The memory in a phase. -/
def memIn : Phase → WordMem
  | .first => m
  | .middle | .second => a.first m
  | .both => a.second (a.first m)
  | .last => if a.split then a.second (a.first m) else a.first m

/-- The answers that the memory owes in a phase. -/
def dueIn : Phase → List (Option Word)
  | .first | .second => []
  | .middle => [a.answerOf (m (wordIndex a.addr))]
  | .both => [a.answerOf (m (wordIndex a.addr)), a.answerOf (m (wordIndex a.addr + 1))]
  | .last => [a.answerOf (if a.split then m (wordIndex a.addr + 1) else m (wordIndex a.addr))]

end Rv32Access

/-- The unit remembers what the access was. -/
structure Latched (a : Rv32Access) (l : LoadStoreUnit) : Prop where
  /-- A load or a store. -/
  dataWe : l.dataWe = a.we
  /-- Its type. -/
  dataType : l.dataType = a.lsuType
  /-- The extension. -/
  dataSignExt : l.dataSignExt = a.signExt
  /-- The offset in the word. -/
  rdataOffset : l.rdataOffset = a.offset

/-- The access `a`, which found the memory `m`, is in the phase `p`. -/
structure InFlight (a : Rv32Access) (m : WordMem) (p : Phase) (s : MemSystem) : Prop where
  /-- The state of the unit. -/
  fsm : s.pipe.lsu.fsm = p.fsm a.split
  /-- The instruction is held in ID/EX, or it is in the writeback stage. -/
  held : if p = .last then s.pipe.wbMem = true ∧ s.pipe.lsu.cheriotErr = false
    else s.pipe.held = some (.rv32 a)
  /-- Only a split access has more than two phases. -/
  split : p = .middle ∨ p = .second ∨ p = .both → a.split = true
  /-- The half that is being requested. -/
  handleMisaligned : s.pipe.lsu.handleMisaligned = p.requestsSecond
  /-- Where the adder finds the address of the second half. -/
  addrLast : p.requestsSecond = true → s.pipe.lsu.addrLast = a.addr
  /-- There has been no error. -/
  lsuErr : s.pipe.lsu.lsuErr = false
  /-- The access is not one of a capability. -/
  respIsCap : s.pipe.lsu.respIsCap = false
  /-- The unit remembers what the access was, from its first grant on. -/
  latched : p ≠ .first → Latched a s.pipe.lsu
  /-- It keeps the first half of a load. -/
  kept : p = .second ∨ p = .last ∧ a.split = true → a.we = false →
    s.pipe.lsu.rdataQ = (m (wordIndex a.addr)).extractLsb' 8 24
  /-- What has been stored. -/
  mem : s.mem = a.memIn m p
  /-- What is to be answered. -/
  due : s.due = a.dueIn m p

/-! ### What the accesses look like -/

section Request

variable {a : Rv32Access} {enable executing incr : Bool} {last : Word}
    (hlast : incr = true → last = a.addr)

theorem cap_request : ((Access.rv32 a).request enable executing incr last).cap enable = false :=
  Bool.and_false _

include hlast

/-- The lanes of a request do not depend on the half. -/
theorem dataOffset_request :
    ((Access.rv32 a).request enable executing incr last).dataOffset enable = a.offset := by
  rw [Request.dataOffset, cap_request, if_neg Bool.false_ne_true]
  cases incr with
  | false => rfl
  | true =>
    apply BitVec.eq_of_toNat_eq
    rw [hlast rfl]
    exact lane_add_four a.addr

theorem wdataInt_request :
    ((Access.rv32 a).request enable executing incr last).wdataInt enable = a.rotated := by
  rw [Rv32Access.rotated, Request.wdataInt, Request.wdataInt, dataOffset_request hlast,
    dataOffset_request fun h => absurd h Bool.false_ne_true]
  rfl

theorem wordIndex_addr_request :
    wordIndex ((Access.rv32 a).request enable executing incr last).addr =
      if incr then wordIndex a.addr + 1 else wordIndex a.addr := by
  cases incr with
  | false => rfl
  | true =>
    rw [if_pos rfl, ← wordIndex_add_four, ← hlast rfl]
    rfl

end Request

section Latch

variable {a : Rv32Access} {l : LoadStoreUnit} {enable : Bool} {q : Request} {b : BusIn}

theorem Latched.step (h : Latched a l) (hupd : (l.ctl enable q b).ctrlUpdate = false) :
    Latched a (l.step enable q b) := by
  constructor <;> rw [LoadStoreUnit.step, hupd]
  · exact h.dataWe
  · exact h.dataType
  · exact h.dataSignExt
  · exact h.rdataOffset

theorem latched_of_update {executing incr : Bool} {last : Word}
    (hlast : incr = true → last = a.addr)
    (hq : q = (Access.rv32 a).request enable executing incr last)
    (hupd : (l.ctl enable q b).ctrlUpdate = true) : Latched a (l.step enable q b) := by
  subst hq
  constructor <;> rw [LoadStoreUnit.step, hupd]
  · rfl
  · rfl
  · rfl
  · exact dataOffset_request hlast

end Latch

namespace MemSystem

section Serve

variable {s : MemSystem} {i : PortIn} {a : Rv32Access}
  (hcur : s.pipe.current (s.pipeIn i) = some (.rv32 a))
  (hsends : s.pipe.lsu.sends s.pipe.enable (s.pipe.request (s.pipeIn i)) = true)
  (hincr : s.pipe.lsu.addrIncrReq s.pipe.enable = s.pipe.lsu.handleMisaligned)
  (hlast : s.pipe.lsu.handleMisaligned = true → s.pipe.lsu.addrLast = a.addr)
include hcur hsends hincr hlast

/-- What a request of the instruction looks like on the port. -/
theorem up_of_current : s.up i =
    { req := true, we := a.we, be := byteEnable a.lsuType s.pipe.lsu.handleMisaligned a.offset
      addr := LoadStoreUnit.dataAddrWAligned (s.pipe.request (s.pipeIn i)), wdata := a.rotated
      wdataIntg := 0, tag := false } := by
  rw [up, MemPipe.up, LoadStoreUnit.up_eq, hsends, MemPipe.request_of_current hcur, hincr,
    Request.dataBe, Request.dataWdata, cap_request, dataOffset_request hlast,
    wdataInt_request hlast]
  rfl

/-- What the memory does with it. -/
theorem served : s.memNext i =
      (if i.gnt then if s.pipe.lsu.handleMisaligned then a.second s.mem else a.first s.mem
        else s.mem) ∧
    s.answer i =
      if i.gnt then
        [a.answerOf (s.mem (if s.pipe.lsu.handleMisaligned then wordIndex a.addr + 1
          else wordIndex a.addr))]
      else [] := by
  have haddr : wordIndex (LoadStoreUnit.dataAddrWAligned (s.pipe.request (s.pipeIn i))) =
      wordIndex (s.pipe.request (s.pipeIn i)).addr := wordIndex_wordOf _
  rw [MemPipe.request_of_current hcur, hincr, wordIndex_addr_request hlast,
    ← hincr, ← MemPipe.request_of_current hcur, hincr] at haddr
  rw [memNext, answer, granted, up_of_current hcur hsends hincr hlast, haddr, Bool.true_and]
  cases i.gnt <;> cases hwe : a.we <;> cases s.pipe.lsu.handleMisaligned <;>
    simp [Rv32Access.first, Rv32Access.second, Rv32Access.answerOf, hwe]

end Serve

/-- While nothing is requested, the memory does nothing. -/
theorem not_served {s : MemSystem} {i : PortIn}
    (hsends : s.pipe.lsu.sends s.pipe.enable (s.pipe.request (s.pipeIn i)) = false) :
    s.memNext i = s.mem ∧ s.answer i = [] := by
  have hgranted : s.granted i = false := by
    rw [granted, up, MemPipe.req_up, hsends, Bool.false_and]
  rw [memNext, answer, hgranted]
  exact ⟨rfl, rfl⟩

theorem rvalid_of_due {s : MemSystem} {i : PortIn} (hdue : s.due = []) : s.rvalid i = false := by
  rw [rvalid, hdue, List.isEmpty_nil, Bool.not_true, Bool.and_false]

/-- The data of a load is on the port with its response. -/
theorem data_bus {s : MemSystem} {i : PortIn} {a : Rv32Access} {d : Word}
    {rest : List (Option Word)}
    (hdue : s.due = a.answerOf d :: rest) (hwe : a.we = false) : (s.bus i).rsp.data = d := by
  rw [bus, hdue, Rv32Access.answerOf, hwe]
  rfl

end MemSystem

/-! ### One step -/

namespace InFlight

open MemSystem

variable {s : MemSystem} {i : PortIn} {a : Rv32Access} {m : WordMem} {p : Phase}

theorem busy (h : InFlight a m p s) (hp : p ≠ .last) : s.pipe.lsu.fsm ≠ .idle := by
  rw [h.fsm]
  exact Phase.fsm_ne_idle hp

theorem current (h : InFlight a m p s) (hp : p ≠ .last) :
    s.pipe.current (s.pipeIn i) = some (.rv32 a) := by
  have hheld := h.held
  rw [if_neg hp] at hheld
  rw [MemPipe.current_of_busy (h.busy hp), hheld]

/-- The second address is formed while the second half is being requested. -/
theorem addrIncrReq (h : InFlight a m p s) (hp : p ≠ .both) :
    s.pipe.lsu.addrIncrReq s.pipe.enable = s.pipe.lsu.handleMisaligned := by
  have hmis := h.handleMisaligned
  rw [LoadStoreUnit.addrIncrReq, h.fsm, hmis]
  cases p with
  | first => cases a.split <;> rfl
  | both => exact absurd rfl hp
  | _ => rfl

theorem addrLast_of_incr (h : InFlight a m p s) (hmis : s.pipe.lsu.handleMisaligned = true) :
    s.pipe.lsu.addrLast = a.addr := h.addrLast (h.handleMisaligned.symm.trans hmis)

/-- The phase after the cycle. -/
def after (a : Rv32Access) (p : Phase) (s : MemSystem) (i : PortIn) : Phase :=
  p.next a.split i.gnt (s.rvalid i)

/-- **The state machine follows the phases.** -/
theorem ctl_after (h : InFlight a m p s) (hp : p ≠ .last) :
    (s.pipe.lsu.ctl s.pipe.enable (s.pipe.request (s.pipeIn i)) (s.bus i)).ns =
      (after a p s i).fsm a.split ∧
      (s.pipe.lsu.ctl s.pipe.enable (s.pipe.request (s.pipeIn i)) (s.bus i)).handleMisaligned =
        (after a p s i).requestsSecond ∧
      (s.pipe.lsu.ctl s.pipe.enable (s.pipe.request (s.pipeIn i)) (s.bus i)).lsuErr = false := by
  have hfsm := h.fsm
  have hmis := h.handleMisaligned
  have herr := h.lsuErr
  rw [LoadStoreUnit.ctl, hfsm, hmis, herr]
  cases p with
  | first =>
    cases hsp : a.split <;> cases hg : i.gnt <;>
      simp [after, Phase.next, Phase.fsm, Phase.requestsSecond, bus, hsp, hg]
  | middle =>
    cases hg : i.gnt <;> cases hrv : s.rvalid i <;>
      simp [after, Phase.next, Phase.fsm, Phase.requestsSecond, bus, hg, hrv]
  | second => cases hg : i.gnt <;>
      simp [after, Phase.next, Phase.fsm, Phase.requestsSecond, bus, hg]
  | both => cases hrv : s.rvalid i <;>
      simp [after, Phase.next, Phase.fsm, Phase.requestsSecond, bus, hrv]
  | last => exact absurd rfl hp

theorem split_after (h : InFlight a m p s) (hp : p ≠ .last)
    (hnext : after a p s i = .middle ∨ after a p s i = .second ∨ after a p s i = .both) :
    a.split = true := by
  cases p with
  | first =>
    cases hsp : a.split with
    | true => rfl
    | false => cases hg : i.gnt <;> simp [after, Phase.next, hsp, hg] at hnext
  | last => exact absurd rfl hp
  | _ => exact h.split (by simp)

theorem addrLast_after (h : InFlight a m p s) (hp : p ≠ .last)
    (hnext : (after a p s i).requestsSecond = true) : (s.step i).pipe.lsu.addrLast = a.addr := by
  have hstep : (s.step i).pipe.lsu.addrLast =
      if (s.pipe.lsu.ctl s.pipe.enable (s.pipe.request (s.pipeIn i)) (s.bus i)).addrUpdate then
        if s.pipe.lsu.addrIncrReq s.pipe.enable then
          LoadStoreUnit.dataAddrWAligned (s.pipe.request (s.pipeIn i))
        else (s.pipe.request (s.pipeIn i)).addr
      else s.pipe.lsu.addrLast := rfl
  have hfsm := h.fsm
  cases p with
  | first =>
    have hincr : s.pipe.lsu.addrIncrReq s.pipe.enable = false :=
      (h.addrIncrReq (by decide)).trans h.handleMisaligned
    have haddr : (s.pipe.request (s.pipeIn i)).addr = a.addr := by
      rw [MemPipe.request_of_current (h.current (by decide)), hincr]
      rfl
    cases hsp : a.split <;> cases hg : i.gnt <;>
      simp [after, Phase.next, Phase.requestsSecond, hsp, hg] at hnext
    simp [hstep, LoadStoreUnit.ctl, hfsm, Phase.fsm, hsp, bus, hg, hincr, haddr]
  | middle =>
    have hlast := h.addrLast rfl
    cases hg : i.gnt <;> cases hrv : s.rvalid i <;>
      simp [after, Phase.next, Phase.requestsSecond, hg, hrv] at hnext
    all_goals simp [hstep, LoadStoreUnit.ctl, hfsm, Phase.fsm, bus, hg, hrv, hlast]
  | second =>
    have hlast := h.addrLast rfl
    cases hg : i.gnt <;> simp [after, Phase.next, Phase.requestsSecond, hg] at hnext
    simp [hstep, LoadStoreUnit.ctl, hfsm, Phase.fsm, bus, hg, hlast]
  | both => cases hrv : s.rvalid i <;> simp [after, Phase.next, Phase.requestsSecond, hrv] at hnext
  | last => exact absurd rfl hp

theorem latched_after (h : InFlight a m p s) (hp : p ≠ .last) (hnext : after a p s i ≠ .first) :
    Latched a (s.step i).pipe.lsu := by
  have hfsm := h.fsm
  cases p with
  | first =>
    have hq := MemPipe.request_of_current (h.current (i := i) (by decide))
    rw [h.addrIncrReq (by decide)] at hq
    refine latched_of_update h.addrLast_of_incr hq ?_
    cases hsp : a.split <;> cases hg : i.gnt <;> simp [after, Phase.next, hsp, hg] at hnext <;>
      simp [LoadStoreUnit.ctl, hfsm, Phase.fsm, hsp, pipeIn, bus, hg]
  | middle =>
    refine (h.latched (by decide)).step ?_
    cases hg : i.gnt <;> cases hrv : s.rvalid i <;>
      simp [LoadStoreUnit.ctl, hfsm, Phase.fsm, pipeIn, bus, hg, hrv]
  | second =>
    cases hg : i.gnt with
    | false =>
      refine (h.latched (by decide)).step ?_
      simp [LoadStoreUnit.ctl, hfsm, Phase.fsm, pipeIn, bus, hg]
    | true =>
      have hq := MemPipe.request_of_current (h.current (i := i) (by decide))
      rw [h.addrIncrReq (by decide)] at hq
      refine latched_of_update h.addrLast_of_incr hq ?_
      simp [LoadStoreUnit.ctl, hfsm, Phase.fsm, pipeIn, bus, hg]
  | both =>
    refine (h.latched (by decide)).step ?_
    cases hrv : s.rvalid i <;> simp [LoadStoreUnit.ctl, hfsm, Phase.fsm, pipeIn, bus, hrv]
  | last => exact absurd rfl hp

theorem kept_after (h : InFlight a m p s) (hp : p ≠ .last)
    (hnext : after a p s i = .second ∨ after a p s i = .last ∧ a.split = true)
    (hwe : a.we = false) :
    (s.step i).pipe.lsu.rdataQ = (m (wordIndex a.addr)).extractLsb' 8 24 := by
  have hstep : (s.step i).pipe.lsu.rdataQ =
      if (s.pipe.lsu.ctl s.pipe.enable (s.pipe.request (s.pipeIn i)) (s.bus i)).rdataUpdate then
        (s.bus i).rsp.data.extractLsb' 8 24
      else s.pipe.lsu.rdataQ := rfl
  have hfsm := h.fsm
  cases p with
  | first => cases hsp : a.split <;> cases hg : i.gnt <;> simp [after, Phase.next, hsp, hg] at hnext
  | middle =>
    have hrv : s.rvalid i = true := by
      cases hg : i.gnt <;> cases hrv : s.rvalid i <;> simp [after, Phase.next, hg, hrv] at hnext ⊢
    have hupd : (s.pipe.lsu.ctl s.pipe.enable (s.pipe.request (s.pipeIn i)) (s.bus i)).rdataUpdate =
        true := by
      have hdataWe := (h.latched (by decide)).dataWe
      simp [LoadStoreUnit.ctl, hfsm, Phase.fsm, bus, hrv, hdataWe, hwe]
    rw [hstep, hupd, if_pos rfl, data_bus h.due hwe]
  | second =>
    have hkept := h.kept (.inl rfl) hwe
    cases hg : i.gnt <;> simp [hstep, LoadStoreUnit.ctl, hfsm, Phase.fsm, bus, hg, hkept]
  | both =>
    have hrv : s.rvalid i = true := by
      cases hrv : s.rvalid i <;> simp [after, Phase.next, hrv] at hnext ⊢
    have hupd : (s.pipe.lsu.ctl s.pipe.enable (s.pipe.request (s.pipeIn i)) (s.bus i)).rdataUpdate =
        true := by
      have hdataWe := (h.latched (by decide)).dataWe
      simp [LoadStoreUnit.ctl, hfsm, Phase.fsm, bus, hrv, hdataWe, hwe]
    rw [hstep, hupd, if_pos rfl, data_bus h.due hwe]
  | last => exact absurd rfl hp

theorem sends (h : InFlight a m p s) (hp : p ≠ .last) :
    s.pipe.lsu.sends s.pipe.enable (s.pipe.request (s.pipeIn i)) = (p != .both) := by
  rw [LoadStoreUnit.sends, h.fsm]
  cases p with
  | first => cases a.split <;> rfl
  | last => exact absurd rfl hp
  | _ => rfl

/-- **The memory follows the phases.** -/
theorem memory_after (h : InFlight a m p s) (hp : p ≠ .last) :
    (s.step i).mem = a.memIn m (after a p s i) ∧ (s.step i).due = a.dueIn m (after a p s i) := by
  have hmemStep : (s.step i).mem = s.memNext i := rfl
  have hserved := served (h.current (i := i) hp)
  rw [hmemStep, due_step, h.due]
  cases p with
  | first =>
    obtain ⟨hmem, hanswer⟩ := hserved (h.sends hp) (h.addrIncrReq (by decide)) h.addrLast_of_incr
    rw [hmem, hanswer, h.mem, h.handleMisaligned, rvalid_of_due h.due]
    cases hsp : a.split <;> cases hg : i.gnt <;>
      simp [after, Phase.next, Phase.requestsSecond, Rv32Access.memIn, Rv32Access.dueIn, hsp, hg]
  | middle =>
    have hsp := h.split (.inl rfl)
    obtain ⟨hmem, hanswer⟩ := hserved (h.sends hp) (h.addrIncrReq (by decide)) h.addrLast_of_incr
    rw [hmem, hanswer, h.mem, h.handleMisaligned]
    cases hg : i.gnt <;> cases hrv : s.rvalid i <;>
      simp [after, Phase.next, Phase.requestsSecond, Rv32Access.memIn, Rv32Access.dueIn, hsp, hg,
        hrv, a.answerOf_first]
  | second =>
    have hsp := h.split (.inr (.inl rfl))
    obtain ⟨hmem, hanswer⟩ := hserved (h.sends hp) (h.addrIncrReq (by decide)) h.addrLast_of_incr
    rw [hmem, hanswer, h.mem, h.handleMisaligned, rvalid_of_due h.due]
    cases hg : i.gnt <;>
      simp [after, Phase.next, Phase.requestsSecond, Rv32Access.memIn, Rv32Access.dueIn, hsp, hg,
        a.answerOf_first]
  | both =>
    have hsp := h.split (.inr (.inr rfl))
    obtain ⟨hmem, hanswer⟩ := not_served (h.sends (i := i) hp)
    rw [hmem, hanswer, h.mem]
    cases hrv : s.rvalid i <;>
      simp [after, Phase.next, Rv32Access.memIn, Rv32Access.dueIn, hsp, hrv]
  | last => exact absurd rfl hp

/-- **One step of a busy unit.** -/
theorem step_busy (h : InFlight a m p s) (hs : s.Inv) (hp : p ≠ .last) :
    InFlight a m (after a p s i) (s.step i) := by
  have hbusy := h.busy hp
  obtain ⟨hns, hmis, herr⟩ := h.ctl_after (i := i) hp
  obtain ⟨hmem, hdue⟩ := h.memory_after (i := i) hp
  refine ⟨hns, ?_, h.split_after hp, hmis, h.addrLast_after hp, herr, ?_, h.latched_after hp,
    h.kept_after hp, hmem, hdue⟩
  · split_ifs with hlast
    · have hidle : (s.pipe.step (s.pipeIn i)).lsu.fsm = .idle := by
        rw [hlast] at hns
        exact hns
      have hwb := hs.pipe.wbMem_step_of_busy (i := s.pipeIn i) hbusy
      rw [hidle] at hwb
      exact ⟨hwb, hs.receiving.cheriotErr_step_of_busy hbusy⟩
    · exact h.current hp
  · exact (MemPipe.respIsCap_step_of_busy hbusy).trans h.respIsCap

theorem writeback (h : InFlight a m .last s) :
    s.pipe.wbMem = true ∧ s.pipe.lsu.cheriotErr = false := by
  have hheld := h.held
  rwa [if_pos rfl] at hheld

/-- The access completes with its last response. -/
theorem completes_last (h : InFlight a m .last s) : s.completes i = s.rvalid i := by
  have hfsm : s.pipe.lsu.fsm = .idle := h.fsm
  rw [completes, LoadStoreUnit.respValid, hfsm, h.writeback.2, Bool.and_false, Bool.or_false,
    BEq.rfl, Bool.and_true]
  rfl

theorem completes_busy (h : InFlight a m p s) (hp : p ≠ .last) : s.completes i = false := by
  rw [completes, LoadStoreUnit.respValid, beq_eq_false_iff_ne.mpr (h.busy hp), Bool.and_false]

/-- Without it no other instruction executes. -/
theorem req_last (h : InFlight a m .last s) (hrv : s.rvalid i = false) :
    s.pipe.executing (s.pipeIn i) = false ∧ (s.pipe.request (s.pipeIn i)).req = false := by
  have hexec : s.pipe.executing (s.pipeIn i) = false := by
    have hno : s.pipe.lsu.respValid s.pipe.enable (s.pipeIn i).bus = false :=
      h.completes_last.trans hrv
    rw [MemPipe.executing, h.writeback.1, hno]
    rfl
  refine ⟨hexec, ?_⟩
  by_contra hreq
  rw [(MemPipe.request_req (by simpa using hreq)).1] at hexec
  cases hexec

/-- In its last phase an access waits for its response. -/
theorem step_last (h : InFlight a m .last s) (hrv : s.rvalid i = false) :
    InFlight a m .last (s.step i) := by
  have hfsm : s.pipe.lsu.fsm = .idle := h.fsm
  obtain ⟨hexec, hreq⟩ := h.req_last hrv
  have hctl := LoadStoreUnit.ctl_idle_of_not_req hfsm hreq s.pipe.enable (s.bus i)
  have hsends : s.pipe.lsu.sends s.pipe.enable (s.pipe.request (s.pipeIn i)) = false := by
    rw [LoadStoreUnit.sends, hfsm]
    simp [Request.cpuReqValid, hreq]
  obtain ⟨hmem, hanswer⟩ := not_served hsends
  refine ⟨?_, ?_, h.split, ?_, fun hp => absurd hp Bool.false_ne_true, ?_, ?_, fun _ => ?_,
    fun hp hwe => ?_,
    ?_, ?_⟩
  · rw [lsu_step, LoadStoreUnit.step, hctl]
    rfl
  · rw [if_pos rfl]
    constructor
    · exact MemPipe.wbMem_step.trans (by rw [hexec, Bool.not_false, Bool.or_true])
    · rw [lsu_step, LoadStoreUnit.step, hctl]
  · rw [lsu_step, LoadStoreUnit.step, hctl]
    exact h.handleMisaligned
  · rw [lsu_step, LoadStoreUnit.step, hctl]
    exact h.lsuErr
  · rw [lsu_step, LoadStoreUnit.step, hctl]
    exact h.respIsCap
  · exact (h.latched (by decide)).step (congrArg Ctl.ctrlUpdate hctl)
  · rw [lsu_step, LoadStoreUnit.step, hctl]
    exact h.kept hp hwe
  · exact hmem.trans h.mem
  · rw [due_step, hrv, hanswer, List.append_nil]
    exact h.due

/-- **One step.** An access that does not complete goes on to its next phase. -/
theorem step (h : InFlight a m p s) (hs : s.Inv) (hno : s.completes i = false) :
    InFlight a m (after a p s i) (s.step i) := by
  by_cases hp : p = .last
  · subst hp
    exact h.step_last (h.completes_last.symm.trans hno)
  · exact h.step_busy hs hp

end InFlight

end Lsu

end Croc
