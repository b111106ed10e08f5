import Croc.Lsu.LoadStoreUnit
import Croc.Lib.Clocked

/-!
# Loads and stores in the pipeline

What the core does with the load/store unit: the instruction in ID/EX asks for its accesses and is
held there until the unit has sent them all, then it moves to the writeback stage and waits for the
response, and no other instruction executes until the response is there.

An instruction that has started is not given up: the controller leaves its decode state only when
the stage does not stall, and the writeback stage is empty, so nothing can raise an exception.
Before it starts, anything can happen to it, so the environment offers a new instruction in every
cycle in which the unit is idle.

## Main definitions

* `Rv32Access`, `Access`: a load or store, of the base instruction set or of a capability.
* `MemPipe`, `MemPipe.step`: the pipeline, as far as it concerns memory.
* `MemPipe.Inv`: what the unit is doing for the instruction in ID/EX.

## Main results

* `MemPipe.inv_stateAt`: the invariant holds throughout every run.
-/

namespace Croc

namespace Lsu

open Cheriot Revocation Clocked

open Bits (Word)

/-! ### Accesses -/

/-- A load or store of the base instruction set. -/
structure Rv32Access where
  /-- A store. -/
  we : Bool
  /-- 0 is a word, 1 a halfword, 2 and 3 are a byte. -/
  lsuType : BitVec 2
  /-- Sign extension of what is loaded. -/
  signExt : Bool
  /-- The base register, which is also the authority in CHERIoT mode. -/
  cs1 : RegVal
  /-- The offset, sign extended. -/
  imm : Word
  /-- The data of a store. -/
  wdata : Word
  /-- `debug_mode_i`. -/
  debugMode : Bool
  deriving DecidableEq, Repr, Inhabited

/-- The address of the instruction. -/
def Rv32Access.addr (a : Rv32Access) : Word := a.cs1.data + a.imm

/-- An instruction that accesses memory. -/
inductive Access
  /-- Of the base instruction set. -/
  | rv32 (a : Rv32Access)
  /-- `CLC` or `CSC`. -/
  | cap (i : ExIn)
  deriving DecidableEq, Repr, Inhabited

namespace Access

/-- What an instruction asks of the load/store unit. `addrIncrReq` and `addrLast` come back from the
unit: the adder forms the second address of a split access from the first. -/
def request (a : Access) (enable executing addrIncrReq : Bool) (addrLast : Word) : Request :=
  match a with
  | .rv32 a =>
    let addr := if addrIncrReq then addrLast + 4 else a.addr
    { req := executing
      cheriotErr := rv32LsuErr enable a.debugMode a.cs1.full a.lsuType a.we addr addrIncrReq
      we := a.we
      isCap := false
      lsuType := a.lsuType
      signExt := a.signExt
      addr := addr
      wdata := a.wdata
      wcap := nullCap
      lcClrperm := ⟨false, false, false⟩ }
  | .cap i =>
    let i := { i with enable := enable }
    { req := executing && enable && i.op.isCap
      cheriotErr := i.cheriotLsuErr
      we := i.op == .cstoreCap
      isCap := i.op.isCap
      lsuType := 0
      signExt := false
      addr := i.cheriotLsuAddr addrIncrReq
      wdata := if i.op = .cstoreCap then i.cs2.data else 0
      wcap := if i.op = .cstoreCap then i.cscWcap else nullCap
      lcClrperm := i.lcClrperm }

/-- The instruction crosses a word boundary. -/
def Splits : Access → Prop
  | .rv32 a => (a.lsuType = 0 ∧ a.addr.extractLsb' 0 2 ≠ 0) ∨
      (a.lsuType = 1 ∧ a.addr.extractLsb' 0 2 = 3)
  | .cap _ => False

end Access

/-! ### The pipeline -/

/-- The pipeline, as far as it concerns memory. -/
structure MemPipe where
  /-- The load/store unit. -/
  lsu : LoadStoreUnit
  /-- The instruction that is held in ID/EX while the unit is busy with it. -/
  held : Option Access
  /-- A load or store is in the writeback stage. -/
  wbMem : Bool
  /-- `cheriot_enable_i`. -/
  enable : Bool
  deriving Inhabited

/-- The inputs of a cycle. -/
structure PipeIn where
  /-- The instruction that ID/EX would execute, if it is a load or store and nothing but an earlier
  access keeps it from executing. -/
  instr : Option Access
  /-- The data port. -/
  bus : BusIn
  /-- A write to the register that turns CHERIoT mode on. -/
  enableSet : Bool
  deriving Inhabited

namespace MemPipe

/-- The pipeline out of reset. -/
def init : MemPipe := ⟨.init, none, false, false⟩

variable (s : MemPipe) (i : PipeIn)

/-- The load or store in ID/EX. -/
def current : Option Access := if s.lsu.fsm = .idle then i.instr else s.held

/-- The negation of `outstanding_memory_access`. -/
def executing : Bool := !(s.wbMem && !s.lsu.respValid s.enable i.bus)

/-- The inputs of the load/store unit. -/
def request : Request :=
  match s.current i with
  | some a => a.request s.enable (s.executing i) (s.lsu.addrIncrReq s.enable) s.lsu.addrLast
  | none => default

/-- The request on the data port. -/
def up : UpstreamReq := s.lsu.up s.enable (s.request i) i.bus

/-- `lsu_req_done`. -/
def reqDone : Bool := s.lsu.reqDone s.enable (s.request i) i.bus

/-- One clock edge. CHERIoT mode is never left. -/
def step : MemPipe where
  lsu := s.lsu.step s.enable (s.request i) i.bus
  held := s.current i
  wbMem := ((s.request i).req && s.reqDone i) || !s.executing i
  enable := s.enable || i.enableSet

/-- The pipeline as a machine. -/
def machine : Machine MemPipe PipeIn := ⟨init, step⟩

/-! ### What the unit is doing -/

/-- What the state of the unit says about the instruction in ID/EX: which kind it is, which of its
accesses have been granted, and where the adder finds the address of the second. -/
def Working : Prop :=
  match s.lsu.fsm with
  | .idle => s.lsu.handleMisaligned = false
  | .waitGntMis =>
    ∃ a, s.held = some (.rv32 a) ∧ (Access.rv32 a).Splits ∧ s.lsu.handleMisaligned = false
  | .waitRvalidMis =>
    ∃ a, s.held = some (.rv32 a) ∧ (Access.rv32 a).Splits ∧ s.lsu.handleMisaligned = true ∧
      s.lsu.addrLast = a.addr
  | .waitGnt =>
    ∃ a, s.held = some (.rv32 a) ∧
      (s.lsu.handleMisaligned = true → (Access.rv32 a).Splits ∧ s.lsu.addrLast = a.addr)
  | .waitRvalidMisGntsDone =>
    ∃ a, s.held = some (.rv32 a) ∧ (Access.rv32 a).Splits ∧ s.lsu.handleMisaligned = false ∧
      s.lsu.addrLast = a.addr
  | .ctxWaitGnt1 | .ctxWaitGnt2 | .ctxWaitResp =>
    ∃ c, s.held = some (.cap c) ∧ c.op.isCap = true ∧ s.enable = true ∧
      s.lsu.handleMisaligned = false

/-- The invariant of the pipeline. -/
structure Inv : Prop where
  /-- The unit works on the instruction in ID/EX. -/
  working : s.Working
  /-- It starts on it only when the writeback stage has its response. -/
  alone : s.lsu.fsm ≠ .idle → s.wbMem = false

variable {s i}

/-- A request belongs to an instruction in ID/EX. -/
theorem request_req (h : (s.request i).req = true) :
    s.executing i = true ∧
      ((∃ a, s.current i = some (.rv32 a)) ∨
        ∃ c, s.current i = some (.cap c) ∧ c.op.isCap = true ∧ s.enable = true) := by
  rw [request] at h
  split at h
  case h_1 a ha =>
    cases a with
    | rv32 a => exact ⟨h, .inl ⟨a, ha⟩⟩
    | cap c =>
      simp only [Access.request, Bool.and_eq_true] at h
      exact ⟨h.1.1, .inr ⟨c, ha, h.2, h.1.2⟩⟩
  case h_2 => cases h

theorem current_of_busy (h : s.lsu.fsm ≠ .idle) : s.current i = s.held := if_neg h

theorem request_of_current {a : Access} (h : s.current i = some a) :
    s.request i =
      a.request s.enable (s.executing i) (s.lsu.addrIncrReq s.enable) s.lsu.addrLast := by
  rw [request, h]

/-- A request for a capability comes from a capability load or store. -/
theorem exists_cap_of_isCap (h : (s.request i).req = true) (hcap : (s.request i).isCap = true) :
    ∃ c, s.current i = some (.cap c) ∧ c.op.isCap = true := by
  obtain ⟨-, ⟨a, ha⟩ | ⟨c, hc, hop, -⟩⟩ := request_req h
  · rw [request_of_current ha] at hcap
    cases hcap
  · exact ⟨c, hc, hop⟩

/-- Any other request comes from a load or store of the base instruction set. -/
theorem exists_rv32_of_not_cap (h : (s.request i).req = true)
    (hcap : (s.request i).cap s.enable = false) : ∃ a, s.current i = some (.rv32 a) := by
  obtain ⟨-, ⟨a, ha⟩ | ⟨c, hc, hop, hen⟩⟩ := request_req h
  · exact ⟨a, ha⟩
  · rw [request_of_current hc] at hcap
    simp [Request.cap, Access.request, hop, hen] at hcap

/-- While the unit is busy, the instruction executes. -/
theorem Inv.executing (hs : s.Inv) (h : s.lsu.fsm ≠ .idle) : s.executing i = true := by
  rw [MemPipe.executing, hs.alone h]
  rfl

theorem splitMisalignedAccess_rv32 (a : Rv32Access) (enable executing : Bool) (last : Word) :
    ((Access.rv32 a).request enable executing false last).splitMisalignedAccess enable = true ↔
      (Access.rv32 a).Splits := by
  simp [Request.splitMisalignedAccess, Request.dataOffset, Request.cap, Access.request,
    Access.Splits]

theorem inv_init : init.Inv := ⟨rfl, fun h => absurd rfl h⟩

theorem Inv.working_step_idle (hs : s.Inv) (h : s.lsu.fsm = .idle) (i : PipeIn) :
    (s.step i).Working := by
  have hmis : s.lsu.handleMisaligned = false := by
    have hw := hs.working
    rwa [Working, h] at hw
  have hincr : s.lsu.addrIncrReq s.enable = false := by rw [LoadStoreUnit.addrIncrReq, h]
  rcases LoadStoreUnit.ctl_idle_cases h s.enable (s.request i) i.bus with
    ⟨-, hctl⟩ | ⟨-, -, -, hctl⟩ | ⟨hreq, hen, -, hcap, hctl⟩ | ⟨hreq, -, hcap, hctl⟩
  · simp [Working, step, LoadStoreUnit.step, hctl, hmis]
  · simp [Working, step, LoadStoreUnit.step, hctl, hmis]
  · obtain ⟨c, hc, hop⟩ := exists_cap_of_isCap hreq hcap
    rw [hen] at hctl
    cases hgnt : i.bus.gnt <;>
      simp [Working, step, LoadStoreUnit.step, hctl, hgnt, hc, hop, hen, hmis]
  · obtain ⟨a, ha⟩ := exists_rv32_of_not_cap hreq hcap
    have hsplit : (s.request i).splitMisalignedAccess s.enable = true ↔
        (Access.rv32 a).Splits := by
      rw [request_of_current ha, hincr]
      exact splitMisalignedAccess_rv32 ..
    have haddr : (s.request i).addr = a.addr := by rw [request_of_current ha, hincr]; rfl
    cases hsp : (s.request i).splitMisalignedAccess s.enable with
    | false =>
      cases hgnt : i.bus.gnt <;>
        simp [Working, step, LoadStoreUnit.step, hctl, hgnt, hsp, ha, hmis]
    | true =>
      cases hgnt : i.bus.gnt <;>
        simp [Working, step, LoadStoreUnit.step, hctl, hgnt, hsp, ha, hmis, hincr, haddr,
          hsplit.mp hsp]

theorem Inv.working_step (hs : s.Inv) (i : PipeIn) : (s.step i).Working := by
  have hw := hs.working
  cases h : s.lsu.fsm with
  | idle => exact hs.working_step_idle h i
  | waitGntMis =>
    simp only [Working, h] at hw
    obtain ⟨a, ha, hsp, hmis⟩ := hw
    have hcur : s.current i = some (.rv32 a) := (current_of_busy (by simp [h])).trans ha
    have hincr : s.lsu.addrIncrReq s.enable = false := by rw [LoadStoreUnit.addrIncrReq, h]
    have haddr : (s.request i).addr = a.addr := by rw [request_of_current hcur, hincr]; rfl
    cases hgnt : i.bus.gnt <;>
      simp [Working, step, LoadStoreUnit.step, LoadStoreUnit.ctl, h, hgnt, hcur, hsp, hmis, hincr,
        haddr]
  | waitRvalidMis =>
    simp only [Working, h] at hw
    obtain ⟨a, ha, hsp, hmis, hlast⟩ := hw
    have hcur : s.current i = some (.rv32 a) := (current_of_busy (by simp [h])).trans ha
    cases hgnt : i.bus.gnt <;> cases hrv : i.bus.rvalid <;>
      simp [Working, step, LoadStoreUnit.step, LoadStoreUnit.ctl, h, hgnt, hrv, hcur, hsp, hmis,
        hlast]
  | waitGnt =>
    simp only [Working, h] at hw
    obtain ⟨a, ha, hsecond⟩ := hw
    have hcur : s.current i = some (.rv32 a) := (current_of_busy (by simp [h])).trans ha
    cases hgnt : i.bus.gnt
    · simpa [Working, step, LoadStoreUnit.step, LoadStoreUnit.ctl, h, hgnt, hcur] using hsecond
    · simp [Working, step, LoadStoreUnit.step, LoadStoreUnit.ctl, h, hgnt]
  | waitRvalidMisGntsDone =>
    simp only [Working, h] at hw
    obtain ⟨a, ha, hsp, hmis, hlast⟩ := hw
    have hcur : s.current i = some (.rv32 a) := (current_of_busy (by simp [h])).trans ha
    cases hrv : i.bus.rvalid <;>
      simp [Working, step, LoadStoreUnit.step, LoadStoreUnit.ctl, h, hrv, hcur, hsp, hmis, hlast]
  | ctxWaitGnt1 =>
    simp only [Working, h] at hw
    obtain ⟨c, hc, hop, hen, hmis⟩ := hw
    have hcur : s.current i = some (.cap c) := (current_of_busy (by simp [h])).trans hc
    cases hgnt : i.bus.gnt <;>
      simp [Working, step, LoadStoreUnit.step, LoadStoreUnit.ctl, h, hgnt, hcur, hop, hen, hmis]
  | ctxWaitGnt2 =>
    simp only [Working, h] at hw
    obtain ⟨c, hc, hop, hen, hmis⟩ := hw
    have hcur : s.current i = some (.cap c) := (current_of_busy (by simp [h])).trans hc
    cases hgnt : i.bus.gnt
    · simp [Working, step, LoadStoreUnit.step, LoadStoreUnit.ctl, h, hgnt, hcur, hop, hen, hmis]
    · by_cases hresp : (i.bus.rvalid || s.lsu.capRx == .waitResp2) = true <;>
        simp [Working, step, LoadStoreUnit.step, LoadStoreUnit.ctl, h, hgnt, hresp, hcur, hop, hen,
          hmis]
  | ctxWaitResp =>
    simp only [Working, h] at hw
    obtain ⟨c, hc, hop, hen, hmis⟩ := hw
    have hcur : s.current i = some (.cap c) := (current_of_busy (by simp [h])).trans hc
    cases hrv : i.bus.rvalid <;>
      simp [Working, step, LoadStoreUnit.step, LoadStoreUnit.ctl, h, hrv, hcur, hop, hen, hmis]

theorem Inv.step (hs : s.Inv) (i : PipeIn) : (s.step i).Inv where
  working := hs.working_step i
  alone := by
    intro hbusy
    have hns : (s.lsu.ctl s.enable (s.request i) i.bus).ns ≠ .idle := hbusy
    have hdone : s.reqDone i = false := by
      rw [reqDone, LoadStoreUnit.reqDone, beq_eq_false_iff_ne.mpr hns, Bool.and_false]
    have hexec : s.executing i = true := by
      by_cases h : s.lsu.fsm = .idle
      · exact (request_req (LoadStoreUnit.req_of_ctl_idle h hns).1).1
      · exact hs.executing h
    simp [MemPipe.step, hdone, hexec]

/-- **The unit works on the instruction in ID/EX**, throughout every run. -/
theorem inv_stateAt (ins : ℕ → PipeIn) (t : ℕ) : (machine.stateAt ins t).Inv :=
  Machine.stateAt_inv' inv_init (fun _ i hs => hs.step i) t

end MemPipe

end Lsu

end Croc
