import Croc.Lsu.Protocol
import Croc.Revocation.Bridge
import Croc.Sram.Bank

/-!
# From the core to the memory banks

The path of a load or store: the pipeline and its load/store unit, the load filter, the core's side
of the crossbar, the multiplexers and the banks, put together into one machine. All of it is
combinational between two edges, from the response to the next request and from the request to its
grant, so the wires of a cycle are defined one after the other in that order.

What the machine leaves open are its inputs: the instructions, what the arbiters pick from the other
managers, the grants and answers of the other subordinates, and the bitmap port. A subordinate
answers the core only while an access of the core is with it.

## Main definitions

* `XbarSbr`, `addrDecode`: the outputs of the crossbar.
* `Demux`: `obi_demux`, which keeps the responses in order.
* `DataPath`, `DataPathIn`, `DataPath.step`: the whole path.
* `DataPath.pipeIns`, `DataPath.filterIns`: what a run gives to its pipeline and to its filter.

## Main results

* `DataPath.pipe_stateAt`, `DataPath.filter_stateAt`: both run as the machines they are.
* `DataPath.up_pipeInputs`, `DataPath.bus_pipeInputs`: how they are connected.
* `DataPath.paced`: the registers count what is on its way, throughout every run.
* `DataPath.disciplined`: the core keeps to the protocol of its filter.
-/

namespace Croc

namespace Sram

open Cheriot Clocked Lsu Revocation

open Bits (Word)

/-! ### The crossbar -/

/-- `croc_xbar_outputs_e`. -/
inductive XbarSbr
  | error
  | periph
  | user
  | bank (k : Fin 2)
  | revBitmap
  | hyperbus
  deriving DecidableEq, Repr

/-- `addr_decode` over `CrocAddrMap`, with the error subordinate as the default. -/
def addrDecode (addr : Word) : XbarSbr :=
  if addr < 0x10000000 then .periph
  else if addr < 0x10010000 then .bank bank0
  else if addr < 0x10020000 then .bank bank1
  else if addr < 0x10020400 then .revBitmap
  else if addr < 0x20000000 then .error
  else if addr < 0x80000000 then .user
  else if addr < 0x90000000 then .hyperbus
  else .error

/-- `obi_demux` of the core's data port. -/
structure Demux where
  /-- `select_q`. -/
  select : XbarSbr
  /-- `counter_q` of the counter: `in_flight` is its lower bit and `overflow` its upper one. -/
  inFlight : BitVec 2
  deriving DecidableEq, Repr

namespace Demux

variable (d : Demux)

/-- The demultiplexer out of reset. -/
def init : Demux := ⟨.error, 0⟩

/-- A request for `sel` is let through. -/
def passes (sel : XbarSbr) (cntDown : Bool) : Bool :=
  !d.inFlight.getLsbD 1 &&
    (sel == d.select || !d.inFlight.getLsbD 0 || (d.inFlight.getLsbD 0 && cntDown))

/-- One clock edge. -/
def next (sel : XbarSbr) (cntUp cntDown : Bool) : Demux where
  select := if cntUp then sel else d.select
  inFlight :=
    if cntUp != cntDown then if cntDown then d.inFlight - 1 else d.inFlight + 1 else d.inFlight

variable {d} {sel : XbarSbr} {cntUp cntDown : Bool}

/-- At most two accesses are in flight, all to the same subordinate. -/
theorem passes_iff : d.passes sel cntDown = true ↔ d.inFlight.toNat = 0 ∨
    d.inFlight.toNat = 1 ∧ (sel = d.select ∨ cntDown = true) := by
  have h : ∀ (n : BitVec 2) (same down : Bool),
      (!n.getLsbD 1 && (same || !n.getLsbD 0 || (n.getLsbD 0 && down))) = true ↔
        n.toNat = 0 ∨ n.toNat = 1 ∧ (same = true ∨ down = true) := by decide
  rw [passes, h, beq_iff_eq]

/-- The counter counts. -/
theorem toNat_inFlight_next (hup : cntUp = true → d.inFlight.toNat ≤ 1)
    (hdown : cntDown = true → d.inFlight.toNat ≠ 0) :
    (d.next sel cntUp cntDown).inFlight.toNat + cntDown.toNat =
      d.inFlight.toNat + cntUp.toNat := by
  have h : ∀ (n : BitVec 2) (up down : Bool), (up = true → n.toNat ≤ 1) →
      (down = true → n.toNat ≠ 0) →
      (if up != down then if down then n - 1 else n + 1 else n).toNat + down.toNat =
        n.toNat + up.toNat := by decide
  exact h _ _ _ hup hdown

end Demux

/-! ### The path -/

/-- The registers of the path. -/
structure DataPath where
  /-- An instruction can be in ID/EX. There is none in the cycle that leaves reset. -/
  awake : Bool
  /-- The pipeline. -/
  pipe : MemPipe
  /-- The load filter. -/
  filter : Trvk
  /-- The core's side of the crossbar. -/
  demux : Demux
  /-- The banks. -/
  banks : Fin 2 → BankPort

/-- The inputs of a cycle. -/
structure DataPathIn where
  /-- The load or store that ID/EX would execute. -/
  instr : Option Lsu.Access
  /-- CHERIoT mode is turned on. -/
  enableSet : Bool
  /-- What the arbiter of each bank picks, if it does not pick the core's data port. -/
  arb : Fin 2 → Option OtherReq
  /-- The grant of the other subordinates. -/
  gnt : Bool
  /-- The answer of the other subordinates, if an access of the core is with them. -/
  answer : Option DsRsp
  /-- `revbm_gnt_i`. -/
  revbmGnt : Bool
  /-- `revbm_rvalid_i`. -/
  revbmRvalid : Bool
  /-- `revbm_rdata_i`. -/
  revbmRdata : Word
  /-- `revbm_err_i`. -/
  revbmErr : Bool
  deriving Inhabited

namespace DataPath

/-- The path out of reset, with `boot` in the banks. -/
def init (boot : Fin 2 → Index → Word) : DataPath :=
  ⟨false, .init, .init, .init, fun k => .init (boot k)⟩

variable (s : DataPath) (i : DataPathIn)

/-- The response of a bank to the core. -/
def bankRsp (k : Fin 2) : DsRsp :=
  if (s.banks k).ids.items.headD false then
    ⟨(s.banks k).bank.rdata, 0, (s.banks k).bank.tagRead, false⟩
  else default

/-- `downstream_rvalid_i` of the filter. -/
def dsRvalid : Bool :=
  match s.demux.select with
  | .bank k => (s.banks k).rvalid
  | _ => i.answer.isSome && s.demux.inFlight != 0

/-- The response to the filter. -/
def dsRsp : DsRsp :=
  match s.demux.select with
  | .bank k => s.bankRsp k
  | _ => i.answer.getD default

/-- The inputs of the filter, with the request `up` and its grant still open. -/
def filterIn (up : UpstreamReq) (dsGnt : Bool) : TrvkIn where
  up := up
  dsGnt := dsGnt
  dsRvalid := s.dsRvalid i
  dsRsp := s.dsRsp i
  revbmGnt := i.revbmGnt
  revbmRvalid := i.revbmRvalid
  revbmRdata := i.revbmRdata
  revbmErr := i.revbmErr

/-- The inputs of the pipeline, with the grant still open. -/
def pipeIn (gnt : Bool) : PipeIn where
  instr := if s.awake then i.instr else none
  bus := ⟨gnt, s.filter.upRvalid (s.filterIn i default false),
    s.filter.upRsp (s.filterIn i default false)⟩
  enableSet := i.enableSet

/-- The request of the load/store unit. -/
def up : UpstreamReq := s.pipe.up (s.pipeIn i false)

/-- `sbr_port_select`. -/
def sel : XbarSbr := addrDecode (s.up i).addr

/-- The demultiplexer lets the request through. -/
def passes : Bool := s.demux.passes (s.sel i) (s.dsRvalid i)

/-- `downstream_gnt_i` of the filter. -/
def dsGnt : Bool :=
  s.passes i &&
    match s.sel i with
    | .bank k => (s.banks k).gnt (i.arb k)
    | _ => i.gnt

/-- The inputs of the filter. -/
def filterInputs : TrvkIn := s.filterIn i (s.up i) (s.dsGnt i)

/-- The inputs of the pipeline. -/
def pipeInputs : PipeIn := s.pipeIn i (s.filter.upGnt (s.filterInputs i))

/-- The access of the core to bank `k`. -/
def coreReq (k : Fin 2) : Option BankReq :=
  if s.filter.dsReq (s.filterInputs i) && s.passes i && s.sel i == .bank k then
    some ⟨(s.up i).addr, (s.up i).we, (s.up i).be, (s.up i).wdata, (s.up i).tag⟩
  else none

/-- The access that bank `k` takes, and whether it is the core's. -/
def access (k : Fin 2) : Option (BankReq × Bool) := (s.banks k).selected (s.coreReq i k) (i.arb k)

/-- One clock edge of bank `k`. -/
def nextBank (k : Fin 2) : BankPort := (s.banks k).step (s.coreReq i k) (i.arb k) k

/-- `cnt_up`: an access of the core is granted. -/
def cntUp : Bool := s.filter.dsReq (s.filterInputs i) && s.dsGnt i

/-- One clock edge. -/
def step : DataPath where
  awake := true
  pipe := s.pipe.step (s.pipeInputs i)
  filter := s.filter.step (s.filterInputs i)
  demux := s.demux.next (s.sel i) (s.cntUp i) (s.dsRvalid i)
  banks := ![s.nextBank i bank0, s.nextBank i bank1]

/-- The path as a machine. -/
def machine (boot : Fin 2 → Index → Word) : Machine DataPath DataPathIn := ⟨init boot, step⟩

/-! ### The parts of a run -/

section Run

variable (boot : Fin 2 → Index → Word) (ins : ℕ → DataPathIn) (t : ℕ)

/-- The state at the start of cycle `t`. -/
def stateAt : DataPath := (machine boot).stateAt ins t

/-- What a run gives to its pipeline. -/
def pipeIns : PipeIn := (stateAt boot ins t).pipeInputs (ins t)

/-- What a run gives to its filter. -/
def filterIns : TrvkIn := (stateAt boot ins t).filterInputs (ins t)

theorem stateAt_succ : stateAt boot ins (t + 1) = (stateAt boot ins t).step (ins t) := rfl

theorem pipe_stateAt :
    (stateAt boot ins t).pipe = MemPipe.machine.stateAt (pipeIns boot ins) t :=
  Machine.stateAt_component (N := MemPipe.machine) (f := DataPath.pipe) rfl (fun _ _ => rfl) t

theorem filter_stateAt :
    (stateAt boot ins t).filter = Trvk.machine.stateAt (filterIns boot ins) t :=
  Machine.stateAt_component (N := Trvk.machine) (f := DataPath.filter) rfl (fun _ _ => rfl) t

theorem pipe_stateAt_succ :
    (stateAt boot ins (t + 1)).pipe = (stateAt boot ins t).pipe.step (pipeIns boot ins t) := rfl

end Run

variable {s i}

theorem banks_step (k : Fin 2) :
    (s.step i).banks k = (s.banks k).step (s.coreReq i k) (i.arb k) k := by
  revert k
  exact Fin.forall_fin_two.mpr ⟨rfl, rfl⟩

/-- The request does not depend on its grant. -/
theorem up_pipeInputs : s.pipe.up (s.pipeInputs i) = s.up i := by
  rw [up, MemPipe.up, MemPipe.up, LoadStoreUnit.up_eq, LoadStoreUnit.up_eq]
  rfl

/-- Neither does the response. -/
theorem bus_pipeInputs : (s.pipeInputs i).bus =
    ⟨s.filter.upGnt (s.filterInputs i), s.filter.upRvalid (s.filterInputs i),
      s.filter.upRsp (s.filterInputs i)⟩ := by
  have h : Trvk.SameRsp (s.filterIn i default false) (s.filterInputs i) :=
    ⟨⟨rfl, rfl⟩, ⟨rfl, rfl, rfl⟩⟩
  rw [← h.upRvalid, ← h.upRsp]
  rfl

/-- A bank takes the core's access exactly if it is granted. -/
theorem coreReq_granted_iff {k : Fin 2} (h : (s.banks k).Synced) :
    ((s.coreReq i k).isSome && (i.arb k).isNone) = true ↔ s.cntUp i = true ∧ s.sel i = .bank k := by
  have hgnt : (s.banks k).gnt (i.arb k) = (i.arb k).isNone := by
    rw [BankPort.gnt, h.full]
    simp
  by_cases hsel : s.sel i = .bank k
  · simp only [coreReq, cntUp, dsGnt, hsel, hgnt, BEq.rfl, Bool.and_true]
    cases s.filter.dsReq (s.filterInputs i) <;> cases s.passes i <;> simp
  · simp [coreReq, hsel]

/-! ### The path keeps to the protocol -/

variable {boot : Fin 2 → Index → Word} {ins : ℕ → DataPathIn} {t : ℕ}

/-- The load/store unit is granted what the filter grants. -/
theorem gnt_pipeIns : (pipeIns boot ins t).bus.gnt =
    (Trvk.machine.stateAt (filterIns boot ins) t).upGnt (filterIns boot ins t) := by
  rw [pipeIns, bus_pipeInputs, filter_stateAt]
  rfl

/-- It receives what the filter delivers. -/
theorem rvalid_pipeIns : (pipeIns boot ins t).bus.rvalid =
    (Trvk.machine.stateAt (filterIns boot ins) t).upRvalid (filterIns boot ins t) := by
  rw [pipeIns, bus_pipeInputs, filter_stateAt]
  rfl

theorem inv_pipe : (stateAt boot ins t).pipe.Inv := by
  rw [pipe_stateAt]
  exact MemPipe.inv_stateAt _ t

/-- Nothing is requested in the cycle that leaves reset. -/
theorem up_zero : ((stateAt boot ins 0).up (ins 0)).req = false := rfl

/-- **The invariant of the path.** The registers count what is on its way, and the banks answer what
the demultiplexer waits for. -/
structure Paced (boot : Fin 2 → Index → Word) (ins : ℕ → DataPathIn) (t : ℕ) : Prop where
  /-- The filter is a bridge. -/
  bridge : Trvk.Bridge (filterIns boot ins) t
  /-- The second state machine of the load/store unit is where it belongs. -/
  receiving : (stateAt boot ins t).pipe.Receiving
  /-- The load/store unit counts what it is owed. -/
  count : (Trvk.requested (filterIns boot ins) t).length =
    (Trvk.delivered (filterIns boot ins) t).length + (stateAt boot ins t).pipe.outstanding
  /-- The demultiplexer counts what is in flight. -/
  flight : (Trvk.forwarded (filterIns boot ins) t).length =
    (Trvk.arrived (filterIns boot ins) t).length + (stateAt boot ins t).demux.inFlight.toNat
  /-- The multiplexers know for whom their answers are. -/
  synced : ∀ k, ((stateAt boot ins t).banks k).Synced
  /-- A bank answers the core exactly if the demultiplexer waits for it. -/
  bank_rvalid : ∀ k, ((stateAt boot ins t).banks k).rvalid = true ↔
    (stateAt boot ins t).demux.select = .bank k ∧ (stateAt boot ins t).demux.inFlight.toNat ≠ 0
  /-- A bank has one access in flight at most. -/
  bank_one : ∀ k, (stateAt boot ins t).demux.select = .bank k →
    (stateAt boot ins t).demux.inFlight.toNat ≤ 1

theorem paced_zero (boot : Fin 2 → Index → Word) (ins : ℕ → DataPathIn) : Paced boot ins 0 where
  bridge := Trvk.bridge_zero _
  receiving := MemPipe.receiving_init
  count := rfl
  flight := rfl
  synced _ := BankPort.synced_init _
  bank_rvalid _ := ⟨nofun, nofun⟩
  bank_one _ := nofun

namespace Paced

variable (hp : Paced boot ins t)

include hp

/-- What answers has something to answer. -/
theorem inFlight_ne_zero (hv : (stateAt boot ins t).dsRvalid (ins t) = true) :
    (stateAt boot ins t).demux.inFlight.toNat ≠ 0 := by
  rw [dsRvalid] at hv
  split at hv
  · exact ((hp.bank_rvalid _).mp hv).2
  · rw [Bool.and_eq_true, bne_iff_ne] at hv
    exact fun h => hv.2 (BitVec.eq_of_toNat_eq h)

/-- **The path keeps to the protocol of the filter.** -/
theorem disciplinedAt : Trvk.DisciplinedAt (filterIns boot ins) t where
  ne_zero hreq := by
    rintro rfl
    exact absurd hreq (by rw [filterIns, filterInputs, filterIn, up_zero]; simp)
  hold hreq hg := by
    have hbus : (pipeIns boot ins t).bus.gnt = false := by
      rw [pipeIns, bus_pipeInputs, filter_stateAt]
      exact hg
    have hup : (filterIns boot ins (t + 1)).up =
        ((stateAt boot ins t).pipe.step (pipeIns boot ins t)).up (pipeIns boot ins (t + 1)) :=
      up_pipeInputs.symm
    have hup' : (filterIns boot ins t).up = (stateAt boot ins t).pipe.up (pipeIns boot ins t) :=
      up_pipeInputs.symm
    rw [hup, hup']
    exact inv_pipe.up_hold (hup' ▸ hreq) hbus
  room hreq := by
    have hup : (filterIns boot ins t).up = (stateAt boot ins t).pipe.up (pipeIns boot ins t) :=
      up_pipeInputs.symm
    have hle := MemPipe.outstanding_le_one (hup ▸ hreq)
    have hcount := hp.count
    omega
  causal hv := by
    have hne := hp.inFlight_ne_zero hv
    have hflight := hp.flight
    omega

/-- A request reaches the memory system in the cycle in which it is made, and so does its grant. -/
theorem upGnt_eq : (pipeIns boot ins t).bus.gnt =
      (((stateAt boot ins t).up (ins t)).req && (stateAt boot ins t).dsGnt (ins t)) ∧
    (stateAt boot ins t).filter.dsReq (filterIns boot ins t) =
      ((stateAt boot ins t).up (ins t)).req := by
  have h := hp.bridge.upGnt_eq hp.disciplinedAt
  rw [← filter_stateAt] at h
  rw [pipeIns, bus_pipeInputs]
  exact h

theorem rvalid_outstanding (hv : (pipeIns boot ins t).bus.rvalid = true) :
    0 < (stateAt boot ins t).pipe.outstanding := by
  rw [pipeIns, bus_pipeInputs, filter_stateAt] at hv
  have hlt := (hp.bridge.lt_of_upRvalid hp.disciplinedAt hv).2
  have hcount := hp.count
  omega

theorem advances : (stateAt boot ins t).pipe.Advances (pipeIns boot ins t) :=
  hp.receiving.advances inv_pipe hp.rvalid_outstanding

theorem count_succ : (Trvk.requested (filterIns boot ins) (t + 1)).length =
    (Trvk.delivered (filterIns boot ins) (t + 1)).length +
      (stateAt boot ins (t + 1)).pipe.outstanding := by
  have hadv := hp.advances.2
  have hcount := hp.count
  have hup : (stateAt boot ins t).pipe.up (pipeIns boot ins t) = (filterIns boot ins t).up :=
    up_pipeInputs
  have hgnt := (hp.bridge.upGnt_eq hp.disciplinedAt).1
  rw [Trvk.length_requested_succ, Trvk.length_delivered_succ, pipe_stateAt_succ]
  rw [hup, gnt_pipeIns, hgnt, rvalid_pipeIns, ← Bool.and_assoc, Bool.and_self] at hadv
  rw [hgnt]
  omega

theorem inFlight_succ : (stateAt boot ins (t + 1)).demux.inFlight.toNat +
      ((stateAt boot ins t).dsRvalid (ins t)).toNat =
    (stateAt boot ins t).demux.inFlight.toNat +
      ((stateAt boot ins t).cntUp (ins t)).toNat := by
  refine Demux.toNat_inFlight_next (fun hup => ?_) hp.inFlight_ne_zero
  simp only [cntUp, dsGnt, passes, Bool.and_eq_true] at hup
  rcases Demux.passes_iff.mp hup.2.1 with h | h <;> omega

theorem flight_succ : (Trvk.forwarded (filterIns boot ins) (t + 1)).length =
    (Trvk.arrived (filterIns boot ins) (t + 1)).length +
      (stateAt boot ins (t + 1)).demux.inFlight.toNat := by
  have hflight := hp.flight
  have hstep := hp.inFlight_succ
  have hup : (stateAt boot ins t).cntUp (ins t) =
      ((Trvk.machine.stateAt (filterIns boot ins) t).dsReq (filterIns boot ins t) &&
        (filterIns boot ins t).dsGnt) := by
    rw [← filter_stateAt]
    rfl
  have hdown : (filterIns boot ins t).dsRvalid = (stateAt boot ins t).dsRvalid (ins t) := rfl
  rw [Trvk.length_forwarded_succ, Trvk.length_arrived_succ, ← hup, hdown]
  omega

/-- A bank in flight answers. -/
theorem dsRvalid_of_bank {k : Fin 2} (hsel : (stateAt boot ins t).demux.select = .bank k)
    (hne : (stateAt boot ins t).demux.inFlight.toNat ≠ 0) :
    (stateAt boot ins t).dsRvalid (ins t) = true := by
  rw [dsRvalid, hsel]
  exact (hp.bank_rvalid k).mpr ⟨hsel, hne⟩

theorem bank_succ (k : Fin 2) :
    (((stateAt boot ins (t + 1)).banks k).rvalid = true ↔
      (stateAt boot ins (t + 1)).demux.select = .bank k ∧
        (stateAt boot ins (t + 1)).demux.inFlight.toNat ≠ 0) ∧
    ((stateAt boot ins (t + 1)).demux.select = .bank k →
      (stateAt boot ins (t + 1)).demux.inFlight.toNat ≤ 1) := by
  have hflight := hp.inFlight_succ
  have hrv : ((stateAt boot ins (t + 1)).banks k).rvalid = true ↔
      (stateAt boot ins t).cntUp (ins t) = true ∧ (stateAt boot ins t).sel (ins t) = .bank k := by
    rw [stateAt_succ, banks_step, (hp.synced k).rvalid_step, coreReq_granted_iff (hp.synced k)]
  have hselect : (stateAt boot ins (t + 1)).demux.select =
      if (stateAt boot ins t).cntUp (ins t) then (stateAt boot ins t).sel (ins t)
      else (stateAt boot ins t).demux.select := rfl
  rw [hrv, hselect]
  cases hup : (stateAt boot ins t).cntUp (ins t) with
  | true =>
    have hpass : (stateAt boot ins t).passes (ins t) = true := by
      simp only [cntUp, dsGnt, Bool.and_eq_true] at hup
      exact hup.2.1
    rw [hup, Bool.toNat_true] at hflight
    have hone : (stateAt boot ins t).sel (ins t) = .bank k →
        (stateAt boot ins t).demux.inFlight.toNat ≤
          ((stateAt boot ins t).dsRvalid (ins t)).toNat := by
      intro hsel
      rcases Demux.passes_iff.mp hpass with h | ⟨h, hsame | hdown⟩
      · omega
      · rw [hp.dsRvalid_of_bank (hsame ▸ hsel) (by omega)]
        simp [h]
      · rw [hdown]
        simp [h]
    have hle : ((stateAt boot ins t).dsRvalid (ins t)).toNat ≤
        (stateAt boot ins t).demux.inFlight.toNat := by
      cases hdown : (stateAt boot ins t).dsRvalid (ins t) with
      | false => simp
      | true =>
        have := hp.inFlight_ne_zero hdown
        rw [Bool.toNat_true]
        omega
    refine ⟨⟨fun h => ⟨h.2, by omega⟩, fun h => ⟨rfl, h.1⟩⟩, fun hsel => ?_⟩
    have := hone hsel
    omega
  | false =>
    rw [hup, Bool.toNat_false] at hflight
    refine ⟨⟨nofun, fun ⟨hsel, hne⟩ => ?_⟩, fun hsel => ?_⟩
    · -- what was in flight to the bank has been answered
      have hrv := hp.dsRvalid_of_bank hsel (by omega)
      have hle := hp.bank_one k hsel
      rw [hrv, Bool.toNat_true] at hflight
      omega
    · have hle := hp.bank_one k hsel
      omega

/-- The invariant survives a cycle. -/
theorem succ : Paced boot ins (t + 1) where
  bridge := hp.bridge.succ hp.disciplinedAt
  receiving := hp.advances.1
  count := hp.count_succ
  flight := hp.flight_succ
  synced k := by
    rw [stateAt_succ, banks_step]
    exact (hp.synced k).step
  bank_rvalid k := (hp.bank_succ k).1
  bank_one k := (hp.bank_succ k).2

end Paced

/-- **The path is paced**, throughout every run. -/
theorem paced (boot : Fin 2 → Index → Word) (ins : ℕ → DataPathIn) (t : ℕ) : Paced boot ins t := by
  induction t with
  | zero => exact paced_zero boot ins
  | succ t ih => exact ih.succ

/-- **The core disciplines its filter.** -/
theorem disciplined (boot : Fin 2 → Index → Word) (ins : ℕ → DataPathIn) :
    Trvk.Disciplined (filterIns boot ins) where
  quiet := up_zero
  hold t := (paced boot ins t).disciplinedAt.hold
  room t := (paced boot ins t).disciplinedAt.room
  causal t := (paced boot ins t).disciplinedAt.causal

end DataPath

end Sram

end Croc
