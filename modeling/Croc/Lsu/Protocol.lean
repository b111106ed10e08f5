import Croc.Lsu.Issue

/-!
# The load/store unit on the data port

Towards the data port the load/store unit keeps to three rules. A request does not wait for its
grant, it is held unchanged until the grant comes, and it is made only while at most one earlier
access is unanswered. How many accesses are unanswered can be read off the registers of the
pipeline, and so can the number of the response that a capability access waits for.

## Main definitions

* `LoadStoreUnit.sends`: the unit asks for an access.
* `MemPipe.outstanding`: the number of unanswered accesses.
* `MemPipe.Receiving`: where the second state machine stands.

## Main results

* `LoadStoreUnit.up_eq`: the request does not depend on the answer of the port.
* `MemPipe.Inv.up_hold`: a request is held until it is granted.
* `MemPipe.outstanding_le_one`: a request is made only while there is room for it.
* `MemPipe.Receiving.advances`: what one cycle does to the count.
-/

namespace Croc

namespace Lsu

open Cheriot Revocation

namespace LoadStoreUnit

/-- The unit asks for an access, whether it is granted or not. -/
def sends (s : LoadStoreUnit) (enable : Bool) (q : Request) : Bool :=
  match s.fsm with
  | .idle => q.cpuReqValid enable
  | .waitGntMis | .waitRvalidMis | .waitGnt => true
  | .waitRvalidMisGntsDone | .ctxWaitResp => false
  | .ctxWaitGnt1 | .ctxWaitGnt2 => enable

variable {s : LoadStoreUnit} {enable : Bool} {q : Request} {b : BusIn}

theorem dataReq_ctl : (s.ctl enable q b).dataReq = s.sends enable q := by
  cases h : s.fsm with
  | idle => rw [dataReq_ctl_idle h, sends, h]
  | waitGntMis => cases hg : b.gnt <;> simp [ctl, sends, h, hg]
  | waitRvalidMis => cases hg : b.gnt <;> cases hr : b.rvalid <;> simp [ctl, sends, h, hg, hr]
  | waitGnt => cases hg : b.gnt <;> simp [ctl, sends, h, hg]
  | waitRvalidMisGntsDone => cases hr : b.rvalid <;> simp [ctl, sends, h, hr]
  | ctxWaitGnt1 => cases hen : enable <;> cases hg : b.gnt <;> simp [ctl, sends, h, hg]
  | ctxWaitGnt2 =>
    cases enable with
    | false => simp [ctl, sends, h]
    | true =>
      simp only [ctl, sends, h, if_true]
      split_ifs <;> rfl
  | ctxWaitResp => cases hen : enable <;> cases hr : b.rvalid <;> simp [ctl, sends, h, hr]

/-- What goes out on the port depends on the answer of the port in no way. -/
theorem up_eq : s.up enable q b =
    { req := s.sends enable q, we := q.we, be := q.dataBe enable s.handleMisaligned
      addr := dataAddrWAligned q, wdata := (q.dataWdata enable s.fsm).2, wdataIntg := 0
      tag := (q.dataWdata enable s.fsm).1 } := by
  rw [up, dataReq_ctl]

/-- Without a grant a busy unit stays where it is, or goes on waiting for the grant alone. -/
theorem ctl_not_granted (h : s.fsm ≠ .idle) (hs : s.sends enable q = true) (hg : b.gnt = false) :
    (s.ctl enable q b).addrUpdate = false ∧
      ((s.ctl enable q b).ns = s.fsm ∧
          (s.ctl enable q b).handleMisaligned = s.handleMisaligned ∨
        s.fsm = .waitRvalidMis ∧ (s.ctl enable q b).ns = .waitGnt ∧
          (s.ctl enable q b).handleMisaligned = true) := by
  cases hfsm : s.fsm with
  | idle => exact absurd hfsm h
  | waitGntMis => simp [ctl, hfsm, hg]
  | waitRvalidMis => cases hr : b.rvalid <;> simp [ctl, hfsm, hg, hr]
  | waitGnt => simp [ctl, hfsm, hg]
  | waitRvalidMisGntsDone => simp [sends, hfsm] at hs
  | ctxWaitGnt1 =>
    rw [sends, hfsm] at hs
    simp [ctl, hfsm, hg, hs]
  | ctxWaitGnt2 =>
    rw [sends, hfsm] at hs
    simp [ctl, hfsm, hg, hs]
  | ctxWaitResp => simp [sends, hfsm] at hs

end LoadStoreUnit

namespace MemPipe

variable {s : MemPipe} {i j : PipeIn}

theorem fsm_step :
    (s.step i).lsu.fsm = (s.lsu.ctl s.enable (s.request i) i.bus).ns := rfl

theorem handleMisaligned_step : (s.step i).lsu.handleMisaligned =
    (s.lsu.ctl s.enable (s.request i) i.bus).handleMisaligned := rfl

theorem capRx_step :
    (s.step i).lsu.capRx = s.lsu.capRxD s.enable (s.request i) i.bus := rfl

theorem wbMem_step :
    (s.step i).wbMem = (((s.request i).req && s.reqDone i) || !s.executing i) := rfl

theorem addrLast_step_of_not_update
    (h : (s.lsu.ctl s.enable (s.request i) i.bus).addrUpdate = false) :
    (s.step i).lsu.addrLast = s.lsu.addrLast := by
  rw [step, LoadStoreUnit.step, h]
  rfl

theorem enable_step_of (h : s.enable = true) : (s.step i).enable = true := by
  rw [step, h]
  rfl

theorem req_up : (s.up i).req = s.lsu.sends s.enable (s.request i) := LoadStoreUnit.dataReq_ctl

/-! ### A request is held -/

/-- Where the request of the next cycle comes from, once the unit has left its idle state. -/
theorem request_step (hbusy : (s.step i).lsu.fsm ≠ .idle) {a : Access} (ha : s.current i = some a) :
    (s.step i).request j = a.request (s.step i).enable ((s.step i).executing j)
      ((s.step i).lsu.addrIncrReq (s.step i).enable) (s.step i).lsu.addrLast :=
  request_of_current ((current_of_busy hbusy).trans ha)

/-- A data access looks the same on the port in the next cycle. -/
theorem up_hold_rv32 {a : Rv32Access} (ha : s.current i = some (.rv32 a))
    (hbusy : (s.step i).lsu.fsm ≠ .idle)
    (hsends : ((s.step i).up j).req = (s.up i).req)
    (hmis : (s.step i).lsu.handleMisaligned = s.lsu.handleMisaligned)
    (hincr : (s.step i).lsu.addrIncrReq (s.step i).enable = s.lsu.addrIncrReq s.enable)
    (hlast : s.lsu.addrIncrReq s.enable = true → (s.step i).lsu.addrLast = s.lsu.addrLast) :
    (s.step i).up j = s.up i := by
  have haddr : (if s.lsu.addrIncrReq s.enable then (s.step i).lsu.addrLast + 4 else a.addr) =
      if s.lsu.addrIncrReq s.enable then s.lsu.addrLast + 4 else a.addr := by
    cases h : s.lsu.addrIncrReq s.enable with
    | false => rfl
    | true => rw [hlast h]
  rw [req_up, req_up] at hsends
  rw [up, up, LoadStoreUnit.up_eq, LoadStoreUnit.up_eq, hsends, request_step hbusy ha,
    request_of_current ha, hmis, hincr]
  simp only [Access.request, Request.dataBe, Request.dataWdata, Request.wdataInt,
    Request.dataOffset, Request.cap, LoadStoreUnit.dataAddrWAligned, haddr, Bool.and_false,
    Bool.false_eq_true, if_false]

/-- A capability access looks the same on the port in the next cycle. -/
theorem up_hold_cap {c : ExIn} (hc : s.current i = some (.cap c)) (hen : s.enable = true)
    (hfsm : ((s.step i).lsu.fsm == .ctxWaitGnt2) = (s.lsu.fsm == .ctxWaitGnt2))
    (hbusy : (s.step i).lsu.fsm ≠ .idle)
    (hsends : ((s.step i).up j).req = (s.up i).req)
    (hmis : (s.step i).lsu.handleMisaligned = s.lsu.handleMisaligned)
    (hincr : (s.step i).lsu.addrIncrReq (s.step i).enable = s.lsu.addrIncrReq s.enable) :
    (s.step i).up j = s.up i := by
  have hen' : (s.step i).enable = true := enable_step_of hen
  rw [req_up, req_up] at hsends
  rw [up, up, LoadStoreUnit.up_eq, LoadStoreUnit.up_eq, hsends, request_step hbusy hc,
    request_of_current hc, hmis, hincr, hen', hen]
  simp only [Access.request, Request.dataBe, Request.dataWdata, Request.wdataInt,
    Request.dataOffset, Request.cap, LoadStoreUnit.dataAddrWAligned, hfsm]

theorem Inv.up_hold_idle (hs : s.Inv) (h : s.lsu.fsm = .idle) (hreq : (s.up i).req = true)
    (hg : i.bus.gnt = false) : (s.step i).up j = s.up i := by
  have hmis : s.lsu.handleMisaligned = false := by
    have hw := hs.working
    rwa [Working, h] at hw
  have hincr : s.lsu.addrIncrReq s.enable = false := by rw [LoadStoreUnit.addrIncrReq, h]
  have hsends := hreq
  rw [req_up] at hsends
  rcases LoadStoreUnit.ctl_idle_cases h s.enable (s.request i) i.bus with
    ⟨hno, -⟩ | ⟨-, hen, herr, -⟩ | ⟨hq, hen, -, hcap, hctl⟩ | ⟨hq, -, hcap, hctl⟩
  · simp [LoadStoreUnit.sends, h, Request.cpuReqValid, hno] at hsends
  · simp [LoadStoreUnit.sends, h, Request.cpuReqValid, hen, herr] at hsends
  · obtain ⟨c, hc, -⟩ := exists_cap_of_isCap hq hcap
    have hfsm : (s.step i).lsu.fsm = .ctxWaitGnt1 := by rw [fsm_step, hctl, hg]; rfl
    refine up_hold_cap hc hen (by rw [hfsm, h]; rfl) (by simp [hfsm]) ?_ ?_ ?_
    · rw [req_up, hreq, LoadStoreUnit.sends, hfsm]
      exact enable_step_of hen
    · rw [handleMisaligned_step, hctl]
    · rw [hincr, LoadStoreUnit.addrIncrReq, hfsm]
  · obtain ⟨a, ha⟩ := exists_rv32_of_not_cap hq hcap
    have hfsm : (s.step i).lsu.fsm = .waitGntMis ∨ (s.step i).lsu.fsm = .waitGnt := by
      rw [fsm_step, hctl, hg]
      cases (s.request i).splitMisalignedAccess s.enable <;> simp
    have hmis' : (s.step i).lsu.handleMisaligned = s.lsu.handleMisaligned := by
      rw [handleMisaligned_step, hctl, hg]
      rfl
    refine up_hold_rv32 ha ?_ ?_ hmis' ?_ (by simp [hincr])
    · rcases hfsm with hfsm | hfsm <;> simp [hfsm]
    · rw [req_up, hreq, LoadStoreUnit.sends]
      rcases hfsm with hfsm | hfsm <;> rw [hfsm]
    · rw [hincr, LoadStoreUnit.addrIncrReq]
      rcases hfsm with hfsm | hfsm <;> simp [hfsm, hmis', hmis]

/-- What a busy unit works on. -/
theorem Inv.busy (hs : s.Inv) (h : s.lsu.fsm ≠ .idle) :
    (∃ a, s.held = some (.rv32 a) ∧ (s.lsu.fsm = .waitGntMis ∨ s.lsu.fsm = .waitRvalidMis ∨
        s.lsu.fsm = .waitGnt ∨ s.lsu.fsm = .waitRvalidMisGntsDone) ∧
      (s.lsu.fsm = .waitRvalidMis → s.lsu.handleMisaligned = true)) ∨
    ∃ c, s.held = some (.cap c) ∧ c.op.isCap = true ∧ s.enable = true ∧
      (s.lsu.fsm = .ctxWaitGnt1 ∨ s.lsu.fsm = .ctxWaitGnt2 ∨ s.lsu.fsm = .ctxWaitResp) := by
  have hw := hs.working
  cases hfsm : s.lsu.fsm <;> simp only [Working, hfsm] at hw
  case idle => exact absurd hfsm h
  case waitGntMis =>
    obtain ⟨a, ha, -⟩ := hw
    exact .inl ⟨a, ha, by simp⟩
  case waitRvalidMis =>
    obtain ⟨a, ha, -, hmis, -⟩ := hw
    exact .inl ⟨a, ha, by simp [hmis]⟩
  case waitGnt =>
    obtain ⟨a, ha, -⟩ := hw
    exact .inl ⟨a, ha, by simp⟩
  case waitRvalidMisGntsDone =>
    obtain ⟨a, ha, -⟩ := hw
    exact .inl ⟨a, ha, by simp⟩
  all_goals
    obtain ⟨c, hc, hop, hen, -⟩ := hw
    exact .inr ⟨c, hc, hop, hen, by simp⟩

/-- A unit that is busy with a capability works on a capability load or store, in CHERIoT mode. -/
theorem Inv.cap_of_busy (hs : s.Inv) (h : s.lsu.fsm = .ctxWaitGnt1 ∨ s.lsu.fsm = .ctxWaitGnt2 ∨
    s.lsu.fsm = .ctxWaitResp) :
    ∃ c, s.held = some (.cap c) ∧ c.op.isCap = true ∧ s.enable = true := by
  have hbusy : s.lsu.fsm ≠ .idle := by rcases h with h | h | h <;> simp [h]
  rcases hs.busy hbusy with ⟨-, -, hfsm, -⟩ | ⟨c, hc, hop, hen, -⟩
  · rcases h with h | h | h <;> simp [h] at hfsm
  · exact ⟨c, hc, hop, hen⟩

theorem Inv.up_hold_busy (hs : s.Inv) (h : s.lsu.fsm ≠ .idle) (hreq : (s.up i).req = true)
    (hg : i.bus.gnt = false) : (s.step i).up j = s.up i := by
  have hsends := hreq
  rw [req_up] at hsends
  obtain ⟨hupd, hnext⟩ := LoadStoreUnit.ctl_not_granted h hsends hg
  have hlast := addrLast_step_of_not_update hupd
  rw [← fsm_step, ← handleMisaligned_step] at hnext
  rcases hs.busy h with ⟨a, ha, hfsm, hmis⟩ | ⟨c, hc, -, hen, hfsm⟩
  · have hcur := (current_of_busy (i := i) h).trans ha
    rcases hnext with ⟨hns, hmis'⟩ | ⟨hold, hns, hmis'⟩
    · refine up_hold_rv32 hcur (by rwa [hns]) ?_ hmis' ?_ fun _ => hlast
      · rw [req_up, req_up, LoadStoreUnit.sends, LoadStoreUnit.sends, hns]
        rcases hfsm with hfsm | hfsm | hfsm | hfsm <;> rw [hfsm]
      · rw [LoadStoreUnit.addrIncrReq, LoadStoreUnit.addrIncrReq, hns, hmis']
        rcases hfsm with hfsm | hfsm | hfsm | hfsm <;> rw [hfsm]
    · refine up_hold_rv32 hcur (by simp [hns]) ?_ (by rw [hmis', hmis hold]) ?_ fun _ => hlast
      · rw [req_up, hreq, LoadStoreUnit.sends, hns]
      · rw [LoadStoreUnit.addrIncrReq, LoadStoreUnit.addrIncrReq, hns, hold, hmis']
  · have hcur := (current_of_busy (i := i) h).trans hc
    rcases hnext with ⟨hns, hmis'⟩ | ⟨hold, -⟩
    · refine up_hold_cap hcur hen (by rw [hns]) (by rwa [hns]) ?_ hmis' ?_
      · rw [req_up, req_up, LoadStoreUnit.sends, LoadStoreUnit.sends, hns, hen, enable_step_of hen]
        rcases hfsm with hfsm | hfsm | hfsm <;> rw [hfsm]
      · rw [LoadStoreUnit.addrIncrReq, LoadStoreUnit.addrIncrReq, hns, hmis', hen,
          enable_step_of hen]
    · rcases hfsm with hfsm | hfsm | hfsm <;> rw [hfsm] at hold <;> cases hold

/-- **A request is held until it is granted.** -/
theorem Inv.up_hold (hs : s.Inv) (hreq : (s.up i).req = true) (hg : i.bus.gnt = false) :
    (s.step i).up j = s.up i := by
  by_cases h : s.lsu.fsm = .idle
  · exact hs.up_hold_idle h hreq hg
  · exact hs.up_hold_busy h hreq hg

/-! ### Counting -/

variable (s) in
/-- The number of accesses that are granted and not answered. -/
def outstanding : ℕ :=
  match s.lsu.fsm with
  | .idle => if s.wbMem && !s.lsu.cheriotErr then 1 else 0
  | .waitGntMis | .waitGnt | .ctxWaitGnt1 => 0
  | .waitRvalidMis => 1
  | .waitRvalidMisGntsDone | .ctxWaitResp => 2
  | .ctxWaitGnt2 => if s.lsu.capRx = .waitResp1 then 1 else 0

variable (s) in
/-- What the second state machine waits for, by the state of the first. -/
def Rx : Prop :=
  match s.lsu.fsm with
  | .idle =>
    if s.wbMem && !s.lsu.cheriotErr && s.lsu.respIsCap then s.lsu.capRx = .waitResp2
    else s.lsu.capRx = .idle
  | .waitGntMis | .waitRvalidMis | .waitGnt | .waitRvalidMisGntsDone =>
    s.lsu.capRx = .idle ∧ s.lsu.respIsCap = false
  | .ctxWaitGnt1 | .ctxWaitResp => s.lsu.capRx = .waitResp1 ∧ s.lsu.respIsCap = true
  | .ctxWaitGnt2 => s.lsu.capRx ≠ .idle ∧ s.lsu.respIsCap = true

variable (s) in
/-- Where the second state machine stands. -/
structure Receiving : Prop where
  /-- It waits for the responses of the access that the first one works on. -/
  rx : s.Rx
  /-- A capability error is reported in the cycle after the request, from the idle state. -/
  err : s.lsu.cheriotErr = true → s.lsu.fsm = .idle ∧ s.enable = true ∧ s.wbMem = true

theorem receiving_iff : s.Receiving ↔ s.Rx ∧
    (s.lsu.cheriotErr = true → s.lsu.fsm = .idle ∧ s.enable = true ∧ s.wbMem = true) :=
  ⟨fun h => ⟨h.rx, h.err⟩, fun h => ⟨h.1, h.2⟩⟩

theorem receiving_init : init.Receiving := ⟨rfl, nofun⟩

/-- A request is made only while there is room for it. -/
theorem outstanding_le_one (hreq : (s.up i).req = true) : s.outstanding ≤ 1 := by
  rw [req_up, LoadStoreUnit.sends] at hreq
  rw [outstanding]
  cases h : s.lsu.fsm <;> simp only [h] at hreq ⊢
  case idle => split_ifs <;> omega
  case ctxWaitGnt2 => split_ifs <;> omega
  all_goals first | omega | cases hreq

/-- An instruction that executes while another is in the writeback stage sees its response. -/
theorem executing_iff : s.executing i = true ↔
    (s.wbMem = true → s.lsu.respValid s.enable i.bus = true) := by
  rw [executing]
  cases s.wbMem <;> simp

/-- What a cycle does to the second state machine and to the count. -/
def Advances (s : MemPipe) (i : PipeIn) : Prop :=
  (s.step i).Receiving ∧
    (s.step i).outstanding + i.bus.rvalid.toNat =
      s.outstanding + ((s.up i).req && i.bus.gnt).toNat

section Idle

variable (hr : s.Receiving) (h : s.lsu.fsm = .idle) (hv : i.bus.rvalid = true → 0 < s.outstanding)

include hr h hv

/-- When an instruction executes, the access before it is answered now or was before. -/
theorem Receiving.executing_idle (hexec : s.executing i = true) :
    s.outstanding = i.bus.rvalid.toNat ∧
      (s.lsu.capRx = .idle ∨ s.lsu.capRx = .waitResp2 ∧ i.bus.rvalid = true) := by
  have hrx := hr.rx
  rw [executing_iff, LoadStoreUnit.respValid, h] at hexec
  simp only [Rx, outstanding, h] at hrx hv ⊢
  cases hwb : s.wbMem <;> cases hce : s.lsu.cheriotErr <;> cases hcap : s.lsu.respIsCap <;>
    cases hrv : i.bus.rvalid <;> simp_all

/-- The second state machine then starts over. -/
theorem Receiving.capRx_step_idle (hexec : s.executing i = true) :
    (s.step i).lsu.capRx =
      if s.enable && (s.lsu.ctl s.enable (s.request i) i.bus).lsuGoGoodcap then .waitResp1
      else .idle := by
  have hgood : (s.lsu.ctl s.enable (s.request i) i.bus).lsuGoGoodcap = true → s.enable = true := by
    rcases LoadStoreUnit.ctl_idle_cases h s.enable (s.request i) i.bus with
      ⟨-, hctl⟩ | ⟨-, -, -, hctl⟩ | ⟨-, hen, -⟩ | ⟨-, -, -, hctl⟩
    · simp [hctl]
    · simp [hctl]
    · exact fun _ => hen
    · simp [hctl]
  rcases (hr.executing_idle h hv hexec).2 with hrx | ⟨hrx, hrv⟩
  · rw [capRx_step, LoadStoreUnit.capRxD, hrx]
  · rw [capRx_step, LoadStoreUnit.capRxD, hrx, hrv]
    cases hgo : (s.lsu.ctl s.enable (s.request i) i.bus).lsuGoGoodcap with
    | false => simp
    | true => simp [hgood hgo]

omit hv in
/-- A capability error in the writeback stage is reported at once, so what keeps an instruction from
executing is an unanswered access. -/
theorem Receiving.wbMem_of_not_executing (hexec : s.executing i = false) :
    s.wbMem = true ∧ s.lsu.cheriotErr = false ∧ i.bus.rvalid = false := by
  have herr := hr.err
  simp only [executing, Bool.not_eq_false', Bool.and_eq_true, Bool.not_eq_true',
    LoadStoreUnit.respValid, h, BEq.rfl, Bool.and_true, Bool.or_eq_false_iff] at hexec
  obtain ⟨hwb, hrv, hce⟩ := hexec
  refine ⟨hwb, ?_, hrv⟩
  by_contra hne
  have hce' : s.lsu.cheriotErr = true := by simpa using hne
  simp [hce', (herr hce').2.1] at hce

theorem Receiving.advances_idle : s.Advances i := by
  have hrespIsCap : (s.step i).lsu.respIsCap =
      if (s.lsu.ctl s.enable (s.request i) i.bus).lsuGo then (s.request i).isCap
      else s.lsu.respIsCap := rfl
  have hcheriotErr : (s.step i).lsu.cheriotErr =
      (s.lsu.ctl s.enable (s.request i) i.bus).cheriotErr := rfl
  have hwbMem := wbMem_step (s := s) (i := i)
  have hup : (s.up i).req = (s.lsu.ctl s.enable (s.request i) i.bus).dataReq := rfl
  rcases LoadStoreUnit.ctl_idle_cases h s.enable (s.request i) i.bus with
    ⟨hreq, hctl⟩ | ⟨hreq, hen, -, hctl⟩ | ⟨hreq, hen, -, hcap, hctl⟩ | ⟨hreq, -, hcap, hctl⟩
  · -- nothing is requested, so the writeback stage empties with its response
    rw [hctl] at hcheriotErr hrespIsCap hup
    have hfsm : (s.step i).lsu.fsm = .idle := by rw [fsm_step, hctl]
    cases hexec : s.executing i with
    | true =>
      have hrx := hr.capRx_step_idle h hv hexec
      rw [hctl, Bool.and_false] at hrx
      rw [hreq, hexec] at hwbMem
      refine ⟨⟨?_, by simp [hcheriotErr]⟩, ?_⟩
      · simp [Rx, hfsm, hwbMem, hrx]
      · rw [(hr.executing_idle h hv hexec).1, hup]
        simp [outstanding, hfsm, hwbMem]
    | false =>
      obtain ⟨hwb, hce, hrv⟩ := hr.wbMem_of_not_executing h hexec
      have hrx := hr.rx
      have hstep : (s.step i).lsu.capRx = s.lsu.capRx := by
        have hne : s.lsu.capRx ≠ .waitResp1 := by
          simp only [Rx, h] at hrx
          split_ifs at hrx <;> simp [hrx]
        rw [capRx_step, LoadStoreUnit.capRxD, hctl, hrv]
        cases hc : s.lsu.capRx <;> simp_all
      simp only [Rx, h, hwb, hce] at hrx
      refine ⟨⟨?_, by simp [hcheriotErr]⟩, ?_⟩
      · simpa [Rx, hfsm, hwbMem, hexec, hcheriotErr, hrespIsCap, hstep] using hrx
      · simp [outstanding, hfsm, hwbMem, hexec, hcheriotErr, h, hwb, hce, hrv, hup]
  · -- the request is reported as an error and never sent
    obtain ⟨hout, -⟩ := hr.executing_idle h hv (request_req hreq).1
    have hrx := hr.capRx_step_idle h hv (request_req hreq).1
    have hfsm : (s.step i).lsu.fsm = .idle := by rw [fsm_step, hctl]
    have hdone : s.reqDone i = true := by simp [reqDone, LoadStoreUnit.reqDone, hctl]
    rw [hctl, Bool.and_false] at hrx
    rw [hctl] at hcheriotErr hup
    refine ⟨⟨?_, fun _ => ⟨hfsm, enable_step_of hen, ?_⟩⟩, ?_⟩
    · simp [Rx, hfsm, hcheriotErr, hrx]
    · rw [hwbMem, hreq, hdone]
      rfl
    · rw [hout, hup]
      simp [outstanding, hfsm, hcheriotErr]
  · -- the first word of a capability
    obtain ⟨hout, -⟩ := hr.executing_idle h hv (request_req hreq).1
    have hrx := hr.capRx_step_idle h hv (request_req hreq).1
    have hfsm : (s.step i).lsu.fsm = if i.bus.gnt then .ctxWaitGnt2 else .ctxWaitGnt1 := by
      rw [fsm_step, hctl]
    rw [hctl, hen] at hrx
    rw [hctl, if_pos rfl, hcap] at hrespIsCap
    rw [hctl] at hcheriotErr hup
    refine ⟨⟨?_, by simp [hcheriotErr]⟩, ?_⟩
    · cases hg : i.bus.gnt <;> simp [Rx, hfsm, hg, hrx, hrespIsCap]
    · rw [hout, hup]
      cases hg : i.bus.gnt <;> simp [outstanding, hfsm, hg, hrx, Nat.add_comm]
  · -- a data access, or the first half of one
    obtain ⟨hout, -⟩ := hr.executing_idle h hv (request_req hreq).1
    have hexec := (request_req hreq).1
    have hrx := hr.capRx_step_idle h hv hexec
    have hisCap : (s.request i).isCap = false := by
      obtain ⟨a, ha⟩ := exists_rv32_of_not_cap hreq hcap
      rw [request_of_current ha]
      rfl
    have hdone : s.reqDone i = ((s.step i).lsu.fsm == .idle) := by
      rw [reqDone, LoadStoreUnit.reqDone, fsm_step, hctl]
      rfl
    have hfsm := fsm_step (s := s) (i := i)
    rw [hctl] at hfsm
    rw [hctl, Bool.and_false] at hrx
    rw [hctl, if_pos rfl, hisCap] at hrespIsCap
    rw [hctl] at hcheriotErr hup
    refine ⟨⟨?_, by simp [hcheriotErr]⟩, ?_⟩
    · cases hg : i.bus.gnt <;> cases hsp : (s.request i).splitMisalignedAccess s.enable <;>
        simp [Rx, hfsm, hg, hsp, hrx, hrespIsCap]
    · rw [hout, hup]
      cases hg : i.bus.gnt <;> cases hsp : (s.request i).splitMisalignedAccess s.enable <;>
        simp [outstanding, hfsm, hg, hsp, hwbMem, hreq, hdone, hcheriotErr, Nat.add_comm]

end Idle

/-- A busy unit starts nothing new. -/
theorem ctl_busy (h : s.lsu.fsm ≠ .idle) :
    (s.lsu.ctl s.enable (s.request i) i.bus).lsuGo = false ∧
      (s.lsu.ctl s.enable (s.request i) i.bus).lsuGoGoodcap = false ∧
      (s.lsu.ctl s.enable (s.request i) i.bus).cheriotErr = (s.lsu.cheriotErr && s.enable) := by
  cases hfsm : s.lsu.fsm with
  | idle => exact absurd hfsm h
  | waitGntMis => cases hg : i.bus.gnt <;> simp [LoadStoreUnit.ctl, hfsm, hg]
  | waitRvalidMis =>
    cases hg : i.bus.gnt <;> cases hr : i.bus.rvalid <;> simp [LoadStoreUnit.ctl, hfsm, hg, hr]
  | waitGnt => cases hg : i.bus.gnt <;> simp [LoadStoreUnit.ctl, hfsm, hg]
  | waitRvalidMisGntsDone => cases hr : i.bus.rvalid <;> simp [LoadStoreUnit.ctl, hfsm, hr]
  | ctxWaitGnt1 =>
    cases hen : s.enable <;> cases hg : i.bus.gnt <;> simp [LoadStoreUnit.ctl, hfsm, hg]
  | ctxWaitGnt2 =>
    simp only [LoadStoreUnit.ctl, hfsm]
    split_ifs <;> exact ⟨rfl, rfl, rfl⟩
  | ctxWaitResp =>
    cases hen : s.enable <;> cases hr : i.bus.rvalid <;> simp [LoadStoreUnit.ctl, hfsm, hr]

theorem Inv.req_of_busy (hs : s.Inv) (h : s.lsu.fsm ≠ .idle) : (s.request i).req = true := by
  have hexec := hs.executing (i := i) h
  rcases hs.busy h with ⟨a, ha, -⟩ | ⟨c, hc, hop, hen, -⟩
  · rw [request_of_current ((current_of_busy h).trans ha)]
    exact hexec
  · rw [request_of_current ((current_of_busy h).trans hc)]
    simp [Access.request, hexec, hen, hop]

theorem respIsCap_step_of_busy (h : s.lsu.fsm ≠ .idle) :
    (s.step i).lsu.respIsCap = s.lsu.respIsCap := by
  rw [MemPipe.step, LoadStoreUnit.step, (ctl_busy h).1]
  rfl

/-- A busy unit has no capability error to report. -/
theorem Receiving.cheriotErr_step_of_busy (hr : s.Receiving) (h : s.lsu.fsm ≠ .idle) :
    (s.step i).lsu.cheriotErr = false := by
  have herr : s.lsu.cheriotErr = false := by
    by_contra hne
    exact h (hr.err (by simpa using hne)).1
  have hce := (ctl_busy (i := i) h).2.2
  rw [herr] at hce
  exact hce

/-- The instruction moves to the writeback stage when the unit is done with it. -/
theorem Inv.wbMem_step_of_busy (hs : s.Inv) (h : s.lsu.fsm ≠ .idle) :
    (s.step i).wbMem = ((s.step i).lsu.fsm == .idle) := by
  rw [MemPipe.step, hs.req_of_busy h, hs.executing h, reqDone, LoadStoreUnit.reqDone,
    bne_iff_ne.mpr h, Bool.or_true]
  simp [LoadStoreUnit.step]

theorem Receiving.advances_busy (hr : s.Receiving) (hs : s.Inv) (h : s.lsu.fsm ≠ .idle)
    (hv : i.bus.rvalid = true → 0 < s.outstanding) : s.Advances i := by
  have hgood := (ctl_busy (i := i) h).2.1
  have hcheriotErr := hr.cheriotErr_step_of_busy (i := i) h
  have hrespIsCap := respIsCap_step_of_busy (i := i) h
  have hwbMem := hs.wbMem_step_of_busy (i := i) h
  have hcapRx := capRx_step (s := s) (i := i)
  rw [LoadStoreUnit.capRxD, hgood] at hcapRx
  have hup : (s.up i).req = s.lsu.sends s.enable (s.request i) := req_up
  have hrx := hr.rx
  have hfsm := fsm_step (s := s) (i := i)
  cases hst : s.lsu.fsm with
  | idle => exact absurd hst h
  | waitGntMis =>
    simp only [Rx, outstanding, hst] at hrx hv
    have hrv : i.bus.rvalid = false := by simpa using hv
    simp only [hrx] at hcapRx
    cases hg : i.bus.gnt <;> simp only [LoadStoreUnit.ctl, hst, hg] at hfsm <;>
      simp [Advances, receiving_iff, Rx, outstanding, hst, hfsm, hcapRx, hrespIsCap, hcheriotErr,
        hrx, hrv, hg, hup, LoadStoreUnit.sends]
  | waitRvalidMis =>
    simp only [Rx, hst] at hrx
    simp only [hrx] at hcapRx
    cases hg : i.bus.gnt <;> cases hrv : i.bus.rvalid <;>
      simp only [LoadStoreUnit.ctl, hst, hg, hrv] at hfsm <;>
      simp [Advances, receiving_iff, Rx, outstanding, hst, hfsm, hcapRx, hrespIsCap, hcheriotErr,
        hwbMem, hrx, hrv, hg, hup, LoadStoreUnit.sends]
  | waitGnt =>
    simp only [Rx, outstanding, hst] at hrx hv
    have hrv : i.bus.rvalid = false := by simpa using hv
    simp only [hrx] at hcapRx
    cases hg : i.bus.gnt <;> simp only [LoadStoreUnit.ctl, hst, hg] at hfsm <;>
      simp [Advances, receiving_iff, Rx, outstanding, hst, hfsm, hcapRx, hrespIsCap, hcheriotErr,
        hwbMem, hrx, hrv, hg, hup, LoadStoreUnit.sends]
  | waitRvalidMisGntsDone =>
    simp only [Rx, hst] at hrx
    simp only [hrx] at hcapRx
    cases hrv : i.bus.rvalid <;> simp only [LoadStoreUnit.ctl, hst, hrv] at hfsm <;>
      simp [Advances, receiving_iff, Rx, outstanding, hst, hfsm, hcapRx, hrespIsCap, hcheriotErr,
        hwbMem, hrx, hrv, hup, LoadStoreUnit.sends]
  | ctxWaitGnt1 =>
    obtain ⟨-, -, -, hen⟩ := hs.cap_of_busy (.inl hst)
    simp only [Rx, outstanding, hst] at hrx hv
    have hrv : i.bus.rvalid = false := by simpa using hv
    simp only [hrx, hrv] at hcapRx
    cases hg : i.bus.gnt <;> simp only [LoadStoreUnit.ctl, hst, hg, hen] at hfsm <;>
      simp [Advances, receiving_iff, Rx, outstanding, hst, hfsm, hcapRx, hrespIsCap, hcheriotErr,
        hrx, hrv, hg, hup, LoadStoreUnit.sends, hen]
  | ctxWaitGnt2 =>
    obtain ⟨-, -, -, hen⟩ := hs.cap_of_busy (.inr (.inl hst))
    simp only [Rx, outstanding, hst] at hrx hv
    cases hc : s.lsu.capRx with
    | idle => exact absurd hc hrx.1
    | waitResp1 =>
      simp only [hc] at hcapRx
      cases hg : i.bus.gnt <;> cases hrv : i.bus.rvalid <;>
        simp only [LoadStoreUnit.ctl, hst, hg, hrv, hen, hc] at hfsm <;>
        simp [Advances, receiving_iff, Rx, outstanding, hst, hfsm, hcapRx, hrespIsCap, hcheriotErr,
          hwbMem, hrx, hrv, hg, hup, LoadStoreUnit.sends, hen, hc]
    | waitResp2 =>
      -- the first word has been answered already, so nothing is outstanding
      have hrv : i.bus.rvalid = false := by simpa [hc] using hv
      simp only [hc, hrv] at hcapRx
      cases hg : i.bus.gnt <;> simp only [LoadStoreUnit.ctl, hst, hg, hrv, hen, hc] at hfsm <;>
        simp [Advances, receiving_iff, Rx, outstanding, hst, hfsm, hcapRx, hrespIsCap, hcheriotErr,
          hwbMem, hrx, hrv, hg, hup, LoadStoreUnit.sends, hen, hc]
  | ctxWaitResp =>
    obtain ⟨-, -, -, hen⟩ := hs.cap_of_busy (.inr (.inr hst))
    simp only [Rx, hst] at hrx
    simp only [hrx] at hcapRx
    cases hrv : i.bus.rvalid <;> simp only [LoadStoreUnit.ctl, hst, hrv, hen] at hfsm <;>
      simp [Advances, receiving_iff, Rx, outstanding, hst, hfsm, hcapRx, hrespIsCap, hcheriotErr,
        hwbMem, hrx, hrv, hup, LoadStoreUnit.sends]

/-- **The count follows the handshakes.** As long as every response is due, a cycle adds the access
that is granted and takes away the one that is answered. -/
theorem Receiving.advances (hr : s.Receiving) (hs : s.Inv)
    (hv : i.bus.rvalid = true → 0 < s.outstanding) : s.Advances i := by
  by_cases h : s.lsu.fsm = .idle
  · exact hr.advances_idle h hv
  · exact hr.advances_busy hs h hv

end MemPipe

end Lsu

end Croc
