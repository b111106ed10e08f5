import Croc.Lsu.Protocol

/-!
# Capability accesses

A capability takes two accesses, one for its address word and one for its metadata word. This module
follows the load/store unit through the two, one cycle at a time: which request goes out for each
word, what the unit remembers of the instruction while the responses are on their way, and where it
keeps the first word until the second is there.

## Main definitions

* `capReq`: the request for a word of a capability.
* `MemPipe.CapBeat`: a word of a capability access is granted in a cycle.
* `MemPipe.Remembers`: what the unit knows about the access whose responses it waits for.

## Main results

* `MemPipe.CapBeat.up`: what goes out on the data port.
* `MemPipe.CapBeat.first`: with its first grant the unit starts to wait for the responses.
* `MemPipe.Remembers.step`: it forgets nothing until the last response is there.
* `MemPipe.Remembers.result`: the capability that it puts together.
-/

namespace Croc

namespace Lsu

open Cheriot Revocation

open Bits (Word)

open ByteMemory (wordOf)

/-- The request for the first or the second word of the capability access `c`. -/
def capReq (c : ExIn) (second : Bool) : UpstreamReq where
  req := true
  we := c.op == .cstoreCap
  be := 15#4
  addr := wordOf (c.cs1AddrPlusimm + if second then 4 else 0)
  wdata :=
    if c.op = .cstoreCap then if second then (capToMem c.cscWcap).setWidth 32 else c.cs2.data else 0
  wdataIntg := 0
  tag := if c.op = .cstoreCap then c.cscWcap.valid else true

namespace MemPipe

/-- A word of the capability access `c` is granted. -/
structure CapBeat (s : MemPipe) (i : PipeIn) (c : ExIn) (second : Bool) : Prop where
  /-- The instruction in ID/EX. -/
  current : s.current i = some (.cap c)
  /-- It is a capability load or store. -/
  isCap : c.op.isCap = true
  /-- CHERIoT mode is on. -/
  enable : s.enable = true
  /-- The request. -/
  req : (s.up i).req = true
  /-- Its grant. -/
  gnt : i.bus.gnt = true
  /-- The second word has a state of its own. -/
  fsm : (s.lsu.fsm == .ctxWaitGnt2) = second

variable {s : MemPipe} {i : PipeIn} {c : ExIn} {second : Bool}

/-! ### The requests -/

theorem Inv.fsm_of_current (hs : s.Inv) (hc : s.current i = some (.cap c))
    (hreq : (s.up i).req = true) :
    s.lsu.fsm = .idle ∨ s.lsu.fsm = .ctxWaitGnt1 ∨ s.lsu.fsm = .ctxWaitGnt2 := by
  by_cases h : s.lsu.fsm = .idle
  · exact .inl h
  · rw [current_of_busy h] at hc
    rcases hs.busy h with ⟨a, ha, -⟩ | ⟨-, -, -, -, hfsm | hfsm | hfsm⟩
    · cases hc.symm.trans ha
    · exact .inr (.inl hfsm)
    · exact .inr (.inr hfsm)
    · rw [req_up, LoadStoreUnit.sends, hfsm] at hreq
      cases hreq

/-- What a capability access asks of the load/store unit, in CHERIoT mode. -/
theorem request_of_cap (hc : s.current i = some (.cap c)) (hen : s.enable = true) :
    s.request i =
      { req := s.executing i && c.op.isCap
        cheriotErr := { c with enable := true }.cheriotLsuErr
        we := c.op == .cstoreCap
        isCap := c.op.isCap
        lsuType := 0
        signExt := false
        addr := c.cheriotLsuAddr (s.lsu.addrIncrReq true)
        wdata := if c.op = .cstoreCap then c.cs2.data else 0
        wcap := if c.op = .cstoreCap then c.cscWcap else nullCap
        lcClrperm := c.lcClrperm } := by
  rw [request_of_current hc, hen, Access.request, Bool.and_true]
  rfl

/-- **The request for a word of a capability.** -/
theorem CapBeat.up (h : s.CapBeat i c second) (hs : s.Inv) : s.up i = capReq c second := by
  have hfsm := hs.fsm_of_current h.current h.req
  have hincr : s.lsu.addrIncrReq true = second := by
    rw [LoadStoreUnit.addrIncrReq, ← h.fsm]
    rcases hfsm with hfsm | hfsm | hfsm <;> rw [hfsm] <;> rfl
  have hreq := h.req
  rw [req_up] at hreq
  rw [MemPipe.up, LoadStoreUnit.up_eq, hreq, request_of_cap h.current h.enable, hincr, h.enable]
  simp only [Request.dataBe, Request.dataWdata, Request.cap, h.isCap, h.fsm, Bool.and_self, if_true,
    LoadStoreUnit.dataAddrWAligned, getLsbD_capToMem]
  by_cases hop : c.op = .cstoreCap
  · cases second <;> simp [capReq, hop, wordOf, ExIn.cheriotLsuAddr]
  · simp [capReq, hop, wordOf, ExIn.cheriotLsuAddr]

/-- **Only capability stores write tags.** -/
theorem exists_capBeat_of_tag (hreq : (s.up i).req = true) (hg : i.bus.gnt = true)
    (hwe : (s.up i).we = true) (htag : (s.up i).tag = true) :
    ∃ c second, s.CapBeat i c second ∧ c.op = .cstoreCap := by
  have hcap : s.enable = true ∧ (s.request i).isCap = true := by
    by_contra hne
    have hno : (s.request i).cap s.enable = false := by
      simpa [Request.cap] using hne
    simp [up, LoadStoreUnit.up_eq, Request.dataWdata, hno] at htag
  cases hcur : s.current i with
  | none =>
    rw [request, hcur] at hcap
    cases hcap.2
  | some a =>
    cases a with
    | rv32 a => simp [request, hcur, Access.request] at hcap
    | cap c =>
      have hq := request_of_cap hcur hcap.1
      rw [hq] at hcap
      have hop : (c.op == .cstoreCap) = true := by
        rw [up, LoadStoreUnit.up_eq, hq] at hwe
        exact hwe
      exact ⟨c, _, ⟨hcur, hcap.2, hcap.1, hreq, hg, rfl⟩, by simpa using hop⟩

/-! ### What the unit remembers -/

/-- The unit has started on a capability access that passed its checks. -/
structure Started (s : MemPipe) (c : ExIn) : Prop where
  /-- The access passed its checks. -/
  authorised : { c with enable := true }.cheriotLsuErr = false
  /-- What a load is to clear. -/
  clrperm : s.lsu.respLcClrperm = c.lcClrperm
  /-- No access of it has failed. -/
  lsuErr : s.lsu.lsuErr = false

/-- What the unit knows about the capability access `c` whose responses it waits for. -/
structure Remembers (s : MemPipe) (c : ExIn) : Prop extends s.Started c where
  /-- CHERIoT mode is on. -/
  enable : s.enable = true
  /-- Whether it is a store. -/
  dataWe : s.lsu.dataWe = (c.op == .cstoreCap)
  /-- Where the two state machines stand. -/
  fsm : s.lsu.fsm = .ctxWaitGnt2 ∨ s.lsu.fsm = .ctxWaitResp ∨
    s.lsu.fsm = .idle ∧ s.lsu.capRx = .waitResp2

/-- An access that waits for its first grant has been started. -/
def Asks (s : MemPipe) : Prop :=
  s.lsu.fsm = .ctxWaitGnt1 → ∃ c, s.held = some (.cap c) ∧ s.Started c

theorem asks_init : init.Asks := nofun

/-- An idle unit that asks for a capability starts on it. -/
theorem started_of_idle (h : s.lsu.fsm = .idle) (hen : s.enable = true)
    (hreq : (s.request i).req = true) (herr : (s.request i).cheriotErr = false)
    (hcap : (s.request i).isCap = true) (hc : s.current i = some (.cap c)) :
    (s.step i).Started c := by
  have hctl := LoadStoreUnit.ctl_idle_of_cap h hreq herr hcap i.bus
  have hq := request_of_cap hc hen
  refine ⟨?_, ?_, ?_⟩
  · rw [hq] at herr
    exact herr
  · rw [step, LoadStoreUnit.step, hen, hctl, hq]
    rfl
  · rw [step, LoadStoreUnit.step, hen, hctl]

/-- Where a unit that waits for a grant of a capability access comes from. -/
theorem cap_of_fsm_step
    (h : (s.step i).lsu.fsm = .ctxWaitGnt1 ∨ (s.step i).lsu.fsm = .ctxWaitGnt2) :
    (s.lsu.fsm = .idle ∧ (s.request i).req = true ∧ s.enable = true ∧
      (s.request i).cheriotErr = false ∧ (s.request i).isCap = true ∧
      (s.step i).lsu.fsm = if i.bus.gnt then .ctxWaitGnt2 else .ctxWaitGnt1) ∨
    (s.lsu.fsm = .ctxWaitGnt1 ∧
      (s.step i).lsu.fsm = if i.bus.gnt then .ctxWaitGnt2 else .ctxWaitGnt1) ∨
    (s.lsu.fsm = .ctxWaitGnt2 ∧ i.bus.gnt = false ∧ (s.step i).lsu.fsm = .ctxWaitGnt2) := by
  rw [fsm_step] at h ⊢
  cases hfsm : s.lsu.fsm with
  | idle =>
    rcases LoadStoreUnit.ctl_idle_cases hfsm s.enable (s.request i) i.bus with
      ⟨-, hctl⟩ | ⟨-, -, -, hctl⟩ | ⟨hreq, hen, herr, hcap, hctl⟩ | ⟨-, -, -, hctl⟩
    · simp [hctl] at h
    · simp [hctl] at h
    · exact .inl ⟨rfl, hreq, hen, herr, hcap, by rw [hctl]⟩
    · cases hg : i.bus.gnt <;> cases hsp : (s.request i).splitMisalignedAccess s.enable <;>
        simp [hctl, hg, hsp] at h
  | waitGntMis => cases hg : i.bus.gnt <;> simp [LoadStoreUnit.ctl, hfsm, hg] at h
  | waitRvalidMis =>
    cases hg : i.bus.gnt <;> cases hr : i.bus.rvalid <;>
      simp [LoadStoreUnit.ctl, hfsm, hg, hr] at h
  | waitGnt => cases hg : i.bus.gnt <;> simp [LoadStoreUnit.ctl, hfsm, hg] at h
  | waitRvalidMisGntsDone => cases hr : i.bus.rvalid <;> simp [LoadStoreUnit.ctl, hfsm, hr] at h
  | ctxWaitGnt1 =>
    cases hen : s.enable with
    | false => simp [LoadStoreUnit.ctl, hfsm, hen] at h
    | true => cases hg : i.bus.gnt <;> simp [LoadStoreUnit.ctl, hfsm, hg]
  | ctxWaitGnt2 =>
    cases hg : i.bus.gnt with
    | false => cases hen : s.enable <;> simp [LoadStoreUnit.ctl, hfsm, hg, hen] at h ⊢
    | true =>
      simp only [LoadStoreUnit.ctl, hfsm, hg, Bool.true_and, if_true] at h
      split_ifs at h <;> simp at h
  | ctxWaitResp =>
    cases hen : s.enable <;> cases hr : i.bus.rvalid <;>
      simp [LoadStoreUnit.ctl, hfsm, hr, hen] at h

/-- The unit waits for its second grant only after the first. -/
theorem Inv.exists_capBeat (hs : s.Inv) (h : (s.step i).lsu.fsm = .ctxWaitGnt2) :
    (∃ c, s.CapBeat i c false) ∨ s.lsu.fsm = .ctxWaitGnt2 ∧ i.bus.gnt = false := by
  have hgnt : ((s.step i).lsu.fsm = if i.bus.gnt then .ctxWaitGnt2 else .ctxWaitGnt1) →
      i.bus.gnt = true := by
    intro hns
    cases hg : i.bus.gnt with
    | false => simp [h, hg] at hns
    | true => rfl
  rcases cap_of_fsm_step (.inr h) with
    ⟨hfsm, hreq, hen, herr, hcap, hns⟩ | ⟨hfsm, hns⟩ | ⟨hfsm, hg, -⟩
  · have hup : (s.up i).req = true := by
      simp [req_up, LoadStoreUnit.sends, hfsm, Request.cpuReqValid, hreq, herr]
    obtain ⟨c, hc, hop⟩ := exists_cap_of_isCap hreq hcap
    exact .inl ⟨c, hc, hop, hen, hup, hgnt hns, by rw [hfsm]; rfl⟩
  · obtain ⟨c, hc, hop, hen⟩ := hs.cap_of_busy (.inl hfsm)
    have hcur : s.current i = some (.cap c) := (current_of_busy (by simp [hfsm])).trans hc
    have hup : (s.up i).req = true := by
      rw [req_up, LoadStoreUnit.sends, hfsm]
      exact hen
    exact .inl ⟨c, hcur, hop, hen, hup, hgnt hns, by rw [hfsm]; rfl⟩
  · exact .inr ⟨hfsm, hg⟩

section Busy

variable (hen : s.enable = true)
  (hfsm : s.lsu.fsm = .ctxWaitGnt1 ∨ s.lsu.fsm = .ctxWaitGnt2 ∨ s.lsu.fsm = .ctxWaitResp)

include hen hfsm

/-- While the unit is busy with a capability, it remembers what it knows of the instruction. -/
theorem Started.step_busy (h : s.Started c) : (s.step i).Started c := by
  have hbusy : s.lsu.fsm ≠ .idle := by rcases hfsm with h | h | h <;> simp [h]
  have hclr : (s.step i).lsu.respLcClrperm = s.lsu.respLcClrperm := by
    rw [step, LoadStoreUnit.step, (ctl_busy hbusy).1]
    rfl
  have herr : (s.step i).lsu.lsuErr = s.lsu.lsuErr := by
    rw [step, LoadStoreUnit.step, LoadStoreUnit.ctl, hen]
    rcases hfsm with hfsm | hfsm | hfsm <;> simp only [hfsm, if_true] <;> split_ifs <;> rfl
  exact ⟨h.authorised, hclr.trans h.clrperm, herr.trans h.lsuErr⟩

/-- Whether it is a store is noted with the first grant. -/
theorem dataWe_step_busy : (s.step i).lsu.dataWe =
    if s.lsu.fsm = .ctxWaitGnt1 ∧ i.bus.gnt = true then (s.request i).we else s.lsu.dataWe := by
  rw [step, LoadStoreUnit.step, LoadStoreUnit.ctl, hen]
  rcases hfsm with hfsm | hfsm | hfsm <;> simp only [hfsm, if_true]
  · cases hg : i.bus.gnt <;> simp
  · split_ifs <;> simp_all
  · cases hr : i.bus.rvalid <;> simp

end Busy

/-- An access that waits for its first grant stays the one it was. -/
theorem Asks.step (h : s.Asks) (hs : s.Inv) : (s.step i).Asks := by
  intro hns
  rcases cap_of_fsm_step (.inl hns) with
    ⟨hfsm, hreq, hen, herr, hcap, -⟩ | ⟨hfsm, -⟩ | ⟨-, -, hns'⟩
  · obtain ⟨c, hc, -⟩ := exists_cap_of_isCap hreq hcap
    exact ⟨c, hc, started_of_idle hfsm hen hreq herr hcap hc⟩
  · obtain ⟨c, hc, hstarted⟩ := h hfsm
    obtain ⟨-, -, -, hen⟩ := hs.cap_of_busy (.inl hfsm)
    exact ⟨c, (current_of_busy (by simp [hfsm])).trans hc, hstarted.step_busy hen (.inl hfsm)⟩
  · cases hns.symm.trans hns'

/-- **The first grant.** From then on the unit waits for two responses. -/
theorem CapBeat.first (h : s.CapBeat i c false) (hs : s.Inv) (ha : s.Asks) (hr : s.Receiving)
    (hv : i.bus.rvalid = true → 0 < s.outstanding) :
    (s.step i).Remembers c ∧ (s.step i).lsu.fsm = .ctxWaitGnt2 ∧
      (s.step i).lsu.capRx = .waitResp1 := by
  have hfsm := hs.fsm_of_current h.current h.req
  have hq := request_of_cap h.current h.enable
  have hwe : (s.request i).we = (c.op == .cstoreCap) := by rw [hq]
  rcases hfsm with hfsm | hfsm | hfsm
  · have hreq := h.req
    rw [req_up, LoadStoreUnit.sends, hfsm, h.enable] at hreq
    simp only [Request.cpuReqValid, Bool.true_and, Bool.and_eq_true, Bool.not_eq_true'] at hreq
    have hcap : (s.request i).isCap = true := by rw [hq]; exact h.isCap
    have hstarted := started_of_idle hfsm h.enable hreq.1 hreq.2 hcap h.current
    have hexec := (request_req hreq.1).1
    have hrx := hr.capRx_step_idle hfsm hv hexec
    have hctl := LoadStoreUnit.ctl_idle_of_cap hfsm hreq.1 hreq.2 hcap i.bus
    have hns : (s.step i).lsu.fsm = .ctxWaitGnt2 := by rw [fsm_step, h.enable, hctl, h.gnt]; rfl
    refine ⟨⟨hstarted, enable_step_of h.enable, ?_, .inl hns⟩, hns, ?_⟩
    · rw [step, LoadStoreUnit.step, h.enable, hctl, h.gnt]
      exact hwe
    · rw [hrx, h.enable, hctl]
      rfl
  · obtain ⟨c', hc', hstarted⟩ := ha hfsm
    have hcc' : c' = c := by
      have := h.current
      rw [current_of_busy (by simp [hfsm]), hc'] at this
      cases this
      rfl
    subst hcc'
    have hns : (s.step i).lsu.fsm = .ctxWaitGnt2 := by
      rw [fsm_step]
      simp [LoadStoreUnit.ctl, hfsm, h.enable, h.gnt]
    refine ⟨⟨hstarted.step_busy h.enable (.inl hfsm), enable_step_of h.enable, ?_, .inl hns⟩, hns,
      ?_⟩
    · rw [dataWe_step_busy h.enable (.inl hfsm), if_pos ⟨hfsm, h.gnt⟩, hwe]
    · have hrx := hr.rx
      simp only [Rx, outstanding, hfsm] at hrx hv
      have hrv : i.bus.rvalid = false := by simpa using hv
      rw [capRx_step, LoadStoreUnit.capRxD, hrx.1, hrv]
      rfl
  · have hf := h.fsm
    rw [hfsm] at hf
    cases hf

theorem capRx_step_of_waiting (h : s.lsu.capRx = .waitResp1) :
    (s.step i).lsu.capRx = if i.bus.rvalid then .waitResp2 else .waitResp1 := by
  rw [capRx_step, LoadStoreUnit.capRxD, h]

theorem capRx_step_of_not_rvalid (h : s.lsu.capRx = .waitResp2) (hrv : i.bus.rvalid = false) :
    (s.step i).lsu.capRx = .waitResp2 := by
  rw [capRx_step, LoadStoreUnit.capRxD, h, hrv]
  rfl

/-- The first response is kept. -/
theorem capLsw_step_of_waiting (hen : s.enable = true) (h : s.lsu.capRx = .waitResp1)
    (hrv : i.bus.rvalid = true) :
    (s.step i).lsu.capLswErr = i.bus.rsp.err ∧
      (s.lsu.dataWe = false → (s.step i).lsu.capLswData = i.bus.rsp.data ∧
        (s.step i).lsu.capLswTag = i.bus.rsp.tag) := by
  refine ⟨?_, fun hwe => ⟨?_, ?_⟩⟩ <;> simp [step, LoadStoreUnit.step, hen, h, hrv]
  all_goals simp [hwe]

theorem capLsw_step_of_not_rvalid (hrv : i.bus.rvalid = false) :
    (s.step i).lsu.capLswErr = s.lsu.capLswErr ∧ (s.step i).lsu.capLswData = s.lsu.capLswData ∧
      (s.step i).lsu.capLswTag = s.lsu.capLswTag := by
  simp [step, LoadStoreUnit.step, hrv]

namespace Remembers

variable (h : s.Remembers c) (hr : s.Receiving) (hv : i.bus.rvalid = true → 0 < s.outstanding)

include h hr

/-- In the writeback stage, the last response is the only one missing. -/
theorem wbMem_of_idle (hfsm : s.lsu.fsm = .idle) :
    s.lsu.capRx = .waitResp2 ∧ s.wbMem = true ∧ s.lsu.cheriotErr = false ∧
      s.lsu.respIsCap = true := by
  have hcap : s.lsu.capRx = .waitResp2 := by
    rcases h.fsm with hf | hf | hf
    · cases hfsm.symm.trans hf
    · cases hfsm.symm.trans hf
    · exact hf.2
  have hrx := hr.rx
  simp only [Rx, hfsm, hcap] at hrx
  split_ifs at hrx with hwb
  simp only [Bool.and_eq_true, Bool.not_eq_true'] at hwb
  exact ⟨hcap, hwb.1.1, hwb.1.2, hwb.2⟩

include hv

/-- The first response is awaited until the unit is idle again. -/
theorem capRx_ne_idle : s.lsu.capRx ≠ .idle ∧ (s.lsu.capRx = .waitResp2 → s.lsu.fsm ≠ .idle →
    s.lsu.fsm = .ctxWaitGnt2 ∧ i.bus.rvalid = false) := by
  have hrx := hr.rx
  rcases h.fsm with hf | hf | ⟨hf, hcap⟩
  · simp only [Rx, outstanding, hf] at hrx hv ⊢
    refine ⟨hrx.1, fun hcap _ => ⟨trivial, ?_⟩⟩
    simpa [hcap] using hv
  · simp only [Rx, hf] at hrx
    simp [hrx.1]
  · simp [hf, hcap]

/-- The second response finds the unit idle. -/
theorem not_rvalid (hno : s.lsu.respValid s.enable i.bus = false)
    (hcap : s.lsu.capRx = .waitResp2) :
    i.bus.rvalid = false := by
  by_cases hf : s.lsu.fsm = .idle
  · rw [LoadStoreUnit.respValid, hf, BEq.rfl, Bool.and_true, Bool.or_eq_false_iff] at hno
    exact hno.1
  · exact ((h.capRx_ne_idle hr hv).2 hcap hf).2

/-- **The unit forgets nothing** until the last response is there. -/
theorem step (hno : s.lsu.respValid s.enable i.bus = false) : (s.step i).Remembers c := by
  rcases h.fsm with hf | hf | ⟨hf, hcap⟩
  · have hstarted := h.toStarted.step_busy (i := i) h.enable (.inr (.inl hf))
    have hwe := dataWe_step_busy (i := i) h.enable (.inr (.inl hf))
    rw [if_neg (by simp [hf])] at hwe
    refine ⟨hstarted, enable_step_of h.enable, hwe.trans h.dataWe, ?_⟩
    rw [fsm_step]
    simp only [LoadStoreUnit.ctl, hf, h.enable, if_true]
    split_ifs with hdone hg
    · -- both responses are on their way or there, and the first of them has been taken
      refine .inr (.inr ⟨rfl, ?_⟩)
      cases hcap : s.lsu.capRx with
      | idle => exact absurd hcap (h.capRx_ne_idle hr hv).1
      | waitResp1 =>
        have hrv : i.bus.rvalid = true := by
          rw [hcap, show (CapRxFsm.waitResp1 == .waitResp2) = false from rfl, Bool.or_false,
            Bool.and_eq_true] at hdone
          exact hdone.2
        rw [capRx_step_of_waiting hcap, if_pos hrv]
      | waitResp2 => exact capRx_step_of_not_rvalid hcap (h.not_rvalid hr hv hno hcap)
    · exact .inr (.inl rfl)
    · exact .inl rfl
  · have hstarted := h.toStarted.step_busy (i := i) h.enable (.inr (.inr hf))
    have hwe := dataWe_step_busy (i := i) h.enable (.inr (.inr hf))
    rw [if_neg (by simp [hf])] at hwe
    refine ⟨hstarted, enable_step_of h.enable, hwe.trans h.dataWe, ?_⟩
    have hcap : s.lsu.capRx = .waitResp1 := by
      have hrx := hr.rx
      rw [Rx, hf] at hrx
      exact hrx.1
    rw [fsm_step, capRx_step_of_waiting hcap]
    cases hrv : i.bus.rvalid <;> simp [LoadStoreUnit.ctl, hf, h.enable, hrv]
  · -- nothing executes, so nothing is asked for
    obtain ⟨-, hwb, -, -⟩ := h.wbMem_of_idle hr hf
    have hexec : s.executing i = false := by
      rw [executing, hwb, hno]
      rfl
    have hreq : (s.request i).req = false := by
      by_contra hreq
      rw [(request_req (by simpa using hreq)).1] at hexec
      cases hexec
    have hrv := h.not_rvalid hr hv hno hcap
    have hctl := LoadStoreUnit.ctl_idle_of_not_req hf hreq s.enable i.bus
    refine ⟨⟨h.authorised, ?_, ?_⟩, enable_step_of h.enable, ?_, .inr (.inr ⟨?_, ?_⟩)⟩
    · rw [MemPipe.step, LoadStoreUnit.step, hctl]
      exact h.clrperm
    · rw [MemPipe.step, LoadStoreUnit.step, hctl]
      exact h.lsuErr
    · rw [MemPipe.step, LoadStoreUnit.step, hctl]
      exact h.dataWe
    · rw [fsm_step, hctl]
    · exact capRx_step_of_not_rvalid hcap hrv

omit hv in
/-- The response of the access is the second one, and it finds the unit idle. -/
theorem of_respValid (hrsp : s.lsu.respValid s.enable i.bus = true) :
    s.lsu.fsm = .idle ∧ s.lsu.capRx = .waitResp2 ∧ i.bus.rvalid = true ∧
      s.lsu.respIsCap = true ∧
      s.lsu.dataOrPmpErr s.enable i.bus = (i.bus.rsp.err || s.lsu.capLswErr) := by
  rw [LoadStoreUnit.respValid, Bool.and_eq_true, beq_iff_eq] at hrsp
  obtain ⟨hcap, -, herr, hisCap⟩ := h.wbMem_of_idle hr hrsp.2
  refine ⟨hrsp.2, hcap, ?_, hisCap, ?_⟩
  · simpa [herr] using hrsp.1
  · simp [LoadStoreUnit.dataOrPmpErr, h.lsuErr, herr, h.enable, hisCap]

omit hv in
/-- **The capability that the unit puts together**, from the word that it kept and the word that
comes now. -/
theorem result (hrsp : s.lsu.respValid s.enable i.bus = true) :
    s.lsu.rdata s.enable i.bus = s.lsu.capLswData ∧
      s.lsu.rdataValid s.enable i.bus =
        (!(i.bus.rsp.err || s.lsu.capLswErr) && !(c.op == .cstoreCap)) ∧
      s.lsu.rcap s.enable i.bus =
        if i.bus.rsp.err || s.lsu.capLswErr then nullCap
        else memToCap (BitVec.cons i.bus.rsp.tag i.bus.rsp.data)
          (BitVec.cons s.lsu.capLswTag s.lsu.capLswData) c.lcClrperm := by
  obtain ⟨hfsm, hcap, hrv, hisCap, herr⟩ := h.of_respValid hr hrsp
  refine ⟨?_, ?_, ?_⟩
  · simp [LoadStoreUnit.rdata, h.enable, hisCap]
  · simp [LoadStoreUnit.rdataValid, hfsm, hrv, herr, h.dataWe]
  · rw [LoadStoreUnit.rcap, herr, h.enable, hisCap, hrv, hcap, h.clrperm]
    cases i.bus.rsp.err || s.lsu.capLswErr <;> rfl

end Remembers

end MemPipe

end Lsu

end Croc
