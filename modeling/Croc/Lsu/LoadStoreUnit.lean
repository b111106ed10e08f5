import Croc.Cheriot.Ex
import Croc.Lib.ByteMemory
import Croc.Revocation.Trvk

/-!
# The load/store unit

`ibex_load_store_unit` turns a load or store of the core into one or two word accesses of the data
port. A word or halfword that crosses a word boundary is split in two, and a capability always takes
two accesses, one for its address word and one for its metadata word. One state machine sends the
requests, a second one counts the responses of a capability.

The module is the instance of the SoC: no memory ECC and no PMP, so the PMP error that the source
carries along is constantly 0 and is left out.

## Main definitions

* `LsFsm`, `CapRxFsm`: the two state machines.
* `Request`, `BusIn`: what the core asks for in a cycle, and what the data port answers.
* `LoadStoreUnit`, `LoadStoreUnit.step`: the registers and one clock edge.
* `LoadStoreUnit.up`: the request on the data port.
* `LoadStoreUnit.reqDone`, `LoadStoreUnit.respValid`, `LoadStoreUnit.rdata`, `LoadStoreUnit.rcap`:
  what goes back to the core.
-/

namespace Croc

namespace Lsu

open Cheriot Revocation

open Bits (Word)

/-- `ls_fsm_e`. -/
inductive LsFsm
  | idle
  | waitGntMis
  | waitRvalidMis
  | waitGnt
  | waitRvalidMisGntsDone
  | ctxWaitGnt1
  | ctxWaitGnt2
  | ctxWaitResp
  deriving DecidableEq, Repr, Inhabited

/-- `cap_rx_fsm_t`. -/
inductive CapRxFsm
  | idle
  | waitResp1
  | waitResp2
  deriving DecidableEq, Repr, Inhabited

/-- What the core asks for in a cycle. -/
structure Request where
  /-- `lsu_req_i`. -/
  req : Bool
  /-- `lsu_cheriot_err_i`: the access fails its capability check. -/
  cheriotErr : Bool
  /-- `lsu_we_i`. -/
  we : Bool
  /-- `lsu_is_cap_i`. -/
  isCap : Bool
  /-- `lsu_type_i`: 0 is a word, 1 a halfword, 2 and 3 are a byte. -/
  lsuType : BitVec 2
  /-- `lsu_sign_ext_i`. -/
  signExt : Bool
  /-- `adder_result_ex_i`: the address of the access that is being requested. -/
  addr : Word
  /-- `lsu_wdata_i`. -/
  wdata : Word
  /-- `lsu_wcap_i`. -/
  wcap : Cap
  /-- `lsu_lc_clrperm_i`. -/
  lcClrperm : CapClrperm
  deriving DecidableEq, Repr, Inhabited

/-- What the data port answers in a cycle. -/
structure BusIn where
  /-- `data_gnt_i`. -/
  gnt : Bool
  /-- `data_rvalid_i`. -/
  rvalid : Bool
  /-- The response: `data_rdata_i`, `data_tag_i` and `data_bus_err_i`. -/
  rsp : DsRsp
  deriving DecidableEq, Repr, Inhabited

/-- The byte enables of a data access, by its type, its half and its offset in the word. -/
def byteEnable (lsuType : BitVec 2) (handleMisaligned : Bool) (dataOffset : BitVec 2) : BitVec 4 :=
  match lsuType.toNat, handleMisaligned, dataOffset.toNat with
  | 0, false, 0 => 0b1111
  | 0, false, 1 => 0b1110
  | 0, false, 2 => 0b1100
  | 0, false, _ => 0b1000
  | 0, true, 0 => 0b0000
  | 0, true, 1 => 0b0001
  | 0, true, 2 => 0b0011
  | 0, true, _ => 0b0111
  | 1, false, 0 => 0b0011
  | 1, false, 1 => 0b0110
  | 1, false, 2 => 0b1100
  | 1, false, _ => 0b1000
  | 1, true, _ => 0b0001
  | _, _, 0 => 0b0001
  | _, _, 1 => 0b0010
  | _, _, 2 => 0b0100
  | _, _, _ => 0b1000

/-- Only the second half of a word that is not split would enable no byte. -/
theorem exists_byteEnable {ty : BitVec 2} {mis : Bool} {off : BitVec 2}
    (h : ty = 0 → mis = true → off ≠ 0) :
    ∃ k : Fin 4, (byteEnable ty mis off).getLsbD k = true := by
  revert ty mis off
  decide

namespace Request

variable (q : Request) (enable : Bool)

/-- A capability access, in CHERIoT mode. -/
def cap : Bool := enable && q.isCap

/-- `data_offset`. -/
def dataOffset : BitVec 2 := if q.cap enable then 0 else q.addr.extractLsb' 0 2

/-- `data_be`. `handleMisaligned` marks the second half of a split access. -/
def dataBe (handleMisaligned : Bool) : BitVec 4 :=
  if q.cap enable then 0b1111 else byteEnable q.lsuType handleMisaligned (q.dataOffset enable)

/-- `wdata_int`: the data of a store, rotated to its byte lanes. -/
def wdataInt : Word :=
  match (q.dataOffset enable).toNat with
  | 0 => q.wdata
  | 1 => q.wdata.extractLsb' 0 24 ++ q.wdata.extractLsb' 24 8
  | 2 => q.wdata.extractLsb' 0 16 ++ q.wdata.extractLsb' 16 16
  | _ => q.wdata.extractLsb' 0 8 ++ q.wdata.extractLsb' 8 24

/-- `{data_wdata_tag, data_wdata_data}`. The tag of a capability load asks the memory for tags. -/
def dataWdata (fsm : LsFsm) : Bool × Word :=
  if q.cap enable then
    if q.we && fsm == .ctxWaitGnt2 then
      ((capToMem q.wcap).getLsbD 32, (capToMem q.wcap).setWidth 32)
    else if q.we then (q.wcap.valid, q.wdata)
    else (true, q.wdata)
  else (false, q.wdataInt enable)

/-- `split_misaligned_access`. -/
def splitMisalignedAccess : Bool :=
  (q.lsuType == 0 && q.dataOffset enable != 0) || (q.lsuType == 1 && q.dataOffset enable == 3)

/-- `cpu_req_valid`. -/
def cpuReqValid : Bool := q.req && !(enable && q.cheriotErr)

/-- `cpu_req_erred`. -/
def cpuReqErred : Bool := q.req && enable && q.cheriotErr

end Request

/-- The registers of the unit. -/
structure LoadStoreUnit where
  /-- `ls_fsm_cs`. -/
  fsm : LsFsm
  /-- `handle_misaligned_q`: the first half of a split access has been granted. -/
  handleMisaligned : Bool
  /-- `lsu_err_q`. -/
  lsuErr : Bool
  /-- `cheriot_err_q`. -/
  cheriotErr : Bool
  /-- `resp_is_cap_q`. -/
  respIsCap : Bool
  /-- `resp_lc_clrperm_q`. -/
  respLcClrperm : CapClrperm
  /-- `cap_rx_fsm_q`. -/
  capRx : CapRxFsm
  /-- `cap_lsw_err_q`. -/
  capLswErr : Bool
  /-- `cap_lsw_data_q`: the address word of a capability. -/
  capLswData : Word
  /-- `cap_lsw_tag_q`. -/
  capLswTag : Bool
  /-- `rdata_q`: the upper three bytes of the first half of a split load. -/
  rdataQ : BitVec 24
  /-- `rdata_offset_q`. -/
  rdataOffset : BitVec 2
  /-- `data_type_q`. -/
  dataType : BitVec 2
  /-- `data_sign_ext_q`. -/
  dataSignExt : Bool
  /-- `data_we_q`. -/
  dataWe : Bool
  /-- `addr_last_q`. -/
  addrLast : Word
  deriving DecidableEq, Repr, Inhabited

/-- The signals that the state machine drives in a cycle. Each has the default of the source, and a
state sets those that it changes. -/
structure Ctl where
  /-- `ls_fsm_ns`. -/
  ns : LsFsm
  /-- `handle_misaligned_d`. -/
  handleMisaligned : Bool
  /-- `lsu_err_d`. -/
  lsuErr : Bool
  /-- `cheriot_err_d`. -/
  cheriotErr : Bool
  /-- `data_req_o`. -/
  dataReq : Bool := false
  /-- `addr_update`. -/
  addrUpdate : Bool := false
  /-- `ctrl_update`. -/
  ctrlUpdate : Bool := false
  /-- `rdata_update`. -/
  rdataUpdate : Bool := false
  /-- `lsu_go`. -/
  lsuGo : Bool := false
  /-- `lsu_go_goodcap`. -/
  lsuGoGoodcap : Bool := false

namespace LoadStoreUnit

/-- The unit out of reset. -/
def init : LoadStoreUnit where
  fsm := .idle
  handleMisaligned := false
  lsuErr := false
  cheriotErr := false
  respIsCap := false
  respLcClrperm := ⟨false, false, false⟩
  capRx := .idle
  capLswErr := false
  capLswData := 0
  capLswTag := false
  rdataQ := 0
  rdataOffset := 0
  dataType := 0
  dataSignExt := false
  dataWe := false
  addrLast := 0

variable (s : LoadStoreUnit) (enable : Bool) (q : Request) (b : BusIn)

/-- `addr_incr_req_o`: the core is to form the address of the second access. -/
def addrIncrReq : Bool :=
  match s.fsm with
  | .waitRvalidMis => true
  | .waitGnt => s.handleMisaligned
  | .waitRvalidMisGntsDone => true
  | .ctxWaitGnt2 => enable
  | .ctxWaitResp => enable
  | _ => false

/-- The state machine. -/
def ctl : Ctl :=
  let d : Ctl :=
    { ns := s.fsm
      handleMisaligned := s.handleMisaligned
      lsuErr := s.lsuErr
      cheriotErr := s.cheriotErr && enable }
  match s.fsm with
  | .idle =>
    if enable && q.cpuReqErred enable then
      -- no request goes out, the error is reported in the next cycle
      { d with
        cheriotErr := true, ctrlUpdate := true, addrUpdate := true, lsuErr := false, lsuGo := true
        ns := .idle }
    else if enable && q.cpuReqValid enable && q.isCap then
      { d with
        dataReq := true, cheriotErr := false, lsuErr := false, lsuGo := true, lsuGoGoodcap := true
        ctrlUpdate := b.gnt, addrUpdate := b.gnt
        ns := if b.gnt then .ctxWaitGnt2 else .ctxWaitGnt1 }
    else if q.cpuReqValid enable then
      let split := q.splitMisalignedAccess enable
      if b.gnt then
        { d with
          dataReq := true, cheriotErr := false, lsuErr := false, lsuGo := true
          ctrlUpdate := true, addrUpdate := true, handleMisaligned := split
          ns := if split then .waitRvalidMis else .idle }
      else
        { d with
          dataReq := true, cheriotErr := false, lsuErr := false, lsuGo := true
          ns := if split then .waitGntMis else .waitGnt }
    else { d with cheriotErr := false }
  | .waitGntMis =>
    if b.gnt then
      { d with
        dataReq := true, addrUpdate := true, ctrlUpdate := true, handleMisaligned := true
        ns := .waitRvalidMis }
    else { d with dataReq := true }
  | .waitRvalidMis =>
    if b.rvalid then
      { d with
        dataReq := true, lsuErr := b.rsp.err, rdataUpdate := !s.dataWe
        addrUpdate := b.gnt && !b.rsp.err, handleMisaligned := !b.gnt
        ns := if b.gnt then .idle else .waitGnt }
    else if b.gnt then
      { d with dataReq := true, handleMisaligned := false, ns := .waitRvalidMisGntsDone }
    else { d with dataReq := true }
  | .waitGnt =>
    if b.gnt then
      { d with
        dataReq := true, ctrlUpdate := true, addrUpdate := !s.lsuErr, handleMisaligned := false
        ns := .idle }
    else { d with dataReq := true }
  | .waitRvalidMisGntsDone =>
    if b.rvalid then
      { d with
        lsuErr := b.rsp.err, addrUpdate := !b.rsp.err, rdataUpdate := !s.dataWe, ns := .idle }
    else d
  | .ctxWaitGnt1 =>
    if enable then
      if b.gnt then
        { d with dataReq := true, ctrlUpdate := true, addrUpdate := true, ns := .ctxWaitGnt2 }
      else { d with dataReq := true }
    else { d with ns := .idle }
  | .ctxWaitGnt2 =>
    if enable then
      if b.gnt && (b.rvalid || s.capRx == .waitResp2) then { d with dataReq := true, ns := .idle }
      else if b.gnt then { d with dataReq := true, ns := .ctxWaitResp }
      else { d with dataReq := true }
    else { d with ns := .idle }
  | .ctxWaitResp =>
    if enable then
      if b.rvalid then { d with ns := .idle } else d
    else { d with ns := .idle }

/-- `cap_rx_fsm_d`. -/
def capRxD : CapRxFsm :=
  match s.capRx with
  | .idle => if enable && (s.ctl enable q b).lsuGoGoodcap then .waitResp1 else .idle
  | .waitResp1 => if b.rvalid then .waitResp2 else .waitResp1
  | .waitResp2 =>
    if b.rvalid && (s.ctl enable q b).lsuGoGoodcap then .waitResp1
    else if b.rvalid then .idle
    else .waitResp2

/-- `lsu_req_done_o`. -/
def reqDone : Bool :=
  ((s.ctl enable q b).lsuGo || s.fsm != .idle) && (s.ctl enable q b).ns == .idle

/-! ### The data port -/

/-- `data_addr_w_aligned`. -/
def dataAddrWAligned : Word := ByteMemory.wordOf q.addr

/-- The request on the data port. -/
def up : UpstreamReq where
  req := (s.ctl enable q b).dataReq
  we := q.we
  be := q.dataBe enable s.handleMisaligned
  addr := dataAddrWAligned q
  wdata := (q.dataWdata enable s.fsm).2
  wdataIntg := 0
  tag := (q.dataWdata enable s.fsm).1

/-! ### Responses -/

/-- `data_or_pmp_err`. -/
def dataOrPmpErr : Bool :=
  s.lsuErr || b.rsp.err || (enable && (s.cheriotErr || (s.respIsCap && s.capLswErr)))

/-- `lsu_resp_valid_o`. -/
def respValid : Bool := (b.rvalid || (enable && s.cheriotErr)) && s.fsm == .idle

/-- `lsu_rdata_valid_o`. -/
def rdataValid : Bool := s.fsm == .idle && b.rvalid && !s.dataOrPmpErr enable b && !s.dataWe

/-- `rdata_w_ext`: a word, put together from the two halves of a split load. -/
def rdataWExt : Word :=
  match s.rdataOffset.toNat with
  | 0 => b.rsp.data
  | 1 => b.rsp.data.extractLsb' 0 8 ++ s.rdataQ
  | 2 => b.rsp.data.extractLsb' 0 16 ++ s.rdataQ.extractLsb' 8 16
  | _ => b.rsp.data.extractLsb' 0 24 ++ s.rdataQ.extractLsb' 16 8

/-- The halfword before it is extended. -/
def rdataHalf : BitVec 16 :=
  match s.rdataOffset.toNat with
  | 0 => b.rsp.data.extractLsb' 0 16
  | 1 => b.rsp.data.extractLsb' 8 16
  | 2 => b.rsp.data.extractLsb' 16 16
  | _ => b.rsp.data.extractLsb' 0 8 ++ s.rdataQ.extractLsb' 16 8

/-- The byte before it is extended. -/
def rdataByte : BitVec 8 := b.rsp.data.extractLsb' (8 * s.rdataOffset.toNat) 8

/-- `data_rdata_ext`: `rdata_h_ext` and `rdata_b_ext` are extended with the sign or with zeros. -/
def dataRdataExt : Word :=
  match s.dataType.toNat with
  | 0 => s.rdataWExt b
  | 1 => if s.dataSignExt then (s.rdataHalf b).signExtend 32 else (s.rdataHalf b).setWidth 32
  | _ => if s.dataSignExt then (s.rdataByte b).signExtend 32 else (s.rdataByte b).setWidth 32

/-- `lsu_rdata_o`. -/
def rdata : Word := if enable && s.respIsCap then s.capLswData else s.dataRdataExt b

/-- `lsu_rcap_o`. -/
def rcap : Cap :=
  if enable && s.respIsCap && b.rvalid && s.capRx == .waitResp2 && !s.dataOrPmpErr enable b then
    memToCap (BitVec.cons b.rsp.tag b.rsp.data) (BitVec.cons s.capLswTag s.capLswData)
      s.respLcClrperm
  else nullCap

/-- One clock edge. -/
def step : LoadStoreUnit :=
  let c := s.ctl enable q b
  let first := enable && s.capRx == .waitResp1 && b.rvalid
  { fsm := c.ns
    handleMisaligned := c.handleMisaligned
    lsuErr := c.lsuErr
    cheriotErr := c.cheriotErr
    respIsCap := if c.lsuGo then q.isCap else s.respIsCap
    respLcClrperm := if c.lsuGo then q.lcClrperm else s.respLcClrperm
    capRx := s.capRxD enable q b
    capLswErr := if first then b.rsp.err else s.capLswErr
    capLswData := if first && !s.dataWe then b.rsp.data else s.capLswData
    capLswTag := if first && !s.dataWe then b.rsp.tag else s.capLswTag
    rdataQ := if c.rdataUpdate then b.rsp.data.extractLsb' 8 24 else s.rdataQ
    rdataOffset := if c.ctrlUpdate then q.dataOffset enable else s.rdataOffset
    dataType := if c.ctrlUpdate then q.lsuType else s.dataType
    dataSignExt := if c.ctrlUpdate then q.signExt else s.dataSignExt
    dataWe := if c.ctrlUpdate then q.we else s.dataWe
    addrLast :=
      if c.addrUpdate then
        if s.addrIncrReq enable then dataAddrWAligned q else q.addr
      else s.addrLast }

/-! ### What an idle unit does -/

variable {s}

theorem ctl_idle_of_not_req (h : s.fsm = .idle) {q : Request} (hreq : q.req = false) (enable : Bool)
    (b : BusIn) : s.ctl enable q b =
      { ns := .idle, handleMisaligned := s.handleMisaligned, lsuErr := s.lsuErr
        cheriotErr := false } := by
  simp [ctl, h, Request.cpuReqErred, Request.cpuReqValid, hreq]

theorem ctl_idle_of_cap (h : s.fsm = .idle) {q : Request} (hreq : q.req = true)
    (herr : q.cheriotErr = false) (hcap : q.isCap = true) (b : BusIn) : s.ctl true q b =
      { ns := if b.gnt then .ctxWaitGnt2 else .ctxWaitGnt1
        handleMisaligned := s.handleMisaligned, lsuErr := false, cheriotErr := false
        dataReq := true, addrUpdate := b.gnt, ctrlUpdate := b.gnt
        lsuGo := true, lsuGoGoodcap := true } := by
  simp [ctl, h, Request.cpuReqErred, Request.cpuReqValid, hreq, herr, hcap]

/-- An idle unit stays idle, reports an error, starts on a capability or starts on a data access. -/
theorem ctl_idle_cases (h : s.fsm = .idle) (enable : Bool) (q : Request) (b : BusIn) :
    (q.req = false ∧ s.ctl enable q b =
      { ns := .idle, handleMisaligned := s.handleMisaligned, lsuErr := s.lsuErr
        cheriotErr := false }) ∨
    (q.req = true ∧ enable = true ∧ q.cheriotErr = true ∧ s.ctl enable q b =
      { ns := .idle, handleMisaligned := s.handleMisaligned, lsuErr := false, cheriotErr := true
        addrUpdate := true, ctrlUpdate := true, lsuGo := true }) ∨
    (q.req = true ∧ enable = true ∧ q.cheriotErr = false ∧ q.isCap = true ∧ s.ctl enable q b =
      { ns := if b.gnt then .ctxWaitGnt2 else .ctxWaitGnt1
        handleMisaligned := s.handleMisaligned, lsuErr := false, cheriotErr := false
        dataReq := true, addrUpdate := b.gnt, ctrlUpdate := b.gnt
        lsuGo := true, lsuGoGoodcap := true }) ∨
    (q.req = true ∧ (enable = true → q.cheriotErr = false) ∧ q.cap enable = false ∧
      s.ctl enable q b =
      { ns := if q.splitMisalignedAccess enable then
            if b.gnt then .waitRvalidMis else .waitGntMis
          else if b.gnt then .idle else .waitGnt
        handleMisaligned := if b.gnt then q.splitMisalignedAccess enable else s.handleMisaligned
        lsuErr := false, cheriotErr := false, dataReq := true
        addrUpdate := b.gnt, ctrlUpdate := b.gnt, lsuGo := true }) := by
  cases hreq : q.req with
  | false => exact .inl ⟨rfl, ctl_idle_of_not_req h hreq enable b⟩
  | true =>
    refine .inr ?_
    cases enable with
    | false =>
      refine .inr (.inr ⟨rfl, nofun, rfl, ?_⟩)
      cases hsp : q.splitMisalignedAccess false <;> cases hgnt : b.gnt <;>
        simp [ctl, h, Request.cpuReqValid, hreq, hsp, hgnt]
    | true =>
      cases herr : q.cheriotErr with
      | true => exact .inl ⟨rfl, rfl, rfl, by simp [ctl, h, Request.cpuReqErred, hreq, herr]⟩
      | false =>
        refine .inr ?_
        cases hcap : q.isCap with
        | true => exact .inl ⟨rfl, rfl, rfl, rfl, ctl_idle_of_cap h hreq herr hcap b⟩
        | false =>
          refine .inr ⟨rfl, fun _ => rfl, by simp [Request.cap, hcap], ?_⟩
          cases hsp : q.splitMisalignedAccess true <;> cases hgnt : b.gnt <;>
            simp [ctl, h, Request.cpuReqErred, Request.cpuReqValid, hreq, herr, hcap, hsp, hgnt]

/-- An idle unit leaves its state only for a request that has passed its checks. -/
theorem req_of_ctl_idle (h : s.fsm = .idle) {enable : Bool} {q : Request} {b : BusIn}
    (hns : (s.ctl enable q b).ns ≠ .idle) :
    q.req = true ∧ (enable = true → q.cheriotErr = false) := by
  rcases ctl_idle_cases h enable q b with
    ⟨-, hctl⟩ | ⟨-, -, -, hctl⟩ | ⟨hreq, -, herr, -⟩ | ⟨hreq, herr, -⟩
  · rw [hctl] at hns
    exact absurd rfl hns
  · rw [hctl] at hns
    exact absurd rfl hns
  · exact ⟨hreq, fun _ => herr⟩
  · exact ⟨hreq, herr⟩

/-- An idle unit sends what it is asked for, unless the request has failed its checks. -/
theorem dataReq_ctl_idle (h : s.fsm = .idle) {enable : Bool} {q : Request} {b : BusIn} :
    (s.ctl enable q b).dataReq = q.cpuReqValid enable := by
  rcases ctl_idle_cases h enable q b with
    ⟨hreq, hctl⟩ | ⟨-, hen, herr, hctl⟩ | ⟨hreq, -, herr, -, hctl⟩ | ⟨hreq, herr, -, hctl⟩
  · simp [hctl, Request.cpuReqValid, hreq]
  · rw [hctl]
    simp [Request.cpuReqValid, hen, herr]
  · simp [hctl, Request.cpuReqValid, hreq, herr]
  · cases enable with
    | false => simp [hctl, Request.cpuReqValid, hreq]
    | true => simp [hctl, Request.cpuReqValid, hreq, herr rfl]

/-- The unit waits for a response, with both requests granted, only from a state in which the core
already forms the second address, and the address register is left alone. -/
theorem ctl_ns_sent {enable : Bool} {q : Request} {b : BusIn}
    (h : (s.ctl enable q b).ns = .waitRvalidMisGntsDone ∨ (s.ctl enable q b).ns = .ctxWaitResp) :
    s.fsm ≠ .idle ∧ s.addrIncrReq enable = true ∧ (s.ctl enable q b).addrUpdate = false ∧
      ((s.ctl enable q b).ns = .ctxWaitResp → enable = true) := by
  cases hfsm : s.fsm with
  | idle =>
    exfalso
    rcases ctl_idle_cases hfsm enable q b with
      ⟨-, hctl⟩ | ⟨-, -, -, hctl⟩ | ⟨-, -, -, -, hctl⟩ | ⟨-, -, -, hctl⟩
    · simp [hctl] at h
    · simp [hctl] at h
    · cases hg : b.gnt <;> simp [hctl, hg] at h
    · cases hg : b.gnt <;> cases hsp : q.splitMisalignedAccess enable <;>
        simp [hctl, hg, hsp] at h
  | waitGntMis => cases hg : b.gnt <;> simp [ctl, hfsm, hg] at h
  | waitRvalidMis =>
    cases hg : b.gnt <;> cases hr : b.rvalid <;> simp [ctl, hfsm, hg, hr] at h
    simp [ctl, hfsm, hg, hr, addrIncrReq]
  | waitGnt => cases hg : b.gnt <;> simp [ctl, hfsm, hg] at h
  | waitRvalidMisGntsDone =>
    cases hr : b.rvalid <;> simp [ctl, hfsm, hr] at h
    simp [ctl, hfsm, hr, addrIncrReq]
  | ctxWaitGnt1 => cases hen : enable <;> cases hg : b.gnt <;> simp [ctl, hfsm, hg, hen] at h
  | ctxWaitGnt2 =>
    cases enable with
    | false => simp [ctl, hfsm] at h
    | true =>
      refine ⟨nofun, by rw [addrIncrReq, hfsm], ?_, fun _ => rfl⟩
      simp only [ctl, hfsm]
      split_ifs <;> rfl
  | ctxWaitResp =>
    cases enable with
    | false => simp [ctl, hfsm] at h
    | true =>
      refine ⟨nofun, by rw [addrIncrReq, hfsm], ?_, fun _ => rfl⟩
      simp only [ctl, hfsm]
      split_ifs <;> rfl

end LoadStoreUnit

end Lsu

end Croc
