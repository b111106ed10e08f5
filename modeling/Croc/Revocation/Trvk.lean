import Mathlib.Data.Fin.VecNotation
import Croc.Cells
import Croc.Cheriot.Bounds
import Croc.Lib.Clocked

/-!
# The load filter

`ibex_trvk` sits between the load/store unit and the crossbar. Requests pass through it unchanged,
responses pass through it in order, and on the second word of a tagged capability it looks the base
of the capability up in the revocation bitmap and withholds the tag if the bit is set. The data
port is 32 bits wide, so a capability arrives as two responses: the filter remembers the first word
in a register, and the alignment of every outstanding request in a FIFO.

The module is the instance of the SoC: two outstanding accesses, no memory ECC, a heap at
`0x1001_0000` and a 1 KiB bitmap at `0x1002_0000`.

## Main definitions

* `capBase`, `revbmBitAddr`, `revbmAddr`, `revbmBitSelect`: the bitmap bit of a capability.
* `Trvk`, `TrvkIn`, `Trvk.step`: the registers, the inputs of a cycle and one clock edge.
* `Trvk.upRvalid`, `Trvk.upTag`, `Trvk.revbmReq`: the outputs that carry the handshakes.
* `Trvk.Pending`: the filter waits for the bitmap and nothing else.

## Main results

* `capBase_eq_decodeCap`: the filter computes the base that the core decodes.
* `revbmOutOfRange_eq_false_iff`, `toNat_revbmAddr`, `toNat_revbmBitSelect`: the bit that is
  consulted.
* `Trvk.Pending.revbmReqRequired`, `Trvk.pending_step`: a lookup that is not answered stays
  required.
* `Trvk.revbmAddrO_step`: and its address stays on the port.
* `Trvk.pending_of_outstanding_step`: an outstanding lookup is one the filter waits for.
-/

namespace Croc

namespace Revocation

open Cheriot Clocked

open Bits (Word)

/-! ### The bitmap bit of a capability -/

/-- `HeapBaseAddr`. -/
def heapBaseAddr : Word := 0x10010000

/-- `RevBitmapBaseAddr`. -/
def revBitmapBaseAddr : Word := 0x10020000

/-- `cap_meta_t`: the fields of a metadata word that the filter reads. -/
structure CapMeta where
  /-- The expanded exponent. -/
  exponent : BitVec 5
  /-- The base mantissa. -/
  base : BitVec 9
  /-- The object type. -/
  otype : BitVec 3
  /-- The compressed permissions. -/
  cperms : BitVec 6
  deriving DecidableEq, Repr

/-- `cap_meta`. -/
def capMeta (data : Word) : CapMeta where
  base := data.extractLsb' 0 9
  exponent := expandExp (data.extractLsb' 18 4)
  otype := data.extractLsb' 22 3
  cperms := data.extractLsb' 25 6

/-- The number of the bitmap bit for a capability based at `base`. -/
def heapBit (base : ℕ) : ℕ := (base - 0x10010000) / 8

section Lookup

variable (ptr data : Word)

/-- `cap_base`: the base of the capability with address word `ptr` and metadata word `data`. The
top plays no part in it and is taken to be zero. -/
def capBase : Word :=
  let m := capMeta data
  let capCorrection := computeCorrections 0 m.base (addrMid ptr m.exponent)
  (expandBound33 m.base (getBaseCorrection capCorrection) m.exponent ptr).setWidth 32

/-- `revbm_bit_addr`: one bit for every eight bytes of heap. -/
def revbmBitAddr : Word := (capBase ptr data - heapBaseAddr) >>> 3

/-- `revbm_bit_select`. -/
def revbmBitSelect : BitVec 5 := (revbmBitAddr ptr data).extractLsb' 0 5

/-- `revbm_out_of_range`. -/
def revbmOutOfRange : Bool := (revbmBitAddr ptr data).extractLsb' 13 19 != 0

/-- `revbm_addr_o`: the word that holds the bit. -/
def revbmAddr : Word :=
  revBitmapBaseAddr + ((revbmBitAddr ptr data).extractLsb' 5 8 ++ (0 : BitVec 2)).setWidth 32

/-- The capability is one that the bitmap speaks about: not a sealing capability, and based in the
heap. -/
def revocable : Bool := !isSealingCap (capMeta data).cperms && !revbmOutOfRange ptr data

variable {ptr data}

/-- The base correction does not depend on the top. -/
theorem getBaseCorrection_computeCorrections (t t' b a : BitVec 9) :
    getBaseCorrection (computeCorrections t b a) =
      getBaseCorrection (computeCorrections t' b a) := by
  have h : ∀ x y z : Bool, getBaseCorrection (BitVec.ofBoolListBE [xor x z, z]) =
      getBaseCorrection (BitVec.ofBoolListBE [xor y z, z]) := by decide
  exact h _ _ _

/-- **The filter and the decoder agree on the base.** -/
theorem capBase_eq_decodeCap (tag : Bool) (clrperm : CapClrperm) :
    capBase ptr data =
      (decodeCap (memToCap (BitVec.cons tag data) (BitVec.cons tag ptr) clrperm) ptr).base32 := by
  have hptr : (BitVec.cons tag ptr).setWidth 32 = ptr := by simp
  have hext : ∀ s n : ℕ, s + n ≤ 32 →
      (BitVec.cons tag data).extractLsb' s n = data.extractLsb' s n := by
    intro s n hsn
    ext j hj
    have : s + j < 32 := by omega
    simp [BitVec.getLsbD_cons, show ¬ s + j = 32 by omega]
  simp only [capBase, capMeta, decodeCap, memToCap, hptr, hext 0 9 (by norm_num),
    hext 18 4 (by norm_num), hext 9 9 (by norm_num)]
  rw [getBaseCorrection_computeCorrections]

variable (ptr data) in
theorem toNat_revbmBitAddr :
    (revbmBitAddr ptr data).toNat =
      (2 ^ 32 - heapBaseAddr.toNat + (capBase ptr data).toNat) % 2 ^ 32 / 8 := by
  rw [revbmBitAddr, BitVec.toNat_ushiftRight, BitVec.toNat_sub, Nat.shiftRight_eq_div_pow]

/-- The bitmap covers exactly the heap's 64 KiB. -/
theorem revbmOutOfRange_eq_false_iff : revbmOutOfRange ptr data = false ↔
    0x10010000 ≤ (capBase ptr data).toNat ∧ (capBase ptr data).toNat < 0x10020000 := by
  have hlt := (capBase ptr data).isLt
  have hbit := toNat_revbmBitAddr ptr data
  have hheap : heapBaseAddr.toNat = 0x10010000 := rfl
  have hzero : (revbmBitAddr ptr data).extractLsb' 13 19 = 0 ↔
      (revbmBitAddr ptr data).toNat / 2 ^ 13 % 2 ^ 19 = 0 := by
    rw [← BitVec.toNat_inj, BitVec.extractLsb'_toNat, Nat.shiftRight_eq_div_pow]
    rfl
  rw [revbmOutOfRange, bne_eq_false_iff_eq, hzero]
  omega

variable (ptr data) in
theorem toNat_revbmAddr : (revbmAddr ptr data).toNat =
    0x10020000 + 4 * ((revbmBitAddr ptr data).toNat / 32 % 256) := by
  have h : ((revbmBitAddr ptr data).extractLsb' 5 8 ++ (0 : BitVec 2)).toNat =
      4 * ((revbmBitAddr ptr data).toNat / 32 % 256) := by
    rw [BitVec.toNat_append, Nat.shiftLeft_eq, BitVec.extractLsb'_toNat, Nat.shiftRight_eq_div_pow]
    simp
    omega
  rw [revbmAddr, BitVec.toNat_add, BitVec.toNat_setWidth, h]
  simp [revBitmapBaseAddr]
  omega

theorem toNat_revbmBitSelect :
    (revbmBitSelect ptr data).toNat = (revbmBitAddr ptr data).toNat % 32 := by
  rw [revbmBitSelect, BitVec.extractLsb'_toNat]
  simp

variable (ptr data) in
/-- Every lookup address lies inside the 1 KiB bitmap window. -/
theorem revbmAddr_mem_window : 0x10020000 ≤ (revbmAddr ptr data).toNat ∧
    (revbmAddr ptr data).toNat + 4 ≤ 0x10020400 := by
  have := toNat_revbmAddr ptr data
  omega

/-- Inside the heap, the bit address is the distance from the heap base in units of eight bytes. -/
theorem toNat_revbmBitAddr_of_inRange (h : revbmOutOfRange ptr data = false) :
    (revbmBitAddr ptr data).toNat = heapBit (capBase ptr data).toNat := by
  have hr := revbmOutOfRange_eq_false_iff.mp h
  have hheap : heapBaseAddr.toNat = 0x10010000 := rfl
  rw [toNat_revbmBitAddr, hheap, heapBit]
  omega

end Lookup

/-! ### The registers and one cycle -/

/-- A request from the load/store unit, forwarded unchanged. -/
structure UpstreamReq where
  /-- `upstream_req_i`. -/
  req : Bool
  /-- `upstream_we_i`. -/
  we : Bool
  /-- `upstream_be_i`. -/
  be : BitVec 4
  /-- `upstream_addr_i`. -/
  addr : Word
  /-- `upstream_wdata_i`. -/
  wdata : Word
  /-- `upstream_wdata_intg_i`. -/
  wdataIntg : BitVec 7
  /-- `upstream_tag_i`. -/
  tag : Bool
  deriving DecidableEq, Repr, Inhabited

/-- `ds_rsp_t`: a response of the memory system. -/
structure DsRsp where
  /-- The data word. -/
  data : Word
  /-- Its integrity bits. -/
  intg : BitVec 7
  /-- The tag of the word. -/
  tag : Bool
  /-- The error flag. -/
  err : Bool
  deriving DecidableEq, Repr, Inhabited

/-- The inputs of one cycle. -/
structure TrvkIn where
  /-- The request of the load/store unit. -/
  up : UpstreamReq
  /-- `downstream_gnt_i`. -/
  dsGnt : Bool
  /-- `downstream_rvalid_i`. -/
  dsRvalid : Bool
  /-- The downstream response. -/
  dsRsp : DsRsp
  /-- `revbm_gnt_i`. -/
  revbmGnt : Bool
  /-- `revbm_rvalid_i`. -/
  revbmRvalid : Bool
  /-- `revbm_rdata_i`. -/
  revbmRdata : Word
  /-- `revbm_err_i`. -/
  revbmErr : Bool
  deriving DecidableEq, Repr, Inhabited

/-- The registers of the filter. -/
structure Trvk where
  /-- `u_stream_fork_us2ds`; output 0 is the downstream port, output 1 the alignment store. -/
  fork : StreamFork 2
  /-- `u_prim_fifo_sync_align`: bit 2 of the address of every outstanding request. -/
  align : PrimFifoSync Bool 2
  /-- `u_prim_fifo_ds_rsp_store`. -/
  rsp : PrimFifoSync DsRsp 2
  /-- `ptr_storage_q`. -/
  ptr : Word
  /-- `ptr_storage_valid_q`. -/
  ptrValid : Bool
  /-- `revbm_outstanding_q`. -/
  outstanding : Bool

namespace Trvk

/-- The filter out of reset. -/
def init : Trvk := ⟨StreamFork.init, PrimFifoSync.init, PrimFifoSync.init, 0, false, false⟩

variable (s : Trvk) (i : TrvkIn)

/-- `downstream_rsp_out`. -/
def rspOut : DsRsp := s.rsp.rdata true i.dsRvalid i.dsRsp

/-- `downstream_rsp_out_valid`. -/
def rspOutValid : Bool := s.rsp.rvalid true i.dsRvalid

/-- The ready inputs of the fork: `{align_fork_ready, downstream_gnt_i}`. -/
def forkReady : Fin 2 → Bool := ![i.dsGnt, s.align.wready]

/-- `downstream_req_o`. -/
def dsReq : Bool := s.fork.validO i.up.req 0

/-- `align_fork_valid`. -/
def alignForkValid : Bool := s.fork.validO i.up.req 1

/-- `upstream_gnt_o`. -/
def upGnt : Bool := s.fork.readyO i.up.req (s.forkReady i)

/-- `misalign_flag_out`. -/
def misalign : Bool := s.align.rdata false (s.alignForkValid i) (i.up.addr.getLsbD 2)

/-- `misalign_flag_out_valid`. -/
def misalignValid : Bool := s.align.rvalid false (s.alignForkValid i)

/-- `revbm_req_required`: the second word of a tagged capability that may be revoked. -/
def revbmReqRequired : Bool :=
  !isSealingCap (capMeta (s.rspOut i).data).cperms && s.ptrValid && (s.rspOut i).tag &&
    s.rspOutValid i && s.misalign i && s.misalignValid i &&
    !revbmOutOfRange s.ptr (s.rspOut i).data

/-- `revbm_req_o`. -/
def revbmReq : Bool := s.revbmReqRequired i && !s.outstanding

/-- `revbm_addr_o`. -/
def revbmAddrO : Word := revbmAddr s.ptr (s.rspOut i).data

/-- `revbm_revoked`; without memory ECC there is no integrity error. -/
def revbmRevoked : Bool :=
  i.revbmRdata.getLsbD (revbmBitSelect s.ptr (s.rspOut i).data).toNat || i.revbmErr

/-- The streams joined into the upstream response: `{revbm_rvalid_i, downstream_rsp_out_valid}`. -/
def joinValid : Fin 2 → Bool := ![s.rspOutValid i, i.revbmRvalid]

/-- The selection of the join: `{revbm_req_required, 1'b1}`. -/
def joinSel : Fin 2 → Bool := ![true, s.revbmReqRequired i]

/-- `upstream_rvalid_o`. -/
def upRvalid : Bool := streamJoinDynamic (s.joinValid i) (s.joinSel i)

/-- `downstream_rsp_out_ready`. -/
def rspOutReady : Bool := streamJoinReady (s.joinValid i) (s.joinSel i) true 0

/-- `revbm_rsp_ready`. -/
def revbmRspReady : Bool := streamJoinReady (s.joinValid i) (s.joinSel i) true 1

/-- `upstream_tag_o`. -/
def upTag : Bool := (if i.revbmRvalid then !s.revbmRevoked i else true) && (s.rspOut i).tag

/-- The response delivered upstream: data, integrity bits and error of the memory, filtered tag. -/
def upRsp : DsRsp := { s.rspOut i with tag := s.upTag i }

/-- `revbm_device_error_o`. -/
def revbmDeviceError : Bool := i.revbmRvalid && i.revbmErr

/-- `ptr_storage_enable`: the first word of a tagged capability. -/
def ptrStorageEnable : Bool := (s.rspOut i).tag && !s.misalign i && s.misalignValid i

/-- One clock edge. -/
def step : Trvk where
  fork := s.fork.next i.up.req (s.forkReady i)
  align := s.align.next false (s.alignForkValid i) (i.up.addr.getLsbD 2) (s.upRvalid i)
  rsp := s.rsp.next true i.dsRvalid i.dsRsp (s.rspOutReady i)
  ptr := if s.upRvalid i && s.ptrStorageEnable i then (s.rspOut i).data else s.ptr
  ptrValid := if s.upRvalid i then s.ptrStorageEnable i else s.ptrValid
  outstanding :=
    if i.revbmRvalid && s.revbmRspReady i then false
    else if s.revbmReq i && i.revbmGnt then true
    else s.outstanding

/-- The filter as a clocked machine. -/
def machine : Machine Trvk TrvkIn := ⟨init, step⟩

variable {s i}

theorem upRvalid_eq :
    s.upRvalid i = (s.rspOutValid i && (i.revbmRvalid || !s.revbmReqRequired i)) := by
  simp [upRvalid, streamJoinDynamic, Fin.forall_fin_two, Fin.exists_fin_two, joinValid, joinSel]

theorem rspOutReady_eq : s.rspOutReady i = s.upRvalid i := by
  simp [rspOutReady, streamJoinReady, upRvalid, joinSel]

theorem revbmRspReady_eq : s.revbmRspReady i = (s.upRvalid i && s.revbmReqRequired i) := by
  simp [revbmRspReady, streamJoinReady, upRvalid, joinSel]

/-! ### The response does not depend on the request -/

theorem misalign_congr (s : Trvk) (i j : TrvkIn) :
    s.misalign i = s.misalign j ∧ s.misalignValid i = s.misalignValid j := by
  rw [misalignValid, misalignValid, PrimFifoSync.rvalid_noPass, PrimFifoSync.rvalid_noPass]
  cases hi : s.align.store.items <;> simp [misalign, PrimFifoSync.rdata, PrimFifoSync.empty, hi]

/-- Two cycles that differ in the request and in its grant only. -/
structure SameRsp (i j : TrvkIn) : Prop where
  /-- The memory answers alike. -/
  ds : i.dsRvalid = j.dsRvalid ∧ i.dsRsp = j.dsRsp
  /-- The bitmap answers alike. -/
  revbm : i.revbmRvalid = j.revbmRvalid ∧ i.revbmRdata = j.revbmRdata ∧ i.revbmErr = j.revbmErr

theorem SameRsp.upRvalid {i j : TrvkIn} (h : SameRsp i j) (s : Trvk) :
    s.upRvalid i = s.upRvalid j := by
  obtain ⟨hmis, hvalid⟩ := s.misalign_congr i j
  simp only [upRvalid_eq, revbmReqRequired, rspOut, rspOutValid, hmis, hvalid, h.ds.1, h.ds.2,
    h.revbm.1]

theorem SameRsp.upRsp {i j : TrvkIn} (h : SameRsp i j) (s : Trvk) : s.upRsp i = s.upRsp j := by
  simp only [Trvk.upRsp, upTag, revbmRevoked, rspOut, h.ds.1, h.ds.2, h.revbm.1, h.revbm.2.1,
    h.revbm.2.2]

/-! ### Waiting for the bitmap -/

variable (s) in
/-- The filter waits for the bitmap and nothing else: the second word of a revocable capability is
at the head of the response store, with its alignment and its first word beside it. -/
structure Pending : Prop where
  /-- The response store is out of reset. -/
  out : s.rsp.underRst = false
  /-- The response is held, not passing through. -/
  held : ∃ r, s.rsp.store.items.head? = some r ∧ r.tag = true ∧ revocable s.ptr r.data = true
  /-- It is a second word. -/
  second : s.align.store.items.head? = some true
  /-- The first word is latched. -/
  first : s.ptrValid = true

theorem misalign_of_head {b : Bool} (h : s.align.store.items.head? = some b) :
    s.misalign i = b ∧ s.misalignValid i = true := by
  refine ⟨PrimFifoSync.rdata_noPass h, ?_⟩
  rw [misalignValid, PrimFifoSync.rvalid_noPass]
  cases hi : s.align.store.items with
  | nil => simp [hi] at h
  | cons a l => rfl

theorem rspOut_of_head {r : DsRsp} (hout : s.rsp.underRst = false)
    (h : (s.rsp.visible i.dsRvalid i.dsRsp).head? = some r) :
    s.rspOut i = r ∧ s.rspOutValid i = true := by
  refine ⟨PrimFifoSync.rdata_pass (by norm_num) hout h, ?_⟩
  rw [rspOutValid, PrimFifoSync.rvalid_pass_iff (by norm_num) hout i.dsRsp]
  intro hnil
  simp [hnil] at h

/-- A waiting filter requires its lookup in every cycle, whatever the inputs. -/
theorem Pending.revbmReqRequired (h : s.Pending) (i : TrvkIn) : s.revbmReqRequired i = true := by
  obtain ⟨r, hr, htag, hrev⟩ := h.held
  have hout := h.out
  have hptr := h.first
  have halign := h.second
  obtain ⟨hrsp, hvalid⟩ := rspOut_of_head (i := i) hout (PrimFifoSync.head?_visible hr)
  obtain ⟨hmis, hmisValid⟩ := misalign_of_head (i := i) halign
  simp only [revocable, Bool.and_eq_true] at hrev
  simp [Trvk.revbmReqRequired, hrsp, hvalid, hmis, hmisValid, hptr, htag, hrev]

theorem rspOutValid_of_revbmReqRequired (h : s.revbmReqRequired i = true) :
    s.rspOutValid i = true := by
  simp only [Trvk.revbmReqRequired, Bool.and_eq_true] at h
  exact h.1.1.1.2

theorem upRvalid_of_unanswered (hreq : s.revbmReqRequired i = true) (hno : i.revbmRvalid = false) :
    s.upRvalid i = false := by
  simp [upRvalid_eq, hreq, hno]

/-- A response that is not delivered stays at the head of the response store. -/
theorem head?_rsp_step (hvalid : s.rspOutValid i = true) (hup : s.upRvalid i = false) :
    (s.step i).rsp.store.items.head? = some (s.rspOut i) := by
  have hrst : s.rsp.underRst = false := by
    have hv := hvalid
    simp only [rspOutValid, PrimFifoSync.rvalid, Bool.true_and, Bool.and_eq_true,
      Bool.not_eq_true'] at hv
    exact hv.2
  have hvis := (PrimFifoSync.rvalid_pass_iff (by norm_num) hrst i.dsRsp).mp hvalid
  obtain ⟨r, l, hrl⟩ := List.exists_cons_of_ne_nil hvis
  have hhead : (s.rsp.visible i.dsRvalid i.dsRsp).head? = some r := by simp [hrl]
  have hnext : (s.step i).rsp.store.items = s.rsp.visible i.dsRvalid i.dsRsp := by
    simp only [step, rspOutReady_eq, hup]
    exact PrimFifoSync.items_next_of_not_rready
  rw [hnext, hhead, (rspOut_of_head hrst hhead).1]

/-- A lookup that is required and not answered in a cycle leaves the filter waiting. -/
theorem pending_step (hreq : s.revbmReqRequired i = true) (hno : i.revbmRvalid = false) :
    (s.step i).Pending := by
  have hup := upRvalid_of_unanswered hreq hno
  have hhead := head?_rsp_step (rspOutValid_of_revbmReqRequired hreq) hup
  simp only [Trvk.revbmReqRequired, Bool.and_eq_true, Bool.not_eq_true'] at hreq
  obtain ⟨⟨⟨⟨⟨⟨hseal, hptr⟩, htag⟩, -⟩, hmis⟩, hmisValid⟩, hrange⟩ := hreq
  refine ⟨rfl, ⟨s.rspOut i, hhead, htag, ?_⟩, ?_, ?_⟩
  · have hp : (s.step i).ptr = s.ptr := by simp [step, hup]
    rw [hp, revocable, hseal, hrange]
    rfl
  · -- the alignment store keeps its head while nothing is delivered
    have hne : s.align.store.items ≠ [] := by
      intro hnil
      simp [misalignValid, PrimFifoSync.rvalid_noPass, hnil] at hmisValid
    obtain ⟨b, l', hbl⟩ := List.exists_cons_of_ne_nil hne
    have hb : b = true := by
      rw [← (misalign_of_head (i := i) (s := s) (b := b) (by simp [hbl])).1]
      exact hmis
    have hnext : (s.step i).align.store.items =
        s.align.visible (s.alignForkValid i) (i.up.addr.getLsbD 2) := by
      simp only [step, hup]
      exact PrimFifoSync.items_next_of_not_rready
    rw [hnext]
    exact PrimFifoSync.head?_visible (by simp [hbl, hb])
  · simp [step, hup, hptr]

/-- While a lookup is not answered, its address stays on the port. -/
theorem revbmAddrO_step (hreq : s.revbmReqRequired i = true) (hno : i.revbmRvalid = false)
    (j : TrvkIn) : (s.step i).revbmAddrO j = s.revbmAddrO i := by
  have hup := upRvalid_of_unanswered hreq hno
  have hhead := head?_rsp_step (rspOutValid_of_revbmReqRequired hreq) hup
  have hptr : (s.step i).ptr = s.ptr := by simp [step, hup]
  have hrsp : (s.step i).rspOut j = s.rspOut i :=
    (rspOut_of_head rfl (PrimFifoSync.head?_visible hhead)).1
  rw [revbmAddrO, revbmAddrO, hptr, hrsp]

/-- A lookup is outstanding after an edge only if the cycle brings no answer, and then the lookup is
outstanding already or requested and granted in the cycle. -/
theorem outstanding_step (hp : s.outstanding = true → s.Pending)
    (hs : i.revbmRvalid = true → s.outstanding = true) (ho : (s.step i).outstanding = true) :
    i.revbmRvalid = false ∧ s.revbmReqRequired i = true ∧
      (s.outstanding = true ∨ s.revbmReq i = true ∧ i.revbmGnt = true) := by
  cases hv : i.revbmRvalid with
  | true =>
    -- the answer is taken, so nothing is outstanding after the edge
    have hreq := (hp (hs hv)).revbmReqRequired i
    have hready : s.revbmRspReady i = true := by
      rw [revbmRspReady_eq, upRvalid_eq, hreq, rspOutValid_of_revbmReqRequired hreq, hv]
      rfl
    simp [step, hv, hready] at ho
  | false =>
    cases hs' : s.outstanding with
    | true => exact ⟨rfl, (hp hs').revbmReqRequired i, .inl rfl⟩
    | false =>
      have hreq : s.revbmReq i = true ∧ i.revbmGnt = true := by simpa [step, hv, hs'] using ho
      have hrequired := hreq.1
      rw [revbmReq, Bool.and_eq_true] at hrequired
      exact ⟨rfl, hrequired.1, .inr hreq⟩

/-- While every bitmap response is asked for, an outstanding lookup is one the filter waits for. -/
theorem pending_of_outstanding_step (hp : s.outstanding = true → s.Pending)
    (hs : i.revbmRvalid = true → s.outstanding = true) (ho : (s.step i).outstanding = true) :
    (s.step i).Pending := by
  obtain ⟨hno, hreq, -⟩ := outstanding_step hp hs ho
  exact pending_step hreq hno

end Trvk

end Revocation

end Croc
