import Croc.Cheriot.AccessChecks
import Croc.Lib.ByteMemory
import Croc.Lsu.Protocol

/-!
# The stack high-water mark

`mshwm` records how far down the stack has been written since it was set: every store whose granule
of 16 bytes lies below the mark, and not below the base `mshwmb`, moves the mark to that granule.
The update looks at the address that the core gives to the load/store unit, in the same cycle.

A store that is split in two is recorded in two steps, because the core forms the address of the
second half while the unit asks for it. A store that fails its check is not recorded, and is not
sent either.

## Main definitions

* `granule`: the first address of the granule of 16 bytes around an address.
* `StackMark`, `StackMark.step`: the pipeline with the two registers.
* `StackMark.stores`: the bytes that the unit asks to write in a cycle.

## Main results

* `StackMark.mshwm_of_csrWrite`, `StackMark.mark_le_of_stores`, `StackMark.stores_of_mark_ne`: one
  cycle.
* `StackMark.mark_origin`: the mark is what was written to it, or the granule of a store since then.
* `StackMark.mark_sound`: from the last writes to the two registers on, no store goes unrecorded and
  nothing but a store moves the mark.
-/

namespace Croc

namespace Lsu

open Cheriot Revocation Clocked

open Bits (Word)

/-! ### Granules -/

/-- The first address of the granule of 16 bytes around an address. -/
def granule (a : Word) : Word := a.extractLsb' 4 28 ++ 0#4

theorem toNat_granule (a : Word) : (granule a).toNat = a.toNat / 16 * 16 :=
  Bits.toNat_extractLsb'_append_zero a rfl

@[simp]
theorem granule_granule (a : Word) : granule (granule a) = granule a := by
  apply BitVec.eq_of_toNat_eq
  rw [toNat_granule, toNat_granule]
  omega

theorem granule_le_granule {a b : Word} :
    granule a ≤ granule b ↔ a.extractLsb' 4 28 ≤ b.extractLsb' 4 28 := by
  have ha := a.isLt
  have hb := b.isLt
  rw [BitVec.le_def, BitVec.le_def, toNat_granule, toNat_granule, BitVec.extractLsb'_toNat,
    BitVec.extractLsb'_toNat, Nat.shiftRight_eq_div_pow, Nat.shiftRight_eq_div_pow]
  omega

/-- The bytes of a word lie in one granule. -/
theorem granule_dataAddr (q : Request) (k : Fin 4) :
    granule (LoadStoreUnit.dataAddrWAligned q + BitVec.ofNat 32 k) = granule q.addr := by
  have hk := k.isLt
  have hlt := q.addr.isLt
  have hword : (LoadStoreUnit.dataAddrWAligned q).toNat = q.addr.toNat / 4 * 4 :=
    ByteMemory.toNat_wordOf q.addr
  apply BitVec.eq_of_toNat_eq
  rw [toNat_granule, toNat_granule, BitVec.toNat_add, hword, BitVec.toNat_ofNat]
  omega

/-! ### The registers -/

/-- A CSR instruction that writes one of the registers. -/
inductive CsrWrite
  | mshwm (wdata : Word)
  | mshwmb (wdata : Word)
  deriving DecidableEq, Repr

/-- The pipeline with the two registers. -/
structure StackMark where
  /-- The pipeline. -/
  pipe : MemPipe
  /-- `mshwm_q`. -/
  mshwm : Word
  /-- `mshwmb_q`. -/
  mshwmb : Word

/-- The inputs of a cycle. -/
structure MarkIn where
  /-- The inputs of the pipeline. -/
  pipe : PipeIn
  /-- The CSR instruction that ID/EX would execute, if there is no load or store there. -/
  csr : Option CsrWrite

namespace StackMark

/-- The registers out of reset. -/
def init : StackMark := ⟨.init, 0, 0⟩

variable (s : StackMark) (i : MarkIn)

/-- The inputs of the load/store unit. -/
def request : Request := s.pipe.request i.pipe

/-- `csr_mshwm_set_o`. -/
def csrMshwmSet : Bool :=
  let q := s.request i
  q.req && !q.cheriotErr && q.we &&
    decide (s.mshwmb.extractLsb' 4 28 ≤ q.addr.extractLsb' 4 28) &&
    decide (q.addr.extractLsb' 4 28 < s.mshwm.extractLsb' 4 28)

/-- The write of a CSR instruction, which takes effect in CHERIoT mode only. -/
def csrWrite : Option CsrWrite :=
  if s.pipe.current i.pipe = none ∧ s.pipe.executing i.pipe = true ∧ s.pipe.enable = true then i.csr
  else none

/-- One clock edge. -/
def step : StackMark where
  pipe := s.pipe.step i.pipe
  mshwm :=
    if s.csrMshwmSet i then granule (s.request i).addr
    else match s.csrWrite i with
      | some (.mshwm w) => granule w
      | _ => s.mshwm
  mshwmb :=
    match s.csrWrite i with
    | some (.mshwmb w) => granule w
    | _ => s.mshwmb

/-- The registers as a machine. -/
def machine : Machine StackMark MarkIn := ⟨init, step⟩

/-- The load/store unit asks to write the byte at address `a`. -/
def stores (a : Word) : Prop :=
  (s.pipe.up i.pipe).req = true ∧ (s.pipe.up i.pipe).we = true ∧
    ∃ k : Fin 4, (s.pipe.up i.pipe).be.getLsbD k = true ∧
      a = (s.pipe.up i.pipe).addr + BitVec.ofNat 32 k

end StackMark

/-! ### A checked instruction -/

/-- An instruction that passes its check passes it for both of its accesses. -/
theorem Access.cheriotErr_of_first {a : Access} {enable : Bool} {x x' incr : Bool} {l l' : Word}
    (h : (a.request enable x false l).cheriotErr = false) :
    (a.request enable x' incr l').cheriotErr = false := by
  cases a with
  | cap c => exact h
  | rv32 a =>
    cases incr with
    | false => exact h
    | true => exact rv32LsuErr_incr h

/-- The address and direction of an access do not depend on the mode. -/
theorem Access.request_congr (a : Access) (e e' x x' incr : Bool) (l : Word) :
    (a.request e x incr l).addr = (a.request e' x' incr l).addr ∧
      (a.request e x incr l).we = (a.request e' x' incr l).we := by
  cases a <;> exact ⟨rfl, rfl⟩

namespace MemPipe

variable {s : MemPipe} {i : PipeIn}

variable (s) in
/-- The instruction that the unit works on has passed its check. -/
def Checked : Prop :=
  s.lsu.fsm ≠ .idle → ∀ a, s.held = some a → ∀ x l,
    (a.request s.enable x false l).cheriotErr = false

/-- While the unit is busy, the instruction in ID/EX keeps asking. -/
theorem Inv.held_of_busy (hs : s.Inv) (h : s.lsu.fsm ≠ .idle) :
    ∃ a, s.held = some a ∧ (s.request i).req = true := by
  rcases hs.busy h with ⟨a, ha, -⟩ | ⟨c, hc, -⟩
  · exact ⟨_, ha, hs.req_of_busy h⟩
  · exact ⟨_, hc, hs.req_of_busy h⟩

/-- What goes out on the data port is asked for by the core and has passed its check. -/
theorem Checked.of_up (hs : s.Inv) (hc : s.Checked) (hen : s.enable = true)
    (hup : (s.up i).req = true) : (s.request i).req = true ∧ (s.request i).cheriotErr = false := by
  by_cases h : s.lsu.fsm = .idle
  · rw [req_up, LoadStoreUnit.sends, h, hen] at hup
    simpa [Request.cpuReqValid] using hup
  · obtain ⟨a, ha, hreq⟩ := hs.held_of_busy (i := i) h
    refine ⟨hreq, ?_⟩
    rw [request_of_current ((current_of_busy h).trans ha)]
    exact Access.cheriotErr_of_first (hc h a ha true 0)

theorem Checked.step (hc : s.Checked) (hen : s.enable = true) (i : PipeIn) :
    (s.step i).Checked := by
  intro hbusy a ha x l
  have hcur : s.current i = some a := ha
  rw [(enable_step_of hen).trans hen.symm]
  by_cases h : s.lsu.fsm = .idle
  · have hns : (s.lsu.ctl s.enable (s.request i) i.bus).ns ≠ .idle := hbusy
    have herr := (LoadStoreUnit.req_of_ctl_idle h hns).2 hen
    have hincr : s.lsu.addrIncrReq s.enable = false := by rw [LoadStoreUnit.addrIncrReq, h]
    rw [request_of_current hcur, hincr] at herr
    exact Access.cheriotErr_of_first herr
  · rw [current_of_busy h] at hcur
    exact hc h a hcur x l

variable (s) in
/-- Both requests have been granted, and the unit waits for a response before it lets the
instruction go. -/
def Sent : Prop := s.lsu.fsm = .waitRvalidMisGntsDone ∨ s.lsu.fsm = .ctxWaitResp

/-- While the unit is busy and has not sent everything, a request is out. -/
theorem Inv.up_of_busy (hs : s.Inv) (h : s.lsu.fsm ≠ .idle) (hsent : ¬s.Sent) :
    (s.up i).req = true := by
  rw [req_up, LoadStoreUnit.sends]
  rcases hs.busy h with ⟨-, -, hfsm | hfsm | hfsm | hfsm, -⟩ | ⟨-, -, -, hen, hfsm | hfsm | hfsm⟩
  · rw [hfsm]
  · rw [hfsm]
  · rw [hfsm]
  · exact absurd (.inl hfsm) hsent
  · rw [hfsm]
    exact hen
  · rw [hfsm]
    exact hen
  · exact absurd (.inr hfsm) hsent

/-- Some byte is always enabled. -/
theorem Inv.exists_be (hs : s.Inv) (i : PipeIn) :
    ∃ k : Fin 4, (s.up i).be.getLsbD k = true := by
  show ∃ k : Fin 4, ((s.request i).dataBe s.enable s.lsu.handleMisaligned).getLsbD k = true
  rw [Request.dataBe]
  split_ifs with hcap
  · exact ⟨0, by decide⟩
  refine exists_byteEnable fun hty hmis => ?_
  -- a second half is requested in two states, and for a split access
  obtain ⟨a, ha, hsp, hlast, hincr⟩ : ∃ a, s.held = some (.rv32 a) ∧ (Access.rv32 a).Splits ∧
      s.lsu.addrLast = a.addr ∧ s.lsu.addrIncrReq s.enable = true := by
    have hw := hs.working
    cases hfsm : s.lsu.fsm <;> simp only [Working, hfsm, hmis] at hw
    case waitRvalidMis =>
      obtain ⟨a, ha, hsp, -, hlast⟩ := hw
      exact ⟨a, ha, hsp, hlast, by rw [LoadStoreUnit.addrIncrReq, hfsm]⟩
    case waitGnt =>
      obtain ⟨a, ha, hsecond⟩ := hw
      obtain ⟨hsp, hlast⟩ := hsecond trivial
      exact ⟨a, ha, hsp, hlast, by rw [LoadStoreUnit.addrIncrReq, hfsm]; exact hmis⟩
    all_goals simp at hw
  have hbusy : s.lsu.fsm ≠ .idle := by
    intro hidle
    rw [LoadStoreUnit.addrIncrReq, hidle] at hincr
    cases hincr
  have hq := request_of_current ((current_of_busy (i := i) hbusy).trans ha)
  rw [Request.dataOffset, if_neg hcap, hq, hincr, hlast]
  rw [hq] at hty
  -- the offset of the second half is that of the first
  have hlane : (a.addr + 4).extractLsb' 0 2 = a.addr.extractLsb' 0 2 :=
    BitVec.eq_of_toNat_eq (ByteMemory.lane_add_four a.addr)
  show (a.addr + 4).extractLsb' 0 2 ≠ 0
  rw [hlane]
  rcases hsp with ⟨-, hoff⟩ | ⟨hhalf, -⟩
  · exact hoff
  · have hword : a.lsuType = 0 := hty
    rw [hword] at hhalf
    exact absurd hhalf (by decide)

/-- When both requests have been sent, the core still shows the address of the second. -/
theorem Inv.request_of_sent (hs : s.Inv) (hsent : (s.step i).Sent) (j : PipeIn) :
    s.lsu.fsm ≠ .idle ∧ ((s.step i).request j).addr = (s.request i).addr ∧
      ((s.step i).request j).we = (s.request i).we := by
  obtain ⟨hbusy, hincr, hupd, hcap⟩ := LoadStoreUnit.ctl_ns_sent
    (s := s.lsu) (q := s.request i) (b := i.bus) hsent
  have hbusy' : (s.step i).lsu.fsm ≠ .idle := by
    rcases hsent with h | h <;> rw [h] <;> decide
  have hincr' : (s.step i).lsu.addrIncrReq (s.step i).enable = true := by
    rcases hsent with h | h
    · rw [LoadStoreUnit.addrIncrReq, h]
    · rw [LoadStoreUnit.addrIncrReq, h]
      exact enable_step_of (hcap h)
  have hlast := addrLast_step_of_not_update hupd
  obtain ⟨a, ha, -⟩ := hs.held_of_busy (i := i) hbusy
  have hcur : s.current i = some a := (current_of_busy hbusy).trans ha
  have hcur' : (s.step i).current j = some a := (current_of_busy hbusy').trans hcur
  rw [request_of_current hcur', request_of_current hcur, hincr', hincr, hlast]
  exact ⟨hbusy, Access.request_congr ..⟩

end MemPipe

/-! ### One cycle -/

namespace StackMark

variable {s : StackMark} {i : MarkIn}

variable (s) in
/-- The invariant while CHERIoT mode is on and every instruction has been checked since it
started. -/
structure Inv : Prop where
  /-- The unit works on the instruction in ID/EX. -/
  pipe : s.pipe.Inv
  /-- CHERIoT mode is on. -/
  enable : s.pipe.enable = true
  /-- The instruction has passed its check. -/
  checked : s.pipe.Checked
  /-- The mark is the address of a granule. -/
  mshwm : s.mshwm = granule s.mshwm
  /-- The base is the address of a granule. -/
  mshwmb : s.mshwmb = granule s.mshwmb
  /-- A store that the core still shows after it has been sent is recorded. -/
  recorded : s.pipe.Sent → ∀ i, (s.request i).we = true → s.mshwmb ≤ granule (s.request i).addr →
    s.mshwm ≤ granule (s.request i).addr

theorem Inv.csrMshwmSet_iff (hs : s.Inv) : s.csrMshwmSet i = true ↔
    (s.request i).req = true ∧ (s.request i).cheriotErr = false ∧ (s.request i).we = true ∧
      s.mshwmb ≤ granule (s.request i).addr ∧ granule (s.request i).addr < s.mshwm := by
  have hb : s.mshwmb ≤ granule (s.request i).addr ↔
      s.mshwmb.extractLsb' 4 28 ≤ (s.request i).addr.extractLsb' 4 28 := by
    rw [← granule_le_granule, ← hs.mshwmb]
  have hm : granule (s.request i).addr < s.mshwm ↔
      (s.request i).addr.extractLsb' 4 28 < s.mshwm.extractLsb' 4 28 := by
    rw [← BitVec.not_le, ← BitVec.not_le, ← granule_le_granule, ← hs.mshwm]
  simp only [csrMshwmSet, Bool.and_eq_true, Bool.not_eq_true', decide_eq_true_eq, hb, hm, and_assoc]

theorem mshwm_step (hcsr : ∀ w, s.csrWrite i ≠ some (.mshwm w)) :
    (s.step i).mshwm = if s.csrMshwmSet i then granule (s.request i).addr else s.mshwm := by
  rw [step]
  rcases hw : s.csrWrite i with _ | w | w
  · rfl
  · exact absurd hw (hcsr w)
  · rfl

theorem mshwmb_step (hcsr : ∀ w, s.csrWrite i ≠ some (.mshwmb w)) :
    (s.step i).mshwmb = s.mshwmb := by
  rw [step]
  rcases hw : s.csrWrite i with _ | w | w
  · rfl
  · rfl
  · exact absurd hw (hcsr w)

/-- A CSR instruction takes effect only if there is no load or store in ID/EX. -/
theorem current_of_csrWrite {w : CsrWrite} (hw : s.csrWrite i = some w) :
    s.pipe.current i.pipe = none ∧ s.pipe.enable = true := by
  rw [csrWrite] at hw
  split_ifs at hw with h
  exact ⟨h.1, h.2.2⟩

/-- **A write sets the mark.** No store can come in its way. -/
theorem mshwm_of_csrWrite {M : Word} (hw : s.csrWrite i = some (.mshwm M)) :
    (s.step i).mshwm = granule M := by
  have hreq : (s.request i).req = false := by
    rw [request, MemPipe.request, (current_of_csrWrite hw).1]
    rfl
  have hset : s.csrMshwmSet i = false := by
    rw [csrMshwmSet, hreq]
    rfl
  rw [step, hset, hw]
  rfl

theorem mshwmb_of_csrWrite {B : Word} (hw : s.csrWrite i = some (.mshwmb B)) :
    (s.step i).mshwmb = granule B := by
  rw [step, hw]

/-- The mark only moves down. -/
theorem Inv.mshwm_step_le (hs : s.Inv) (hcsr : ∀ w, s.csrWrite i ≠ some (.mshwm w)) :
    (s.step i).mshwm ≤ s.mshwm := by
  rw [mshwm_step hcsr]
  split_ifs with hset
  · exact BitVec.le_of_lt (hs.csrMshwmSet_iff.mp hset).2.2.2.2
  · exact BitVec.le_refl _

/-- What the core shows of a checked store is recorded. -/
theorem Inv.mark_le_of_request (hs : s.Inv) (hcsr : ∀ w, s.csrWrite i ≠ some (.mshwm w))
    (hreq : (s.request i).req = true) (herr : (s.request i).cheriotErr = false)
    (hwe : (s.request i).we = true) (hb : s.mshwmb ≤ granule (s.request i).addr) :
    (s.step i).mshwm ≤ granule (s.request i).addr := by
  rw [mshwm_step hcsr]
  split_ifs with hset
  · exact BitVec.le_refl _
  · rw [hs.csrMshwmSet_iff] at hset
    rw [← BitVec.not_lt]
    exact fun hlt => hset ⟨hreq, herr, hwe, hb, hlt⟩

/-- **A store is recorded** in the cycle in which it is sent. -/
theorem Inv.mark_le_of_stores (hs : s.Inv) (hcsr : ∀ w, s.csrWrite i ≠ some (.mshwm w)) {a : Word}
    (ha : s.stores i a) (hb : s.mshwmb ≤ granule a) : (s.step i).mshwm ≤ granule a := by
  obtain ⟨hup, hwe, k, -, rfl⟩ := ha
  have hgran : granule ((s.pipe.up i.pipe).addr + BitVec.ofNat 32 k) = granule (s.request i).addr :=
    granule_dataAddr ..
  obtain ⟨hreq, herr⟩ := MemPipe.Checked.of_up hs.pipe hs.checked hs.enable hup
  rw [hgran] at hb ⊢
  exact hs.mark_le_of_request hcsr hreq herr hwe hb

/-- **Only a store moves the mark**, down to its granule. -/
theorem Inv.stores_of_mark_ne (hs : s.Inv) (hcsr : ∀ w, s.csrWrite i ≠ some (.mshwm w))
    (hne : (s.step i).mshwm ≠ s.mshwm) :
    (s.step i).mshwm < s.mshwm ∧ s.mshwmb ≤ (s.step i).mshwm ∧
      ∃ a, s.stores i a ∧ granule a = (s.step i).mshwm := by
  have hset : s.csrMshwmSet i = true := by
    by_contra hset
    rw [mshwm_step hcsr, if_neg hset] at hne
    exact hne rfl
  have hmark : (s.step i).mshwm = granule (s.request i).addr := by
    rw [mshwm_step hcsr, if_pos hset]
  obtain ⟨hreq, herr, hwe, hb, hlt⟩ := hs.csrMshwmSet_iff.mp hset
  have hup : (s.pipe.up i.pipe).req = true := by
    by_cases h : s.pipe.lsu.fsm = .idle
    · have hvalid : (s.request i).cpuReqValid s.pipe.enable = true := by
        simp [Request.cpuReqValid, hreq, herr]
      rw [MemPipe.req_up, LoadStoreUnit.sends, h]
      exact hvalid
    · -- a store that has been sent already is recorded already
      refine hs.pipe.up_of_busy h fun hsent => ?_
      exact BitVec.not_le.mpr hlt (hs.recorded hsent i hwe hb)
  obtain ⟨k, hk⟩ := hs.pipe.exists_be i.pipe
  rw [hmark]
  exact ⟨hlt, hb, _, ⟨hup, hwe, k, hk, rfl⟩, granule_dataAddr ..⟩

/-! ### Whole runs -/

theorem granule_mshwm (s : StackMark) (i : MarkIn) (h : s.mshwm = granule s.mshwm) :
    (s.step i).mshwm = granule (s.step i).mshwm := by
  simp only [step]
  split_ifs
  · rw [granule_granule]
  · split
    · rw [granule_granule]
    · exact h

theorem granule_mshwmb (s : StackMark) (i : MarkIn) (h : s.mshwmb = granule s.mshwmb) :
    (s.step i).mshwmb = granule (s.step i).mshwmb := by
  simp only [step]
  split
  · rw [granule_granule]
  · exact h

theorem enable_step (h : s.pipe.enable = true) (i : MarkIn) : (s.step i).pipe.enable = true := by
  show (s.pipe.enable || i.pipe.enableSet) = true
  rw [h, Bool.true_or]

/-- After a write to one of the registers the invariant holds: there is no load or store in
ID/EX. -/
theorem inv_of_csrWrite (hp : s.pipe.Inv) (hm : s.mshwm = granule s.mshwm)
    (hb : s.mshwmb = granule s.mshwmb) {w : CsrWrite} (hw : s.csrWrite i = some w) :
    (s.step i).Inv := by
  have hfree := current_of_csrWrite hw
  have hidle : (s.step i).pipe.lsu.fsm = .idle := by
    by_contra hbusy
    obtain ⟨a, ha, -⟩ := (hp.step i.pipe).held_of_busy (i := i.pipe) hbusy
    have hcur : s.pipe.current i.pipe = some a := ha
    rw [hfree.1] at hcur
    cases hcur
  exact
    { pipe := hp.step i.pipe
      enable := enable_step hfree.2 i
      checked := fun h => absurd hidle h
      mshwm := granule_mshwm s i hm
      mshwmb := granule_mshwmb s i hb
      recorded := by
        rintro (h | h)
        all_goals
          rw [hidle] at h
          cases h }

/-- A cycle without a write to the registers keeps the invariant. -/
theorem Inv.step_of_quiet (hs : s.Inv) (hcsr : s.csrWrite i = none) : (s.step i).Inv where
  pipe := hs.pipe.step i.pipe
  enable := enable_step hs.enable i
  checked := hs.checked.step hs.enable i.pipe
  mshwm := granule_mshwm s i hs.mshwm
  mshwmb := granule_mshwmb s i hs.mshwmb
  recorded := by
    intro hsent j hwe hb
    obtain ⟨hbusy, haddr, hwe'⟩ := hs.pipe.request_of_sent hsent j.pipe
    obtain ⟨a, ha, hreq⟩ := hs.pipe.held_of_busy (i := i.pipe) hbusy
    have herr : (s.request i).cheriotErr = false := by
      rw [request, MemPipe.request_of_current ((MemPipe.current_of_busy hbusy).trans ha)]
      exact Access.cheriotErr_of_first (hs.checked hbusy a ha true 0)
    rw [request] at hwe hb ⊢
    have haddr' : ((s.step i).pipe.request j.pipe).addr = (s.request i).addr := haddr
    rw [mshwmb_step (by simp [hcsr]), haddr'] at hb
    rw [haddr']
    exact hs.mark_le_of_request (by simp [hcsr]) hreq herr (hwe'.symm.trans hwe) hb

theorem Inv.step (hs : s.Inv) (i : MarkIn) : (s.step i).Inv := by
  cases hcsr : s.csrWrite i with
  | none => exact hs.step_of_quiet hcsr
  | some w => exact inv_of_csrWrite hs.pipe hs.mshwm hs.mshwmb hcsr

section Runs

variable (ins : ℕ → MarkIn)

theorem pipe_stateAt (t : ℕ) : (machine.stateAt ins t).pipe.Inv :=
  Machine.stateAt_inv' (I := fun s : StackMark => s.pipe.Inv) MemPipe.inv_init
    (fun _ i hs => hs.step i.pipe) t

theorem mshwm_stateAt (t : ℕ) :
    (machine.stateAt ins t).mshwm = granule (machine.stateAt ins t).mshwm :=
  Machine.stateAt_inv' (I := fun s : StackMark => s.mshwm = granule s.mshwm) rfl granule_mshwm t

theorem mshwmb_stateAt (t : ℕ) :
    (machine.stateAt ins t).mshwmb = granule (machine.stateAt ins t).mshwmb :=
  Machine.stateAt_inv' (I := fun s : StackMark => s.mshwmb = granule s.mshwmb) rfl granule_mshwmb t

variable {ins} {t₀ t : ℕ}

/-- From the first write to one of the registers on, the invariant holds. -/
theorem inv_stateAt {w : CsrWrite}
    (hw : (machine.stateAt ins t₀).csrWrite (ins t₀) = some w) {u : ℕ} (hu : t₀ < u) :
    (machine.stateAt ins u).Inv := by
  induction u, hu using Nat.le_induction with
  | base =>
    exact inv_of_csrWrite (pipe_stateAt ins t₀) (mshwm_stateAt ins t₀) (mshwmb_stateAt ins t₀) hw
  | succ u hu ih => exact ih.step (ins u)

/-- The base stays while it is not written. -/
theorem mshwmb_stays {u v : ℕ} (huv : u ≤ v)
    (hbase : ∀ c, u ≤ c → c < v → ∀ w,
      (machine.stateAt ins c).csrWrite (ins c) ≠ some (.mshwmb w)) :
    (machine.stateAt ins v).mshwmb = (machine.stateAt ins u).mshwmb := by
  induction v, huv using Nat.le_induction with
  | base => rfl
  | succ v huv ih =>
    rw [Machine.stateAt_succ]
    exact (mshwmb_step (hbase v huv v.lt_succ_self)).trans
      (ih fun c hc hcv => hbase c hc (hcv.trans v.lt_succ_self))

section Marked

variable {M : Word} (hw : (machine.stateAt ins t₀).csrWrite (ins t₀) = some (.mshwm M))
  (hmark : ∀ u, t₀ < u → u < t → ∀ w,
    (machine.stateAt ins u).csrWrite (ins u) ≠ some (.mshwm w))

include hw hmark

/-- While it is not written, the mark only moves down. -/
theorem mshwm_antitone {u v : ℕ} (hu : t₀ < u) (huv : u ≤ v) (hvt : v ≤ t) :
    (machine.stateAt ins v).mshwm ≤ (machine.stateAt ins u).mshwm := by
  induction v, huv using Nat.le_induction with
  | base => exact BitVec.le_refl _
  | succ v huv ih =>
    have hinv := inv_stateAt hw (u := v) (by omega)
    exact BitVec.le_trans (hinv.mshwm_step_le (hmark v (by omega) (by omega))) (ih (by omega))

/-- **Where the mark comes from**: it is what was written to it, or the granule of a byte that has
been written since. -/
theorem mark_origin (ht : t₀ < t) :
    (machine.stateAt ins t).mshwm = granule M ∨
      ∃ u a, t₀ < u ∧ u < t ∧ (machine.stateAt ins u).stores (ins u) a ∧
        granule a = (machine.stateAt ins t).mshwm := by
  induction t, ht using Nat.le_induction with
  | base => exact .inl (mshwm_of_csrWrite hw)
  | succ v hv ih =>
    have hv' : t₀ < v := hv
    by_cases hkeep : (machine.stateAt ins (v + 1)).mshwm = (machine.stateAt ins v).mshwm
    · rw [hkeep]
      rcases ih fun u hu huv => hmark u hu (huv.trans v.lt_succ_self) with h | ⟨u, a, hu, huv, ha⟩
      · exact .inl h
      · exact .inr ⟨u, a, hu, by omega, ha⟩
    · -- the mark moves in this cycle, so a store is being sent
      obtain ⟨-, -, a, ha, hgran⟩ :=
        (inv_stateAt hw hv').stores_of_mark_ne (hmark v hv' v.lt_succ_self) hkeep
      exact .inr ⟨v, a, hv', v.lt_succ_self, ha, hgran⟩

end Marked

/-- **The high-water mark is sound**. Let `mshwm` be written to `M` in cycle `t₀` for the last time
before `t`, and let `mshwmb` not be written after cycle `t₁`, in which it may be set to `B`. Then
the mark starts at the granule of `M` and the base is the granule of `B`. The mark in cycle `t` is
at or below the granule of every byte that the load/store unit asked to write since both writes,
unless that granule lies below the base. Since `t₀` the mark moves only down, to the granule of a
byte that is being written and that lies at or above the base, so that it is the granule of `M` or
of such a byte. -/
theorem mark_sound (ins : ℕ → MarkIn) (t₀ t₁ t : ℕ) (M : Word) (ht₁ : t₀ ≤ t₁) (ht : t₁ < t)
    (hw : (machine.stateAt ins t₀).csrWrite (ins t₀) = some (.mshwm M))
    (hmark : ∀ u, t₀ < u → u < t → ∀ w,
      (machine.stateAt ins u).csrWrite (ins u) ≠ some (.mshwm w))
    (hbase : ∀ u, t₁ < u → u < t → ∀ w,
      (machine.stateAt ins u).csrWrite (ins u) ≠ some (.mshwmb w)) :
    (machine.stateAt ins (t₀ + 1)).mshwm = granule M ∧
    (∀ B, (machine.stateAt ins t₁).csrWrite (ins t₁) = some (.mshwmb B) →
      (machine.stateAt ins t).mshwmb = granule B) ∧
    (∀ u a, t₁ < u → u < t → (machine.stateAt ins u).stores (ins u) a →
      (machine.stateAt ins t).mshwmb ≤ granule a → (machine.stateAt ins t).mshwm ≤ granule a) ∧
    (∀ u, t₀ < u → u < t → (machine.stateAt ins (u + 1)).mshwm ≠ (machine.stateAt ins u).mshwm →
      (machine.stateAt ins (u + 1)).mshwm < (machine.stateAt ins u).mshwm ∧
      (machine.stateAt ins u).mshwmb ≤ (machine.stateAt ins (u + 1)).mshwm ∧
      ∃ a, (machine.stateAt ins u).stores (ins u) a ∧
        granule a = (machine.stateAt ins (u + 1)).mshwm) ∧
    ((machine.stateAt ins t).mshwm = granule M ∨
      ∃ u a, t₀ < u ∧ u < t ∧ (machine.stateAt ins u).stores (ins u) a ∧
        granule a = (machine.stateAt ins t).mshwm) := by
  refine ⟨mshwm_of_csrWrite hw, fun B hB => ?_, fun u a hu hut ha hb => ?_, fun u hu hut hne => ?_,
    mark_origin hw hmark (by omega)⟩
  · rw [mshwmb_stays (u := t₁ + 1) ht fun c hc => hbase c hc, Machine.stateAt_succ]
    exact mshwmb_of_csrWrite hB
  · -- the store is recorded in its cycle, with the base that is still in force in cycle `t`
    have hquiet := hmark u (by omega) hut
    rw [mshwmb_stays hut.le fun c hc => hbase c (by omega)] at hb
    have hrecorded := (inv_stateAt hw (by omega)).mark_le_of_stores hquiet ha hb
    exact BitVec.le_trans
      (mshwm_antitone hw hmark (u := u + 1) (by omega) hut (le_refl t)) hrecorded
  · exact (inv_stateAt hw hu).stores_of_mark_ne (hmark u hu hut) hne

end Runs

/-- CHERIoT mode is turned on, the mark is set to `0x10002000` and the base to `0x10001000`; then a
word is stored to `0x1000110e`, half of it in one granule and half in the next. -/
def splitStore : ℕ → MarkIn
  | 0 => ⟨⟨none, default, true⟩, none⟩
  | 1 => ⟨⟨none, default, false⟩, some (.mshwm 0x10002000)⟩
  | 2 => ⟨⟨none, default, false⟩, some (.mshwmb 0x10001000)⟩
  | 3 => ⟨⟨some (.rv32 ⟨true, 0, false, ⟨0x1000110e, rootCap cpermsTm⟩, 0, 0x12345678, false⟩),
      ⟨true, false, default⟩, false⟩, none⟩
  | 4 => ⟨⟨none, ⟨true, true, default⟩, false⟩, none⟩
  | _ => ⟨⟨none, default, false⟩, none⟩

/-- The mark stands at `0x10002000` until the store, and at the granule of its first half after. -/
theorem mark_sound_splitStore :
    (machine.stateAt splitStore 3).stores (splitStore 3) 0x1000110e ∧
      (machine.stateAt splitStore 4).stores (splitStore 4) 0x10001110 ∧
      (machine.stateAt splitStore 2).mshwm = 0x10002000 ∧
      (machine.stateAt splitStore 3).mshwm = 0x10002000 ∧
      (machine.stateAt splitStore 5).mshwm = 0x10001100 ∧
      (machine.stateAt splitStore 5).mshwmb = 0x10001000 ∧
      (machine.stateAt splitStore 5).mshwm ≤ granule 0x1000110e ∧
      (machine.stateAt splitStore 5).mshwm ≤ granule 0x10001110 := by
  have hw : (machine.stateAt splitStore 1).csrWrite (splitStore 1) = some (.mshwm 0x10002000) := by
    decide
  have hwb : (machine.stateAt splitStore 2).csrWrite (splitStore 2) =
      some (.mshwmb 0x10001000) := by
    decide
  have hquiet : ∀ u, 2 < u → u < 5 →
      (machine.stateAt splitStore u).csrWrite (splitStore u) = none := by
    intro u hu hut
    obtain rfl | rfl : u = 3 ∨ u = 4 := by omega
    · decide
    · decide
  have h3 : (machine.stateAt splitStore 3).stores (splitStore 3) 0x1000110e :=
    ⟨by decide, by decide, 2, by decide, by decide⟩
  have h4 : (machine.stateAt splitStore 4).stores (splitStore 4) 0x10001110 :=
    ⟨by decide, by decide, 0, by decide, by decide⟩
  obtain ⟨hM, hB, hsound, -⟩ := mark_sound splitStore 1 2 5 0x10002000 (by decide) (by decide) hw
    (fun u hu hut w => by
      rcases Nat.eq_or_lt_of_le hu with rfl | hu
      · simp [hwb]
      · simp [hquiet u hu hut])
    (fun u hu hut w => by simp [hquiet u hu hut])
  exact ⟨h3, h4, hM.trans (by decide), by decide, by decide, (hB _ hwb).trans (by decide),
    hsound 3 _ (by decide) (by decide) h3 (by decide),
    hsound 4 _ (by decide) (by decide) h4 (by decide)⟩

end StackMark

end Lsu

end Croc
