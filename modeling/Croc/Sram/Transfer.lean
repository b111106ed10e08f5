import Croc.Lsu.CapAccess
import Croc.Revocation.Exactness
import Croc.Sram.DataPath

/-!
# Capability transfers

A capability load or store on the whole path. Its two words are granted in two cycles, with anything
that the other managers like in between, and the load/store unit stays with the access from the
first grant to the last response. What a bank takes in a cycle is followed to the word it writes, or
to the response it sends and on through the filter to the unit.

## Main definitions

* `DataPath.WritesAt`, `DataPath.cellAt`: the writes to a word, and the word with its tag.
* `DataPath.Beat`, `DataPath.Transfer`: a granted word of a capability access, and the two together.
* `DataPath.InFlight`: the unit waits for a response of the access.

## Main results

* `DataPath.exists_beat_of_tag`: a word becomes tagged by a capability store only.
* `DataPath.Beat.transfer_before`: the first word of an access is followed by its second.
* `DataPath.Beat.exists_transfer`: the second word of an access follows its first.
* `DataPath.arrived_of_gnt`: the response of a bank to any access.
* `DataPath.arrived_of_read`: the response to a read is the word as it is in that cycle.
* `DataPath.Transfer.inFlight`: the unit stays with the access until it is answered.
-/

namespace Croc

namespace Sram

open Cheriot Clocked Lsu Revocation

open Bits (Word)

open ByteMemory (wordOf toNat_wordOf)

/-- A request as a bank sees it. -/
def bankReqOf (r : UpstreamReq) : BankReq := ⟨r.addr, r.we, r.be, r.wdata, r.tag⟩

/-! ### Addresses -/

theorem toNat_wordAddr (addr : Word) : (wordAddr addr).toNat = addr.toNat / 4 % 16384 := by
  rw [wordAddr, BitVec.extractLsb'_toNat, Nat.shiftRight_eq_div_pow]

@[simp] theorem wordAddr_wordOf (addr : Word) : wordAddr (wordOf addr) = wordAddr addr := by
  apply BitVec.eq_of_toNat_eq
  rw [toNat_wordAddr, toNat_wordAddr, toNat_wordOf]
  omega

theorem toNat_add_four {addr : Word} (h : addr.toNat % 8 = 0) :
    (addr + 4).toNat = addr.toNat + 4 := by
  have hlt := addr.isLt
  have hadd : (addr + 4).toNat = (addr.toNat + 4) % 2 ^ 32 := by rw [BitVec.toNat_add]; rfl
  omega

/-- The addresses of a bank. -/
theorem addrDecode_eq_bank_iff {addr : Word} {k : Fin 2} : addrDecode addr = .bank k ↔
    0x10000000 + k * 65536 ≤ addr.toNat ∧ addr.toNat < 0x10000000 + (k + 1) * 65536 := by
  simp only [addrDecode, BitVec.lt_def, BitVec.reduceToNat]
  have hk := k.isLt
  split_ifs <;>
    simp only [XbarSbr.bank.injEq, Fin.ext_iff, false_iff, bank0, bank1] <;> omega

/-- Both words of a granule are in the same bank. -/
theorem addrDecode_add_four {addr : Word} {k : Fin 2} (h : addr.toNat % 8 = 0) :
    addrDecode (addr + 4) = .bank k ↔ addrDecode addr = .bank k := by
  rw [addrDecode_eq_bank_iff, addrDecode_eq_bank_iff, toNat_add_four h]
  omega

/-- The bank and the index give the word back. -/
theorem eq_of_wordAddr {a b : Word} {k : Fin 2} (ha : addrDecode a = .bank k)
    (hb : addrDecode b = .bank k) (hword : wordAddr a = wordAddr b)
    (hmod : a.toNat % 4 = b.toNat % 4) : a = b := by
  rw [addrDecode_eq_bank_iff] at ha hb
  have h := congrArg BitVec.toNat hword
  rw [toNat_wordAddr, toNat_wordAddr] at h
  apply BitVec.eq_of_toNat_eq
  omega

namespace DataPath

variable {boot : Fin 2 → Index → Word} {ins : ℕ → DataPathIn} {t : ℕ} {k : Fin 2}

/-! ### What a bank takes -/

/-- An access of cycle `t` writes word `a` of bank `k`, with any byte enables. -/
def WritesAt (boot : Fin 2 → Index → Word) (ins : ℕ → DataPathIn) (k : Fin 2) (a : Index) (t : ℕ) :
    Prop :=
  SramBank.Writes a (((stateAt boot ins t).access (ins t) k).map Prod.fst)

instance (boot : Fin 2 → Index → Word) (ins : ℕ → DataPathIn) (k : Fin 2) (a : Index) (t : ℕ) :
    Decidable (WritesAt boot ins k a t) :=
  inferInstanceAs (Decidable (SramBank.Writes _ _))

/-- Word `a` of bank `k` and its tag, at the start of cycle `t`. -/
def cellAt (boot : Fin 2 → Index → Word) (ins : ℕ → DataPathIn) (k : Fin 2) (a : Index) (t : ℕ) :
    Word × Bool :=
  (((stateAt boot ins t).banks k).bank.sram a, ((stateAt boot ins t).banks k).bank.tagMem a)

theorem bank_stateAt_succ : ((stateAt boot ins (t + 1)).banks k).bank =
    ((stateAt boot ins t).banks k).bank.step k
      (((stateAt boot ins t).access (ins t) k).map Prod.fst) := by
  rw [stateAt_succ, banks_step]
  rfl

theorem cellAt_succ {a : Index} (h : ¬ WritesAt boot ins k a t) :
    cellAt boot ins k a (t + 1) = cellAt boot ins k a t := by
  have hstep := SramBank.step_of_not_writes (s := ((stateAt boot ins t).banks k).bank) (k := k) h
  rw [cellAt, bank_stateAt_succ, hstep.1, hstep.2]
  rfl

/-- The demultiplexer counts what the load/store unit is granted. -/
theorem cntUp_eq (boot : Fin 2 → Index → Word) (ins : ℕ → DataPathIn) (t : ℕ) :
    (stateAt boot ins t).cntUp (ins t) = (pipeIns boot ins t).bus.gnt := by
  obtain ⟨hgnt, hreq⟩ := (paced boot ins t).upGnt_eq
  rw [hgnt, ← hreq]
  rfl

/-- **A grant of a bank.** The bank takes what the load/store unit requests. -/
theorem access_of_gnt (hg : (pipeIns boot ins t).bus.gnt = true)
    (hsel : addrDecode ((stateAt boot ins t).up (ins t)).addr = .bank k) :
    (stateAt boot ins t).access (ins t) k =
      some (bankReqOf ((stateAt boot ins t).up (ins t)), true) := by
  have hsync := (paced boot ins t).synced k
  have hboth := (coreReq_granted_iff hsync).mpr ⟨(cntUp_eq boot ins t).trans hg, hsel⟩
  rw [Bool.and_eq_true] at hboth
  have hcore : (stateAt boot ins t).coreReq (ins t) k =
      some (bankReqOf ((stateAt boot ins t).up (ins t))) := by
    have hsome := hboth.1
    rw [coreReq] at hsome ⊢
    split_ifs at hsome ⊢
    · rfl
    · cases hsome
  rw [access, Option.isNone_iff_eq_none.mp hboth.2, hsync.selected_none, hcore]
  rfl

/-- **Nobody but the core writes tags.** -/
theorem gnt_of_tag {q : BankReq}
    (h : ((stateAt boot ins t).access (ins t) k).map Prod.fst = some q) (htag : q.tag = true) :
    (pipeIns boot ins t).bus.gnt = true ∧
      addrDecode ((stateAt boot ins t).up (ins t)).addr = .bank k ∧
      q = bankReqOf ((stateAt boot ins t).up (ins t)) := by
  have hsync := (paced boot ins t).synced k
  cases harb : (ins t).arb k with
  | some o =>
    rw [access, harb, hsync.selected_some] at h
    cases h
    cases htag
  | none =>
    cases hcore : (stateAt boot ins t).coreReq (ins t) k with
    | none =>
      rw [access, harb, hsync.selected_none, hcore] at h
      cases h
    | some r =>
      have hboth : (((stateAt boot ins t).coreReq (ins t) k).isSome &&
          ((ins t).arb k).isNone) = true := by rw [hcore, harb]; rfl
      obtain ⟨hup, hsel⟩ := (coreReq_granted_iff hsync).mp hboth
      have hg := (cntUp_eq boot ins t).symm.trans hup
      rw [access_of_gnt hg hsel] at h
      cases h
      exact ⟨hg, hsel, rfl⟩

/-! ### The words of a capability -/

/-- A word of the capability access `c` is granted in cycle `t`. -/
def Beat (boot : Fin 2 → Index → Word) (ins : ℕ → DataPathIn) (t : ℕ) (c : ExIn) (second : Bool) :
    Prop :=
  (stateAt boot ins t).pipe.CapBeat (pipeIns boot ins t) c second

/-- The two words of the capability access `c` are granted in cycles `a` and `b`. -/
structure Transfer (boot : Fin 2 → Index → Word) (ins : ℕ → DataPathIn) (a b : ℕ) (c : ExIn) :
    Prop where
  /-- The first word. -/
  first : Beat boot ins a c false
  /-- The second word. -/
  second : Beat boot ins b c true
  /-- The second word follows the first. -/
  lt : a < b
  /-- In between the load/store unit waits for the second grant. -/
  between : ∀ t, a < t → t ≤ b → (stateAt boot ins t).pipe.lsu.fsm = .ctxWaitGnt2

variable {c : ExIn} {second : Bool}

theorem Beat.up (h : Beat boot ins t c second) :
    (stateAt boot ins t).up (ins t) = capReq c second :=
  up_pipeInputs.symm.trans (MemPipe.CapBeat.up h inv_pipe)

/-- The access to the bank that a word of a capability is. -/
theorem Beat.access (h : Beat boot ins t c second)
    (hsel : addrDecode (capReq c second).addr = .bank k) :
    (stateAt boot ins t).access (ins t) k = some (bankReqOf (capReq c second), true) := by
  rw [← h.up] at hsel ⊢
  exact access_of_gnt h.gnt hsel

/-- **A tagged word was written by a capability store.** -/
theorem exists_beat_of_tag {a : Index} (h : WritesAt boot ins k a t)
    (htag : (cellAt boot ins k a (t + 1)).2 = true) :
    ∃ c second, Beat boot ins t c second ∧ c.op = .cstoreCap ∧ c.cscWcap.valid = true ∧
      addrDecode (capReq c second).addr = .bank k ∧ wordAddr (capReq c second).addr = a := by
  rw [cellAt, bank_stateAt_succ] at htag
  obtain ⟨q, hq, hwe, haddr, hqtag⟩ := SramBank.tag_of_writes h htag
  obtain ⟨hg, hsel, rfl⟩ := gnt_of_tag hq hqtag
  have hup : (stateAt boot ins t).pipe.up (pipeIns boot ins t) = (stateAt boot ins t).up (ins t) :=
    up_pipeInputs
  have hreq : ((stateAt boot ins t).up (ins t)).req = true := by
    have hgnt := (paced boot ins t).upGnt_eq.1
    rw [hg] at hgnt
    exact (Bool.and_eq_true _ _ ▸ hgnt.symm).1
  obtain ⟨c, second, hbeat, hop⟩ := MemPipe.exists_capBeat_of_tag (s := (stateAt boot ins t).pipe)
    (i := pipeIns boot ins t) (hup ▸ hreq) hg (hup ▸ hwe) (hup ▸ hqtag)
  have hreqs : (stateAt boot ins t).up (ins t) = capReq c second := Beat.up hbeat
  rw [hreqs] at hsel haddr hqtag
  refine ⟨c, second, hbeat, hop, ?_, hsel, haddr⟩
  simpa [bankReqOf, capReq, hop] using hqtag

/-- A word of a capability store is in memory in the next cycle, with the tag of the capability. -/
theorem Beat.store (h : Beat boot ins t c second) (hop : c.op = .cstoreCap)
    (hsel : addrDecode (capReq c second).addr = .bank k) :
    WritesAt boot ins k (wordAddr (capReq c second).addr) t ∧
      cellAt boot ins k (wordAddr (capReq c second).addr) (t + 1) =
        ((capReq c second).wdata, c.cscWcap.valid) := by
  have hacc := h.access hsel
  have hwe : (capReq c second).we = true := by simp [capReq, hop]
  have htag : (capReq c second).tag = c.cscWcap.valid := by simp [capReq, hop]
  constructor
  · rw [WritesAt, hacc]
    exact ⟨_, rfl, hwe, rfl⟩
  · have hstep := SramBank.step_of_write (s := ((stateAt boot ins t).banks k).bank) (k := k)
      (q := bankReqOf (capReq c second)) hwe rfl
    rw [cellAt, bank_stateAt_succ, hacc, ← htag]
    exact Prod.ext hstep.1 hstep.2

/-! ### The two words belong together -/

theorem asks (boot : Fin 2 → Index → Word) (ins : ℕ → DataPathIn) (t : ℕ) :
    (stateAt boot ins t).pipe.Asks := by
  have h : (stateAt boot ins t).pipe.Inv ∧ (stateAt boot ins t).pipe.Asks := by
    rw [pipe_stateAt]
    exact MemPipe.machine.stateAt_inv' (I := fun s => s.Inv ∧ s.Asks)
      ⟨MemPipe.inv_init, MemPipe.asks_init⟩ (fun s i hs => ⟨hs.1.step i, hs.2.step hs.1⟩) t
  exact h.2

/-- With its first grant the load/store unit starts to wait for two responses. -/
theorem Beat.started (h : Beat boot ins t c false) :
    (stateAt boot ins (t + 1)).pipe.Remembers c ∧
      (stateAt boot ins (t + 1)).pipe.lsu.fsm = .ctxWaitGnt2 ∧
      (stateAt boot ins (t + 1)).pipe.lsu.capRx = .waitResp1 :=
  MemPipe.CapBeat.first h inv_pipe (asks boot ins t) (paced boot ins t).receiving
    (paced boot ins t).rvalid_outstanding

theorem Beat.fsm_ne (h : Beat boot ins t c false) :
    (stateAt boot ins t).pipe.lsu.fsm ≠ .ctxWaitGnt2 := by
  intro hfsm
  have hf := h.fsm
  rw [hfsm] at hf
  cases hf

theorem Beat.fsm_eq (h : Beat boot ins t c true) :
    (stateAt boot ins t).pipe.lsu.fsm = .ctxWaitGnt2 := by
  simpa using h.fsm

/-- The unit waits for the second grant, for the access that had the first in cycle `a`. -/
structure Halfway (boot : Fin 2 → Index → Word) (ins : ℕ → DataPathIn) (a t : ℕ) (c : ExIn) :
    Prop where
  /-- The first grant. -/
  first : Beat boot ins a c false
  /-- It lies in the past. -/
  lt : a < t
  /-- The instruction is held. -/
  held : (stateAt boot ins t).pipe.held = some (.cap c)
  /-- There was no second grant since. -/
  between : ∀ u, a < u → u ≤ t → (stateAt boot ins u).pipe.lsu.fsm = .ctxWaitGnt2

theorem Beat.halfway (h : Beat boot ins t c false) : Halfway boot ins t (t + 1) c where
  first := h
  lt := t.lt_succ_self
  held := h.current
  between u hu hut := by
    obtain rfl : u = t + 1 := by omega
    exact h.started.2.1

/-- A second grant completes the transfer. -/
theorem Halfway.transfer {a : ℕ} (h : Halfway boot ins a t c)
    (hg : (pipeIns boot ins t).bus.gnt = true) : Transfer boot ins a t c := by
  have hfsm := h.between t h.lt le_rfl
  have hbusy : (stateAt boot ins t).pipe.lsu.fsm ≠ .idle := by simp [hfsm]
  have hinv : (stateAt boot ins t).pipe.Inv := inv_pipe
  obtain ⟨c', hc', hop, hen⟩ := hinv.cap_of_busy (.inr (.inl hfsm))
  cases h.held.symm.trans hc'
  refine ⟨h.first, ⟨?_, hop, hen, ?_, hg, by rw [hfsm]; rfl⟩, h.lt, h.between⟩
  · exact (MemPipe.current_of_busy hbusy).trans h.held
  · rw [MemPipe.req_up, LoadStoreUnit.sends, hfsm]
    exact hen

/-- Without a grant it goes on waiting. -/
theorem Halfway.succ {a : ℕ} (h : Halfway boot ins a t c)
    (hg : (pipeIns boot ins t).bus.gnt = false) : Halfway boot ins a (t + 1) c := by
  have hfsm := h.between t h.lt le_rfl
  have hbusy : (stateAt boot ins t).pipe.lsu.fsm ≠ .idle := by simp [hfsm]
  refine ⟨h.first, h.lt.trans t.lt_succ_self, ?_, fun u hu hut => ?_⟩
  · exact (MemPipe.current_of_busy hbusy).trans h.held
  · rcases Nat.le_succ_iff.mp hut with hut | rfl
    · exact h.between u hu hut
    · have hinv : (stateAt boot ins t).pipe.Inv := inv_pipe
      obtain ⟨-, -, -, hen⟩ := hinv.cap_of_busy (.inr (.inl hfsm))
      rw [pipe_stateAt_succ, MemPipe.fsm_step]
      simp [LoadStoreUnit.ctl, hfsm, hen, hg]

/-- The state is reached only through a first grant. -/
theorem exists_halfway (h : (stateAt boot ins t).pipe.lsu.fsm = .ctxWaitGnt2) :
    ∃ a c, Halfway boot ins a t c := by
  induction t with
  | zero => cases h
  | succ t ih =>
    have hinv : (stateAt boot ins t).pipe.Inv := inv_pipe
    rcases hinv.exists_capBeat h with ⟨c, hbeat⟩ | ⟨hfsm, hg⟩
    · exact ⟨t, c, Beat.halfway hbeat⟩
    · obtain ⟨a, c, hhalf⟩ := ih hfsm
      exact ⟨a, c, hhalf.succ hg⟩

/-- **The second word of an access follows its first.** -/
theorem Beat.exists_transfer (h : Beat boot ins t c true) : ∃ a, Transfer boot ins a t c := by
  obtain ⟨a, c', hhalf⟩ := exists_halfway h.fsm_eq
  have htr := hhalf.transfer h.gnt
  cases h.current.symm.trans htr.second.current
  exact ⟨a, htr⟩

/-- **The first word of an access is followed by its second**, before the unit does anything
else. -/
theorem Beat.transfer_before {a : ℕ} (h : Beat boot ins a c false) (hlt : a < t)
    (hfsm : (stateAt boot ins t).pipe.lsu.fsm ≠ .ctxWaitGnt2) :
    ∃ b, b < t ∧ Transfer boot ins a b c := by
  have hrun : Halfway boot ins a t c ∨ ∃ b, b < t ∧ Transfer boot ins a b c := by
    clear hfsm
    induction t, hlt using Nat.le_induction with
    | base => exact .inl h.halfway
    | succ t _ ih =>
      rcases ih with hhalf | ⟨b, hbt, htr⟩
      · cases hg : (pipeIns boot ins t).bus.gnt with
        | false => exact .inl (hhalf.succ hg)
        | true => exact .inr ⟨t, t.lt_succ_self, hhalf.transfer hg⟩
      · exact .inr ⟨b, hbt.trans t.lt_succ_self, htr⟩
  rcases hrun with hhalf | htr
  · exact absurd (hhalf.between t hhalf.lt le_rfl) hfsm
  · exact htr

/-! ### Responses -/

theorem length_requested_of_gnt (hg : (pipeIns boot ins t).bus.gnt = true) :
    (Trvk.requested (filterIns boot ins) (t + 1)).length =
      (Trvk.requested (filterIns boot ins) t).length + 1 := by
  rw [Trvk.length_requested_succ, ← gnt_pipeIns, hg, Bool.toNat_true]

/-- A granted word is the next request. -/
theorem Beat.requested (h : Beat boot ins t c second) :
    (Trvk.requested (filterIns boot ins) (t + 1))[
      (Trvk.requested (filterIns boot ins) t).length]? = some (capReq c second) := by
  have hup : (filterIns boot ins t).up = capReq c second := h.up
  rw [Trvk.requested_succ, ← gnt_pipeIns, show (pipeIns boot ins t).bus.gnt = true from h.gnt,
    if_pos rfl, List.getElem?_concat_length, hup]

/-- A granted access is in flight in the next cycle, and it is the only one. -/
theorem bank_of_gnt (hg : (pipeIns boot ins t).bus.gnt = true)
    (hsel : addrDecode ((stateAt boot ins t).up (ins t)).addr = .bank k) :
    ((stateAt boot ins (t + 1)).banks k).rvalid = true ∧
      (Trvk.arrived (filterIns boot ins) (t + 1)).length =
        (Trvk.requested (filterIns boot ins) t).length := by
  have hp := paced boot ins (t + 1)
  have hrv : ((stateAt boot ins (t + 1)).banks k).rvalid = true := by
    rw [stateAt_succ, banks_step, ((paced boot ins t).synced k).rvalid_step]
    exact (coreReq_granted_iff ((paced boot ins t).synced k)).mpr
      ⟨(cntUp_eq boot ins t).trans hg, hsel⟩
  obtain ⟨hselect, hne⟩ := (hp.bank_rvalid k).mp hrv
  have hone := hp.bank_one k hselect
  have hflight := hp.flight
  have hreq := length_requested_of_gnt hg
  rw [hp.bridge.forwarded_eq] at hflight
  exact ⟨hrv, by omega⟩

/-- **The response of a bank** comes in the next cycle, with whatever its output registers hold
then. -/
theorem arrived_of_gnt (hg : (pipeIns boot ins t).bus.gnt = true)
    (hsel : addrDecode ((stateAt boot ins t).up (ins t)).addr = .bank k) :
    (Trvk.arrived (filterIns boot ins) (t + 2))[(Trvk.requested (filterIns boot ins) t).length]? =
      some ⟨((stateAt boot ins (t + 1)).banks k).bank.rdata, 0,
        ((stateAt boot ins (t + 1)).banks k).bank.tagRead, false⟩ := by
  have hp := paced boot ins (t + 1)
  obtain ⟨hrv, hlen⟩ := bank_of_gnt hg hsel
  obtain ⟨hselect, hne⟩ := (hp.bank_rvalid k).mp hrv
  have hds : (filterIns boot ins (t + 1)).dsRvalid = true := hp.dsRvalid_of_bank hselect hne
  have hhead : ((stateAt boot ins (t + 1)).banks k).ids.items.headD false = true :=
    (Bool.and_eq_true _ _ ▸ hrv).2
  have hrsp : (filterIns boot ins (t + 1)).dsRsp = (stateAt boot ins (t + 1)).bankRsp k := by
    have hds : (filterIns boot ins (t + 1)).dsRsp =
        (stateAt boot ins (t + 1)).dsRsp (ins (t + 1)) := rfl
    rw [hds, dsRsp, hselect]
  rw [Trvk.arrived_succ, hds, if_pos rfl, ← hlen, List.getElem?_concat_length, hrsp, bankRsp,
    if_pos hhead]

/-- **The response to a read** is the word as it is in the cycle of the grant. -/
theorem arrived_of_read (h : Beat boot ins t c second) (hop : c.op = .cloadCap)
    (hsel : addrDecode (capReq c second).addr = .bank k) :
    (Trvk.arrived (filterIns boot ins) (t + 2))[(Trvk.requested (filterIns boot ins) t).length]? =
      some ⟨(cellAt boot ins k (wordAddr (capReq c second).addr) t).1, 0,
        (cellAt boot ins k (wordAddr (capReq c second).addr) t).2, false⟩ := by
  have hwe : (capReq c second).we = false := by simp [capReq, hop]
  have hread := SramBank.step_of_read (s := ((stateAt boot ins t).banks k).bank) (k := k)
    (q := bankReqOf (capReq c second)) hwe
  have hbank : ((stateAt boot ins (t + 1)).banks k).bank =
      ((stateAt boot ins t).banks k).bank.step k (some (bankReqOf (capReq c second))) := by
    rw [bank_stateAt_succ, h.access hsel]
    rfl
  rw [arrived_of_gnt h.gnt (h.up ▸ hsel), hbank, hread.1, hread.2]
  rfl

/-- The unit waits for a response of the capability access `c` that had its first grant in cycle
`a`. -/
structure InFlight (boot : Fin 2 → Index → Word) (ins : ℕ → DataPathIn) (a t : ℕ) (c : ExIn) :
    Prop where
  /-- The unit remembers the access. -/
  remembers : (stateAt boot ins t).pipe.Remembers c
  /-- It waits for the first response, or for the second. -/
  index : (stateAt boot ins t).pipe.lsu.capRx = .waitResp1 ∧
      (Trvk.delivered (filterIns boot ins) t).length =
        (Trvk.requested (filterIns boot ins) a).length ∨
    (stateAt boot ins t).pipe.lsu.capRx = .waitResp2 ∧
      (Trvk.delivered (filterIns boot ins) t).length =
        (Trvk.requested (filterIns boot ins) a).length + 1 ∧
      ∃ d, (Trvk.delivered (filterIns boot ins) t)[
          (Trvk.requested (filterIns boot ins) a).length]? = some d ∧
        (stateAt boot ins t).pipe.lsu.capLswErr = d.rsp.err ∧
        (c.op ≠ .cstoreCap → (stateAt boot ins t).pipe.lsu.capLswData = d.rsp.data ∧
          (stateAt boot ins t).pipe.lsu.capLswTag = d.rsp.tag)

/-- `lsu_resp_valid_o`. -/
def respValid (boot : Fin 2 → Index → Word) (ins : ℕ → DataPathIn) (t : ℕ) : Bool :=
  (stateAt boot ins t).pipe.lsu.respValid (stateAt boot ins t).pipe.enable (pipeIns boot ins t).bus

/-- `lsu_rdata_o`. -/
def rdata (boot : Fin 2 → Index → Word) (ins : ℕ → DataPathIn) (t : ℕ) : Word :=
  (stateAt boot ins t).pipe.lsu.rdata (stateAt boot ins t).pipe.enable (pipeIns boot ins t).bus

/-- `lsu_rdata_valid_o`: the result is written to the register file. -/
def rdataValid (boot : Fin 2 → Index → Word) (ins : ℕ → DataPathIn) (t : ℕ) : Bool :=
  (stateAt boot ins t).pipe.lsu.rdataValid (stateAt boot ins t).pipe.enable (pipeIns boot ins t).bus

/-- `lsu_rcap_o`. -/
def rcap (boot : Fin 2 → Index → Word) (ins : ℕ → DataPathIn) (t : ℕ) : Cap :=
  (stateAt boot ins t).pipe.lsu.rcap (stateAt boot ins t).pipe.enable (pipeIns boot ins t).bus

theorem Beat.inFlight {a : ℕ} (h : Beat boot ins a c false) : InFlight boot ins a (a + 1) c := by
  obtain ⟨hrem, hfsm, hcap⟩ := h.started
  refine ⟨hrem, .inl ⟨hcap, ?_⟩⟩
  have hcount := (paced boot ins (a + 1)).count
  have hreq := length_requested_of_gnt h.gnt
  simp only [MemPipe.outstanding, hfsm, hcap, if_true] at hcount
  omega

theorem delivered_succ : Trvk.delivered (filterIns boot ins) (t + 1) =
    Trvk.delivered (filterIns boot ins) t ++
      if (pipeIns boot ins t).bus.rvalid then
        [(stateAt boot ins t).filter.delivery (filterIns boot ins t)]
      else [] := by
  rw [Trvk.delivered_succ, ← filter_stateAt, pipeIns, bus_pipeInputs]
  rfl

theorem rsp_delivery : ((stateAt boot ins t).filter.delivery (filterIns boot ins t)).rsp =
    (pipeIns boot ins t).bus.rsp := by
  rw [pipeIns, bus_pipeInputs]
  rfl

/-- **The unit stays with the access** until its last response is there. -/
theorem InFlight.succ {a : ℕ} (h : InFlight boot ins a t c) (hno : respValid boot ins t = false) :
    InFlight boot ins a (t + 1) c := by
  have hp := paced boot ins t
  have hrem := h.remembers.step hp.receiving hp.rvalid_outstanding hno
  refine ⟨hrem, ?_⟩
  rw [pipe_stateAt_succ, delivered_succ]
  rcases h.index with ⟨hcap, hlen⟩ | ⟨hcap, hlen, d0, hd0, herr, hload⟩
  · have hcap' := MemPipe.capRx_step_of_waiting (i := pipeIns boot ins t) hcap
    cases hrv : (pipeIns boot ins t).bus.rvalid with
    | false =>
      rw [hrv] at hcap'
      exact .inl ⟨hcap', by simpa using hlen⟩
    | true =>
      rw [hrv] at hcap'
      obtain ⟨herr, hdata⟩ := MemPipe.capLsw_step_of_waiting h.remembers.enable hcap hrv
      refine .inr ⟨hcap', by simp [hlen], _, ?_, by rw [herr, rsp_delivery], fun hop => ?_⟩
      · rw [if_pos rfl, ← hlen, List.getElem?_concat_length]
      · rw [rsp_delivery]
        exact hdata (by rw [h.remembers.dataWe]; simpa using hop)
  · have hrv := h.remembers.not_rvalid hp.receiving hp.rvalid_outstanding hno hcap
    obtain ⟨herr', hdata', htag'⟩ := MemPipe.capLsw_step_of_not_rvalid
      (s := (stateAt boot ins t).pipe) (i := pipeIns boot ins t) hrv
    rw [hrv, herr', hdata', htag']
    refine .inr ⟨MemPipe.capRx_step_of_not_rvalid hcap hrv, by simpa using hlen, d0, ?_, herr,
      hload⟩
    simpa using hd0

/-- The access is answered in cycle `T`: its response is the first one after the second grant. -/
structure Answered (boot : Fin 2 → Index → Word) (ins : ℕ → DataPathIn) (b T : ℕ) : Prop where
  /-- The response comes after the grant. -/
  lt : b < T
  /-- The response. -/
  valid : respValid boot ins T = true
  /-- It is the first one. -/
  first : ∀ u, b < u → u < T → respValid boot ins u = false

section Transfer

variable {a b : ℕ} (h : Transfer boot ins a b c)

include h

/-- **The unit stays with the access until it is answered.** -/
theorem Transfer.inFlight (ht : a < t) (hno : ∀ u, b < u → u < t → respValid boot ins u = false) :
    InFlight boot ins a t c := by
  induction t, ht using Nat.le_induction with
  | base => exact h.first.inFlight
  | succ t hat ih =>
    refine (ih fun u hbu hut => hno u hbu (hut.trans t.lt_succ_self)).succ ?_
    by_cases hbt : b < t
    · exact hno t hbt t.lt_succ_self
    · rw [respValid, LoadStoreUnit.respValid, h.between t hat (not_lt.mp hbt)]
      exact Bool.and_false _

/-- The second word is the next request after the first. -/
theorem Transfer.length_requested : (Trvk.requested (filterIns boot ins) b).length =
    (Trvk.requested (filterIns boot ins) a).length + 1 := by
  have hin := h.inFlight h.lt fun u hbu hub => absurd hbu (by omega)
  have hcount := (paced boot ins b).count
  have hfsm := h.between b h.lt le_rfl
  rcases hin.index with ⟨hcap, hlen⟩ | ⟨hcap, hlen, -⟩ <;>
    simp [MemPipe.outstanding, hfsm, hcap] at hcount <;> omega

/-- **What a load returns** is put together from the two responses that are delivered for it. -/
theorem Transfer.result (hop : c.op = .cloadCap) {T : ℕ} (hT : Answered boot ins b T) :
    ∃ d0 d1 : Trvk.Delivery,
      (Trvk.delivered (filterIns boot ins) (T + 1))[
        (Trvk.requested (filterIns boot ins) a).length]? = some d0 ∧
      (Trvk.delivered (filterIns boot ins) (T + 1))[
        (Trvk.requested (filterIns boot ins) b).length]? = some d1 ∧
      d1 = (stateAt boot ins T).filter.delivery (filterIns boot ins T) ∧
      rdata boot ins T = d0.rsp.data ∧
      rdataValid boot ins T = !(d1.rsp.err || d0.rsp.err) ∧
      rcap boot ins T =
        if d1.rsp.err || d0.rsp.err then nullCap
        else memToCap (BitVec.cons d1.rsp.tag d1.rsp.data) (BitVec.cons d0.rsp.tag d0.rsp.data)
          c.lcClrperm := by
  have hin := h.inFlight (h.lt.trans hT.lt) hT.first
  have hr := (paced boot ins T).receiving
  obtain ⟨-, hcap, hrv, -⟩ := hin.remembers.of_respValid hr hT.valid
  obtain ⟨hdata, hvalid, hrcap⟩ := hin.remembers.result hr hT.valid
  rcases hin.index with ⟨hcap', -⟩ | ⟨-, hlen, d0, hd0, herr, hload⟩
  · cases hcap.symm.trans hcap'
  · obtain ⟨hdata0, htag0⟩ := hload (by simp [hop])
    have hd0' : (Trvk.delivered (filterIns boot ins) (T + 1))[
        (Trvk.requested (filterIns boot ins) a).length]? = some d0 :=
      Trvk.machine.getElem?_log_of_le _ T.le_succ hd0
    refine ⟨d0, _, hd0', ?_, rfl, ?_, ?_, ?_⟩
    · rw [delivered_succ, hrv, if_pos rfl, h.length_requested, ← hlen, List.getElem?_concat_length]
    · exact hdata.trans hdata0
    · rw [rdataValid, hvalid, herr, rsp_delivery, hop]
      exact Bool.and_true _
    · rw [rcap, hrcap, herr, hdata0, htag0, rsp_delivery]

/-- The answer is the delivery of the second response. -/
theorem Transfer.delivery_of_answered {T : ℕ} (hT : Answered boot ins b T) :
    (pipeIns boot ins T).bus.rvalid = true ∧
      (Trvk.delivered (filterIns boot ins) T).length =
        (Trvk.requested (filterIns boot ins) b).length := by
  have hin := h.inFlight (h.lt.trans hT.lt) hT.first
  obtain ⟨-, hcap, hrv, -⟩ := hin.remembers.of_respValid (paced boot ins T).receiving hT.valid
  rcases hin.index with ⟨hcap', -⟩ | ⟨-, hlen, -⟩
  · cases hcap.symm.trans hcap'
  · exact ⟨hrv, hlen.trans h.length_requested.symm⟩

/-- **What a load from a bank returns.** Both words are as they are in memory in the cycles of their
grants, and a word that is tagged for the core is tagged in memory. -/
theorem Transfer.loaded (hop : c.op = .cloadCap)
    (hsel0 : addrDecode (capReq c false).addr = .bank k)
    (hsel1 : addrDecode (capReq c true).addr = .bank k) {T : ℕ} (hT : Answered boot ins b T) :
    ∃ d0 d1 : Trvk.Delivery,
      (Trvk.delivered (filterIns boot ins) (T + 1))[
        (Trvk.requested (filterIns boot ins) a).length]? = some d0 ∧
      d1 = (stateAt boot ins T).filter.delivery (filterIns boot ins T) ∧
      (d0.rsp.tag = true → (cellAt boot ins k (wordAddr (capReq c false).addr) a).2 = true) ∧
      (d1.rsp.tag = true → (cellAt boot ins k (wordAddr (capReq c true).addr) b).2 = true) ∧
      rdata boot ins T = (cellAt boot ins k (wordAddr (capReq c false).addr) a).1 ∧
      (pipeIns boot ins T).bus.rsp.data = (cellAt boot ins k (wordAddr (capReq c true).addr) b).1 ∧
      rdataValid boot ins T = true ∧
      rcap boot ins T = memToCap
        (BitVec.cons d1.rsp.tag (cellAt boot ins k (wordAddr (capReq c true).addr) b).1)
        (BitVec.cons d0.rsp.tag (cellAt boot ins k (wordAddr (capReq c false).addr) a).1)
        c.lcClrperm := by
  obtain ⟨d0, d1, hd0, hd1, hlast, hdata, hvalid, hrcap⟩ := h.result hop hT
  obtain ⟨w0, hw0, hrsp0, htag0⟩ := Trvk.delivered_unchanged (disciplined boot ins) hd0
  obtain ⟨w1, hw1, hrsp1, htag1⟩ := Trvk.delivered_unchanged (disciplined boot ins) hd1
  cases Trvk.machine.getElem?_log_unique _ hw0 (arrived_of_read h.first hop hsel0)
  cases Trvk.machine.getElem?_log_unique _ hw1 (arrived_of_read h.second hop hsel1)
  have herr0 : d0.rsp.err = false := by rw [hrsp0]
  have herr1 : d1.rsp.err = false := by rw [hrsp1]
  have hdata0 : d0.rsp.data = (cellAt boot ins k (wordAddr (capReq c false).addr) a).1 := by
    rw [hrsp0]
  have hdata1 : d1.rsp.data = (cellAt boot ins k (wordAddr (capReq c true).addr) b).1 := by
    rw [hrsp1]
  rw [herr0, herr1] at hvalid hrcap
  refine ⟨d0, d1, hd0, hlast, htag0, htag1, hdata.trans hdata0, ?_, hvalid, ?_⟩
  · rw [← hdata1, hlast, rsp_delivery]
  · rw [hrcap, hdata0, hdata1]
    rfl

/-- Under a filter whose lookups are answered, the access is answered. -/
theorem Transfer.exists_answered (hop : c.op = .cloadCap)
    (hsel : addrDecode (capReq c true).addr = .bank k)
    (hm : Trvk.LookupsAnswered (filterIns boot ins)) : ∃ T, Answered boot ins b T := by
  have harr := arrived_of_read h.second hop hsel
  obtain ⟨u, hu⟩ := Trvk.eventually_delivered (disciplined boot ins) hm
    (List.getElem?_eq_some_iff.mp harr).1
  have hex : ∃ T, b < T ∧ respValid boot ins T = true := by
    by_contra hnone
    -- the unit would still wait when both responses have been delivered
    have hno : ∀ v, b < v → v < max u (b + 1) → respValid boot ins v = false := by
      intro v hbv _
      by_contra hv
      exact hnone ⟨v, hbv, by simpa using hv⟩
    have hin := h.inFlight (t := max u (b + 1)) (by have := h.lt; omega) hno
    have hmono : (Trvk.delivered (filterIns boot ins) u).length ≤
        (Trvk.delivered (filterIns boot ins) (max u (b + 1))).length :=
      Trvk.length_delivered_mono (le_max_left u (b + 1))
    have hlen := h.length_requested
    rcases hin.index with ⟨-, hdel⟩ | ⟨-, hdel, -⟩ <;> omega
  refine ⟨Nat.find hex, (Nat.find_spec hex).1, (Nat.find_spec hex).2, fun u hbu hu => ?_⟩
  have := Nat.find_min hex hu
  simpa [hbu] using this

end Transfer

/-! ### A path at rest -/

/-- Nothing is on its way and the unit is idle. -/
def AtRest (s : DataPath) : Prop :=
  s.pipe.lsu.fsm = .idle ∧ s.pipe.wbMem = false ∧ s.demux.inFlight.toNat = 0

instance (s : DataPath) : Decidable s.AtRest := inferInstanceAs (Decidable (_ ∧ _))

theorem current_of_atRest (h : (stateAt boot ins t).AtRest) (hnone : (ins t).instr = none) :
    (stateAt boot ins t).pipe.current (pipeIns boot ins t) = none := by
  have hinstr : (pipeIns boot ins t).instr =
      if (stateAt boot ins t).awake then (ins t).instr else none := rfl
  rw [MemPipe.current, if_pos h.1, hinstr, hnone, ite_self]

/-- A path at rest stays at rest while no load or store is offered. -/
theorem atRest_succ (h : (stateAt boot ins t).AtRest) (hnone : (ins t).instr = none) :
    (stateAt boot ins (t + 1)).AtRest := by
  have hcur := current_of_atRest h hnone
  obtain ⟨hfsm, hwb, hflight⟩ := h
  have hreq : ((stateAt boot ins t).pipe.request (pipeIns boot ins t)).req = false := by
    rw [MemPipe.request, hcur]
    rfl
  have hup : ((stateAt boot ins t).pipe.up (pipeIns boot ins t)).req = false := by
    simp [MemPipe.req_up, LoadStoreUnit.sends, hfsm, Request.cpuReqValid, hreq]
  have hgnt : (pipeIns boot ins t).bus.gnt = false := by
    rw [(paced boot ins t).upGnt_eq.1, ← up_pipeInputs]
    exact Bool.and_eq_false_imp.mpr fun hv => absurd (hup.symm.trans hv) Bool.false_ne_true
  have hcount := (paced boot ins t).inFlight_succ
  rw [cntUp_eq, hgnt, hflight, Bool.toNat_false] at hcount
  refine ⟨?_, ?_, by omega⟩
  · rw [pipe_stateAt_succ, MemPipe.fsm_step, LoadStoreUnit.ctl_idle_of_not_req hfsm hreq]
  · rw [pipe_stateAt_succ, MemPipe.step, hreq, MemPipe.executing, hwb]
    rfl

end DataPath

end Sram

end Croc
