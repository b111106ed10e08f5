import Croc.Lsu.WordMemory

/-!
# Loads and stores are those of a byte memory

An access that starts is in flight until it completes, and in its last phase it has been performed
as a whole. So a store has then changed exactly its bytes, and a load returns its bytes, in whatever
cycles the memory grants and answers. No other instruction starts before the completion, and nothing
completes after it until one does.

## Main definitions

* `MemSystem.run`: the system in a cycle.
* `MemSystem.FirstCompletion`: the completion of an access.
* `MemSystem.Fair`: the memory goes on granting and answering.

## Main results

* `MemSystem.StartsRv32.inFlight`: what starts is in flight.
* `InFlight.stored`, `InFlight.loaded`: what has been done when an access completes.
* `MemSystem.exists_firstCompletion`: an access completes.
* `MemSystem.rv32_access_exact`: loads and stores are those of a byte memory, and each completes
  once.
-/

namespace Croc

namespace Lsu

open Cheriot Revocation ByteMemory Clocked

/-! ### The start and the end of an access -/

namespace MemSystem

variable {s : MemSystem} {i : PortIn} {a : Rv32Access} {m : WordMem} {p : Phase}

namespace StartsRv32

theorem current (h : s.StartsRv32 i a) : s.pipe.current (s.pipeIn i) = some (.rv32 a) := by
  rw [MemPipe.current, if_pos h.idle]
  exact h.instr

theorem handleMisaligned (h : s.StartsRv32 i a) (hs : s.Inv) :
    s.pipe.lsu.handleMisaligned = false := by
  have hw := hs.pipe.working
  rwa [MemPipe.Working, h.idle] at hw

theorem addrIncrReq (h : s.StartsRv32 i a) : s.pipe.lsu.addrIncrReq s.pipe.enable = false := by
  rw [LoadStoreUnit.addrIncrReq, h.idle]

theorem request (h : s.StartsRv32 i a) : s.pipe.request (s.pipeIn i) =
    (Access.rv32 a).request s.pipe.enable true false s.pipe.lsu.addrLast := by
  rw [MemPipe.request_of_current h.current, h.executing, h.addrIncrReq]

theorem cheriotErr (h : s.StartsRv32 i a) : (s.pipe.request (s.pipeIn i)).cheriotErr = false := by
  rw [h.request]
  cases hen : s.pipe.enable with
  | false => rfl
  | true => exact h.check hen

theorem splitMisalignedAccess (h : s.StartsRv32 i a) :
    (s.pipe.request (s.pipeIn i)).splitMisalignedAccess s.pipe.enable = a.split := by
  rw [h.request, Bool.eq_iff_iff, MemPipe.splitMisalignedAccess_rv32, a.split_iff]

/-- What the state machine drives when an access starts. -/
theorem ctl_eq (h : s.StartsRv32 i a) (hs : s.Inv) :
    s.pipe.lsu.ctl s.pipe.enable (s.pipe.request (s.pipeIn i)) (s.bus i) =
      { ns := (Phase.first.next a.split i.gnt (s.rvalid i)).fsm a.split
        handleMisaligned := (Phase.first.next a.split i.gnt (s.rvalid i)).requestsSecond
        lsuErr := false, cheriotErr := false, dataReq := true, addrUpdate := i.gnt,
        ctrlUpdate := i.gnt
        lsuGo := true } := by
  have hmis := h.handleMisaligned hs
  rcases LoadStoreUnit.ctl_idle_cases h.idle s.pipe.enable (s.pipe.request (s.pipeIn i))
    (s.bus i) with
    ⟨hreq, -⟩ | ⟨-, -, herr, -⟩ | ⟨-, -, -, hcap, -⟩ | ⟨-, -, -, hctl⟩
  · rw [h.request] at hreq
    cases hreq
  · rw [h.cheriotErr] at herr
    cases herr
  · rw [h.request] at hcap
    cases hcap
  · rw [hctl, h.splitMisalignedAccess, hmis]
    cases hsp : a.split <;> cases hg : i.gnt <;>
      simp [Phase.next, Phase.fsm, Phase.requestsSecond, bus, hg]

/-- The access before it is answered by now. -/
theorem due_eq (h : s.StartsRv32 i a) (hs : s.Inv) :
    (if s.rvalid i then s.due.tail else s.due) = [] := by
  have hout := (hs.receiving.executing_idle h.idle (outstanding_pos hs) h.executing).1
  rw [← hs.due] at hout
  change s.due.length = (s.rvalid i).toNat at hout
  apply List.eq_nil_of_length_eq_zero
  cases hrv : s.rvalid i with
  | false =>
    rw [hrv] at hout
    exact hout
  | true =>
    rw [hrv] at hout
    rw [if_pos rfl, List.length_tail, hout]
    rfl

/-- An access that is granted as a whole at once goes to the writeback stage. -/
theorem writeback_step (h : s.StartsRv32 i a) (hs : s.Inv)
    (hp : InFlight.after a .first s i = .last) :
    (s.step i).pipe.wbMem = true ∧ (s.step i).pipe.lsu.cheriotErr = false := by
  have hctl := h.ctl_eq hs
  have hns : (Phase.first.next a.split i.gnt (s.rvalid i)).fsm a.split = .idle := by
    rw [InFlight.after] at hp
    rw [hp]
    rfl
  have hdone : s.pipe.reqDone (s.pipeIn i) = true := by
    change (((s.pipe.lsu.ctl s.pipe.enable (s.pipe.request (s.pipeIn i)) (s.bus i)).lsuGo || _) &&
      (s.pipe.lsu.ctl s.pipe.enable (s.pipe.request (s.pipeIn i)) (s.bus i)).ns == .idle) = true
    rw [hctl, hns]
    rfl
  constructor
  · exact MemPipe.wbMem_step.trans (by rw [hdone, h.request]; rfl)
  · rw [lsu_step, LoadStoreUnit.step, hctl]

/-- The memory sees its first request. -/
theorem memory_step (h : s.StartsRv32 i a) (hs : s.Inv) :
    (s.step i).mem = a.memIn s.mem (InFlight.after a .first s i) ∧
      (s.step i).due = a.dueIn s.mem (InFlight.after a .first s i) := by
  have hmis := h.handleMisaligned hs
  have hsends : s.pipe.lsu.sends s.pipe.enable (s.pipe.request (s.pipeIn i)) = true := by
    rw [← LoadStoreUnit.dataReq_ctl (b := s.bus i), h.ctl_eq hs]
  have hlast : s.pipe.lsu.handleMisaligned = true → s.pipe.lsu.addrLast = a.addr := by
    rw [hmis]
    exact fun hf => absurd hf Bool.false_ne_true
  obtain ⟨hmem, hanswer⟩ := served h.current hsends (h.addrIncrReq.trans hmis.symm) hlast
  constructor
  · have hnew : (s.step i).mem = s.memNext i := rfl
    rw [hnew, hmem, hmis]
    cases hsp : a.split <;> cases hg : i.gnt <;>
      simp [InFlight.after, Phase.next, Rv32Access.memIn, hsp, hg]
  · rw [due_step, h.due_eq hs, hanswer, hmis]
    cases hsp : a.split <;> cases hg : i.gnt <;>
      simp [InFlight.after, Phase.next, Rv32Access.dueIn, hsp, hg]

/-- **The start.** An access that starts is in its first phase, or beyond it if it is granted at
once. -/
theorem inFlight (h : s.StartsRv32 i a) (hs : s.Inv) :
    InFlight a s.mem (InFlight.after a .first s i) (s.step i) := by
  have hctl := h.ctl_eq hs
  obtain ⟨hmem, hdue⟩ := h.memory_step hs
  have hgnt : InFlight.after a .first s i ≠ .first → i.gnt = true := by
    cases hg : i.gnt <;> simp [InFlight.after, Phase.next, hg]
  refine ⟨?_, ?_, ?_, ?_, ?_, ?_, ?_, fun hnext => ?_, ?_, hmem, hdue⟩
  · rw [lsu_step, LoadStoreUnit.step, hctl]
    rfl
  · split_ifs with hp
    · exact h.writeback_step hs hp
    · exact h.current
  · intro hnext
    cases hsp : a.split with
    | true => rfl
    | false => cases hg : i.gnt <;> simp [InFlight.after, Phase.next, hsp, hg] at hnext
  · rw [lsu_step, LoadStoreUnit.step, hctl]
    rfl
  · intro hnext
    have hg : i.gnt = true := hgnt fun hfirst => by
      rw [hfirst] at hnext
      cases hnext
    rw [lsu_step, LoadStoreUnit.step, hctl, h.addrIncrReq, hg, h.request]
    rfl
  · rw [lsu_step, LoadStoreUnit.step, hctl]
  · rw [lsu_step, LoadStoreUnit.step, hctl, h.request]
    rfl
  · refine latched_of_update (fun hf => absurd hf Bool.false_ne_true) h.request ?_
    exact (congrArg Ctl.ctrlUpdate hctl).trans (hgnt hnext)
  · intro hnext
    cases hsp : a.split <;> cases hg : i.gnt <;> simp [InFlight.after, Phase.next, hsp, hg] at hnext

end StartsRv32

end MemSystem

namespace InFlight

open MemSystem

variable {s : MemSystem} {i : PortIn} {a : Rv32Access} {m : WordMem} {p : Phase}

/-- An access completes in its last phase only, with a response. -/
theorem last_of_completes (h : InFlight a m p s) (hdone : s.completes i = true) :
    InFlight a m .last s ∧ s.rvalid i = true := by
  by_cases hp : p = .last
  · subst hp
    exact ⟨h, h.completes_last.symm.trans hdone⟩
  · rw [h.completes_busy hp] at hdone
    cases hdone

/-- **A store is done** when it completes. -/
theorem stored (h : InFlight a m .last s) (hwe : a.we = true) : s.mem.bytes = a.stored m.bytes := by
  rw [h.mem, Rv32Access.memIn]
  cases hsp : a.split with
  | false =>
    refine Rv32Access.bytes_first hwe fun hsplits => ?_
    rw [a.split_iff.mpr hsplits] at hsp
    cases hsp
  | true => exact Rv32Access.bytes_second hwe (a.split_iff.mp hsp)

/-- A load changes nothing. -/
theorem mem_of_load (h : InFlight a m .last s) (hwe : a.we = false) : s.mem = m := by
  have hfirst : a.first m = m := by rw [Rv32Access.first, hwe]; rfl
  have hsecond : a.second m = m := by rw [Rv32Access.second, hwe]; rfl
  rw [h.mem, Rv32Access.memIn, hfirst, hsecond, ite_self]

/-- **A load returns its bytes** when it completes. -/
theorem loaded (h : InFlight a m .last s) (hwe : a.we = false) :
    s.pipe.lsu.rdata s.pipe.enable (s.bus i) = a.loaded m.bytes := by
  have hlatched := h.latched (by decide)
  have hdata := data_bus (i := i) h.due hwe
  rw [LoadStoreUnit.rdata, h.respIsCap, Bool.and_false, if_neg Bool.false_ne_true]
  refine LoadStoreUnit.dataRdataExt_eq hlatched.rdataOffset hlatched.dataType
    hlatched.dataSignExt ?_ ?_
  · intro hone
    rw [hdata, if_neg fun hsp => hone (a.split_iff.mp hsp)]
  · intro htwo
    have hsp := a.split_iff.mpr htwo
    exact ⟨by rw [hdata, if_pos hsp], h.kept (.inr ⟨rfl, hsp⟩) hwe⟩

/-- The register file is written for a load only. -/
theorem rdataValid_eq (h : InFlight a m .last s) (hrv : s.rvalid i = true) :
    s.pipe.lsu.rdataValid s.pipe.enable (s.bus i) = !a.we := by
  have hfsm : s.pipe.lsu.fsm = .idle := h.fsm
  rw [LoadStoreUnit.rdataValid, hfsm, LoadStoreUnit.dataOrPmpErr, h.lsuErr, h.writeback.2,
    h.respIsCap, (h.latched (by decide)).dataWe]
  simp [bus, hrv]

theorem rank_after_lt (h : InFlight a m p s) (hno : s.completes i = false)
    (hevent : if p.awaitsGnt then i.gnt = true else i.respond = true) :
    (after a p s i).rank < p.rank := by
  have hrv : p.awaitsGnt = false → s.rvalid i = true := by
    intro hp
    rw [hp, if_neg Bool.false_ne_true] at hevent
    rw [rvalid, hevent, h.due]
    cases p with
    | first => cases hp
    | second => cases hp
    | _ => rfl
  refine Phase.rank_next_lt ?_ ?_
  · rintro rfl
    rw [h.completes_last, hrv rfl] at hno
    cases hno
  · cases hp : p.awaitsGnt with
    | false => exact hrv hp
    | true =>
      rw [hp] at hevent
      exact hevent

/-- Until it completes, no other instruction goes to the unit. -/
theorem not_starts (h : InFlight a m p s) (hno : s.completes i = false) : s.starts i = false := by
  by_cases hp : p = .last
  · subst hp
    have hreq := (h.req_last (h.completes_last.symm.trans hno)).2
    rw [starts, LoadStoreUnit.ctl_idle_of_not_req h.fsm hreq]
  · exact (MemPipe.ctl_busy (i := s.pipeIn i) (h.busy hp)).1

end InFlight

/-! ### Between instructions -/

namespace MemSystem

variable {s : MemSystem} {i : PortIn}

/-- No instruction is with the unit or in the writeback stage. -/
def Quiet (s : MemSystem) : Prop := s.pipe.lsu.fsm = .idle ∧ s.pipe.wbMem = false

/-- When nothing starts, the writeback stage empties. -/
theorem quiet_step (hfsm : s.pipe.lsu.fsm = .idle) (hexec : s.pipe.executing (s.pipeIn i) = true)
    (hno : s.starts i = false) : (s.step i).Quiet := by
  rw [starts] at hno
  rcases LoadStoreUnit.ctl_idle_cases hfsm s.pipe.enable (s.pipe.request (s.pipeIn i))
    (s.bus i) with
    ⟨hreq, hctl⟩ | ⟨-, -, -, hctl⟩ | ⟨-, -, -, -, hctl⟩ | ⟨-, -, -, hctl⟩
  · constructor
    · exact congrArg Ctl.ns hctl
    · exact MemPipe.wbMem_step.trans (by rw [hreq, hexec]; rfl)
  all_goals
    rw [hctl] at hno
    cases hno

theorem Quiet.step (h : s.Quiet) (hno : s.starts i = false) : (s.step i).Quiet := by
  refine quiet_step h.1 ?_ hno
  rw [MemPipe.executing, h.2]
  rfl

/-- Then nothing completes. -/
theorem Quiet.not_completes (h : s.Quiet) (hs : s.Inv) : s.completes i = false := by
  have hout : s.pipe.outstanding = 0 := by
    rw [MemPipe.outstanding, h.1, h.2]
    rfl
  have hrv : s.rvalid i = false := rvalid_of_due (List.eq_nil_of_length_eq_zero (hs.due.trans hout))
  have hce : s.pipe.lsu.cheriotErr = false := by
    by_contra hne
    have hwb := (hs.receiving.err (by simpa using hne)).2.2
    rw [h.2] at hwb
    cases hwb
  rw [completes, LoadStoreUnit.respValid, hce, Bool.and_false, Bool.or_false]
  change (s.rvalid i && _) = false
  rw [hrv, Bool.false_and]

/-! ### Whole runs -/

section Run

variable (boot : WordMem) (ins : ℕ → PortIn)

/-- The system at the start of a cycle. -/
def run (t : ℕ) : MemSystem := (machine boot).stateAt ins t

/-- An instruction goes to the unit in cycle `t`. -/
def StartsAt (t : ℕ) : Prop := (run boot ins t).starts (ins t) = true

/-- An instruction completes in cycle `t`. -/
def CompletesAt (t : ℕ) : Prop := (run boot ins t).completes (ins t) = true

/-- The first completion after cycle `t`. -/
structure FirstCompletion (t t' : ℕ) : Prop where
  /-- It comes later. -/
  lt : t < t'
  /-- Something completes. -/
  completes : CompletesAt boot ins t'
  /-- Nothing does in between. -/
  first : ∀ u, t < u → u < t' → ¬ CompletesAt boot ins u

/-- The memory goes on granting and answering. -/
structure Fair : Prop where
  /-- There is always a later grant. -/
  gnt : ∀ t, ∃ u, t ≤ u ∧ (ins u).gnt = true
  /-- There is always a later response, if one is due. -/
  respond : ∀ t, ∃ u, t ≤ u ∧ (ins u).respond = true

variable {boot ins} {t : ℕ} {a : Rv32Access} {m : WordMem}

theorem inv_run (t : ℕ) : (run boot ins t).Inv := inv_stateAt boot ins t

/-- **An access is in flight until it completes.** -/
theorem exists_inFlight (hstart : (run boot ins t).StartsRv32 (ins t) a) {u : ℕ} (htu : t < u)
    (hno : ∀ v, t < v → v < u → ¬ CompletesAt boot ins v) :
    ∃ p, InFlight a (run boot ins t).mem p (run boot ins u) := by
  induction u, htu using Nat.le_induction with
  | base => exact ⟨_, hstart.inFlight (inv_run t)⟩
  | succ u htu ih =>
    obtain ⟨p, hp⟩ := ih fun v htv hvu => hno v htv (hvu.trans u.lt_succ_self)
    have hlast := hno u htu u.lt_succ_self
    exact ⟨_, hp.step (inv_run u) (by simpa [CompletesAt] using hlast)⟩

/-- **It completes**, if the memory goes on granting and answering. -/
theorem exists_completesAt (hfair : Fair ins) {p : Phase} (h : InFlight a m p (run boot ins t)) :
    ∃ u, t ≤ u ∧ CompletesAt boot ins u := by
  refine exists_done_of_rank (A := fun u p => InFlight a m p (run boot ins u)) Phase.rank ?_ ?_ h
  · intro u p hp hno
    exact ⟨_, hp.step (inv_run u) (by simpa [CompletesAt] using hno),
      Phase.next_eq_or_rank_lt _ _ _ p⟩
  · intro u p _
    have hevent : ∃ v,
        u ≤ v ∧ if p.awaitsGnt then (ins v).gnt = true else (ins v).respond = true := by
      cases p.awaitsGnt
      · exact hfair.respond u
      · exact hfair.gnt u
    obtain ⟨v, huv, hevent⟩ := hevent
    refine ⟨v, huv, fun hp hno => ?_⟩
    have hno' : (run boot ins v).completes (ins v) = false := by simpa [CompletesAt] using hno
    exact ⟨_, hp.step (inv_run v) hno', hp.rank_after_lt hno' hevent⟩

/-- There is a first one. -/
theorem exists_firstCompletion (hfair : Fair ins) (hstart : (run boot ins t).StartsRv32 (ins t) a) :
    ∃ t', FirstCompletion boot ins t t' := by
  classical
  have hex : ∃ u, t < u ∧ CompletesAt boot ins u := by
    obtain ⟨p, hp⟩ := exists_inFlight hstart t.lt_succ_self fun v htv hvt => absurd hvt (by omega)
    obtain ⟨u, htu, hu⟩ := exists_completesAt hfair hp
    exact ⟨u, htu, hu⟩
  refine ⟨Nat.find hex, (Nat.find_spec hex).1, (Nat.find_spec hex).2, fun u htu hu hdone => ?_⟩
  exact Nat.find_min hex hu ⟨htu, hdone⟩

/-- After it nothing completes until another instruction starts. -/
theorem exists_startsAt (hstart : (run boot ins t).StartsRv32 (ins t) a) {t' : ℕ}
    (h : FirstCompletion boot ins t t') {u : ℕ} (hu : t' < u) (hdone : CompletesAt boot ins u) :
    ∃ v, t' ≤ v ∧ v < u ∧ StartsAt boot ins v := by
  by_contra hnone
  have hno : ∀ v, t' ≤ v → v < u → (run boot ins v).starts (ins v) = false := by
    intro v hv hvu
    by_contra hstarts
    exact hnone ⟨v, hv, hvu, by simpa [StartsAt] using hstarts⟩
  obtain ⟨p, hp⟩ := exists_inFlight hstart h.lt h.first
  have hlast := (hp.last_of_completes h.completes).1
  have hquiet : ∀ v, t' < v → v ≤ u → (run boot ins v).Quiet := by
    intro v hv
    induction v, hv using Nat.le_induction with
    | base =>
      intro hvu
      refine quiet_step hlast.fsm ?_ (hno t' le_rfl hvu)
      exact MemPipe.executing_iff.mpr fun _ => h.completes
    | succ v hv ih =>
      intro hvu
      exact (ih (Nat.le_of_succ_le hvu)).step (hno v (Nat.le_of_succ_le hv) hvu)
  have hnever := (hquiet u hu le_rfl).not_completes (i := ins u) (inv_run u)
  rw [CompletesAt, hnever] at hdone
  cases hdone

/-- **Loads and stores are those of a byte memory.** Whatever the memory grants and answers in a
cycle, whatever instructions come before and after: if the memory goes on, an access completes. With
its first completion a store has changed exactly its bytes to the low bytes of the register, and a
load has changed nothing and returns its bytes, extended. No other instruction starts before it, and
nothing completes after it until another one has started. -/
theorem rv32_access_exact (hstart : (run boot ins t).StartsRv32 (ins t) a) :
    StartsAt boot ins t ∧ (Fair ins → ∃ t', FirstCompletion boot ins t t') ∧
    ∀ t', FirstCompletion boot ins t t' →
      (a.we = true → (run boot ins t').mem.bytes = a.stored (run boot ins t).mem.bytes) ∧
      (a.we = false → (run boot ins t').mem = (run boot ins t).mem ∧
        (run boot ins t').pipe.lsu.rdata (run boot ins t').pipe.enable
          ((run boot ins t').bus (ins t')) =
          a.loaded (run boot ins t).mem.bytes) ∧
      (run boot ins t').pipe.lsu.rdataValid (run boot ins t').pipe.enable
        ((run boot ins t').bus (ins t')) =
        !a.we ∧
      (∀ v, t < v → v < t' → ¬ StartsAt boot ins v) ∧
      ∀ u, t' < u → CompletesAt boot ins u → ∃ v, t' ≤ v ∧ v < u ∧ StartsAt boot ins v := by
  refine ⟨congrArg Ctl.lsuGo (hstart.ctl_eq (inv_run t)),
    fun hfair => exists_firstCompletion hfair hstart, ?_⟩
  intro t' h
  obtain ⟨p, hp⟩ := exists_inFlight hstart h.lt h.first
  obtain ⟨hlast, hrv⟩ := hp.last_of_completes h.completes
  refine ⟨hlast.stored, fun hwe => ⟨hlast.mem_of_load hwe, hlast.loaded hwe⟩,
    hlast.rdataValid_eq hrv, ?_,
    fun u hu hdone => exists_startsAt hstart h hu hdone⟩
  intro v htv hvt' hstarts
  obtain ⟨q, hq⟩ := exists_inFlight hstart htv fun u htu huv => h.first u htu (huv.trans hvt')
  have hno : (run boot ins v).completes (ins v) = false := by
    simpa [CompletesAt] using h.first v htv hvt'
  rw [StartsAt, hq.not_starts hno] at hstarts
  cases hstarts

end Run

/-- A word that is stored across two words. -/
def acrossWords : Rv32Access :=
  { (default : Rv32Access) with we := true, imm := 0x10000003, wdata := 0x44338211 }

/-- A load of the lower half of it, with its sign. -/
def halfAcrossWords : Rv32Access :=
  { (default : Rv32Access) with lsuType := 1, signExt := true, imm := 0x10000003 }

/-- The store and then the load. The memory grants and answers as fast as it can. -/
def acrossWordsIns (t : ℕ) : PortIn :=
  { (default : PortIn) with
    instr :=
      match t with
      | 0 => some (.rv32 acrossWords)
      | 2 => some (.rv32 halfAcrossWords)
      | _ => none
    gnt := true
    respond := true }

/-- The store takes two accesses and writes its four bytes; the load takes two as well, changes
nothing and returns the lower half, extended. -/
theorem rv32_access_exact_acrossWords :
    FirstCompletion (fun _ => 0) acrossWordsIns 0 2 ∧
      (run (fun _ => 0) acrossWordsIns 2).mem.bytes =
        acrossWords.stored (WordMem.bytes fun _ => 0) ∧
      FirstCompletion (fun _ => 0) acrossWordsIns 2 4 ∧
      (run (fun _ => 0) acrossWordsIns 4).mem = (run (fun _ => 0) acrossWordsIns 2).mem ∧
      halfAcrossWords.loaded (run (fun _ => 0) acrossWordsIns 2).mem.bytes = 0xffff8211 := by
  have hstore : (run (fun _ => 0) acrossWordsIns 0).StartsRv32 (acrossWordsIns 0) acrossWords :=
    ⟨rfl, rfl, rfl, fun h => absurd h Bool.false_ne_true⟩
  have hload : (run (fun _ => 0) acrossWordsIns 2).StartsRv32 (acrossWordsIns 2) halfAcrossWords :=
    ⟨by decide +kernel, rfl, by decide +kernel, fun h => absurd h (by decide +kernel)⟩
  have hstored : FirstCompletion (fun _ => 0) acrossWordsIns 0 2 := by
    refine ⟨by decide, by unfold CompletesAt; decide +kernel, fun u h0 h2 => ?_⟩
    obtain rfl : u = 1 := by omega
    unfold CompletesAt
    decide +kernel
  have hloaded : FirstCompletion (fun _ => 0) acrossWordsIns 2 4 := by
    refine ⟨by decide, by unfold CompletesAt; decide +kernel, fun u h2 h4 => ?_⟩
    obtain rfl : u = 3 := by omega
    unfold CompletesAt
    decide +kernel
  obtain ⟨hmem, hdata⟩ := ((rv32_access_exact hload).2.2 4 hloaded).2.1 rfl
  refine ⟨hstored, ((rv32_access_exact hstore).2.2 2 hstored).1 rfl, hloaded, hmem, ?_⟩
  rw [← hdata]
  decide +kernel

end MemSystem

end Lsu

end Croc
