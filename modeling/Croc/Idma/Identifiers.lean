import Croc.Idma.Midend

/-!
# Job identifiers

A launch returns the value of a counter that advances when a job leaves the FIFO, not when it
enters. Launches that find an earlier job still in the FIFO return the identifier of that job once
more. The done counter counts answers: a job that is answered without going through the data path is
counted while earlier jobs are still in flight, and a job of several transfers of length zero is
counted once for each of them.

Identifiers do identify jobs if every launch finds the FIFO empty, and if a job that is answered
early finds the data path empty and is answered once.

## Main definitions

* `CrocIdma.Orderly`: the condition on a cycle.
* `CrocIdma.Inv`: the counters, the launches and the retired jobs of an orderly run.

## Main results

* `CrocIdma.inv_stateAt`: the invariant holds throughout an orderly run.
* `CrocIdma.identifiers_identify`: identifiers are distinct, and a job that counts as done is done,
  with all jobs before it.
-/

namespace Croc

namespace Idma

open Clocked

open Bits (Word)

namespace CrocIdma

/-- A cycle in which a launch finds the FIFO empty, and in which a job that is answered without the
data path finds that empty, with a single transfer if it gets as far as the backend. -/
structure Orderly (s : CrocIdma) (i : IdmaIn) : Prop where
  /-- A launch finds the FIFO empty. -/
  launch : s.port.jobReqValid = true → s.port.jobs.store.items = []
  /-- A job without repetitions finds the data path empty. -/
  zeroTransfer : s.zeroTransfer i = true → s.inFlight = []
  /-- A transfer of length zero finds the data path empty, and is the only one of its job. -/
  lengthZero : s.lengthZero i = true → s.inFlight = [] ∧ ∀ j, s.head = some j → j.reps = 1

/-- The invariant of an orderly run: `ids` are the identifiers returned so far and `done` the jobs
retired so far. -/
structure Inv (s : CrocIdma) (ids : List Word) (done : List ℕ) : Prop where
  /-- The next identifier counts the jobs that have left the FIFO. -/
  nextQ : s.port.nextQ.toNat = 2 + s.issued
  /-- The done counter counts the jobs that have retired. -/
  completedQ : s.port.completedQ.toNat = 1 + done.length
  /-- Identifiers are given out one after the other. -/
  ids_eq : ids.map BitVec.toNat = List.range' 2 (s.issued + s.port.jobs.store.items.length)
  /-- Jobs retire one after the other. -/
  done_eq : done = List.range done.length
  /-- No job retires before it has left the FIFO. -/
  done_le : done.length ≤ s.issued
  /-- The jobs in the data path are those that have left the FIFO and not retired. -/
  inFlight : (s.inFlight.filter (·.last)).map (·.job) =
    List.range' done.length (s.issued - done.length)
  /-- The repetition counter starts from one. -/
  counterQ : (∀ j, s.head = some j → j.reps = 1) → s.midend.counterQ = 1

/-! ### One cycle -/

theorem toNat_idCount {q : Word} {n : ℕ} (hq : q.toNat = n) (hn : n < 2 ^ 32 - 1) (event : Bool) :
    (idCount q event).toNat = n + event.toNat := by
  have hne : q ≠ BitVec.allOnes 32 := by
    rintro rfl
    rw [BitVec.toNat_allOnes] at hq
    omega
  rw [idCount, if_neg hne]
  cases event with
  | false => simpa using hq
  | true =>
    rw [if_pos rfl, BitVec.toNat_add, hq, Bool.toNat_true]
    have : (1 : Word).toNat = 1 := rfl
    omega

variable {s : CrocIdma} {i : IdmaIn} {ids : List Word} {done : List ℕ}

theorem validO_jobs : s.port.jobs.validO = s.head.isSome := by
  rw [StreamFifo.validO, head]
  cases s.port.jobs.store.items <;> rfl

/-- A job leaves the FIFO exactly when the midend is done with it. -/
theorem issue_eq : s.port.issue (s.ndReqReady i) = s.ndReqReady i := by
  rw [ConfigPort.issue, validO_jobs, ndReqReady, Midend.ndReqReady]
  cases s.head.isSome <;> simp

/-- A job stays at the head until the midend is done with it. -/
theorem head_next (hj : s.head.isSome = true) (h : s.ndReqReady i = false) :
    (s.next i).head = s.head := by
  have hpop : s.port.jobs.pop (s.ndReqReady i) = false := by simp [StreamFifo.pop, h]
  have hitems : (s.next i).port.jobs.store.items = s.port.jobs.store.items ++
      if s.port.jobs.push s.port.jobReqValid then [s.port.regs.jobReq] else [] := by
    refine StreamFifo.items_next.trans ?_
    rw [portIn, hpop, Bool.toNat_false, List.drop_zero]
  rw [head, hitems, head]
  cases hi : s.port.jobs.store.items with
  | nil => simp [head, hi] at hj
  | cons a l => rfl

/-- The midend offers nothing without a job. -/
theorem burst_of_none (hj : s.head = none) : s.burst = none := by
  rw [burst, hj]
  rfl

/-- The midend offers nothing of a job without repetitions. -/
theorem burst_of_zero {j : NdReq} (hj : s.head = some j) (hr : j.reps = 0) : s.burst = none := by
  have hvalid : Midend.burstReqValid (some j) = false := by
    simp [Midend.burstReqValid, Midend.zero, Midend.localRep, hr]
  rw [burst, hj]
  exact if_neg (by rw [hvalid]; exact Bool.false_ne_true)

/-- The transfer that the midend offers of a job with repetitions. -/
theorem burst_of_pos {j : NdReq} (hj : s.head = some j) (hr : j.reps ≠ 0) :
    s.burst = some ⟨j.length, s.midend.srcAddr j, s.midend.dstAddr j, s.midend.last s.head⟩ := by
  have hvalid : Midend.burstReqValid (some j) = true := by
    have hz : Midend.zero (some j) = false := beq_eq_false_iff_ne.mpr hr
    rw [Midend.burstReqValid, hz]
    rfl
  rw [burst, hj]
  exact if_pos hvalid

theorem zeroTransfer_iff : s.zeroTransfer i = true ↔
    s.ndReqReady i = true ∧ ∃ j, s.head = some j ∧ j.reps = 0 := by
  have hdef : s.zeroTransfer i = (Midend.zero s.head && s.head.isSome && s.ndReqReady i) := rfl
  rw [hdef, Bool.and_eq_true, Bool.and_eq_true]
  cases hj : s.head with
  | none => simp
  | some j => simp [Midend.zero, Midend.localRep, and_comm]

theorem lengthZero_iff : s.lengthZero i = true ↔
    i.reqReady = true ∧ ∃ j, s.head = some j ∧ j.reps ≠ 0 ∧ j.length = 0 := by
  unfold lengthZero
  cases hj : s.head with
  | none => simp [burst_of_none hj]
  | some j =>
    by_cases hr : j.reps = 0
    · simp [burst_of_zero hj hr, hr]
    · rw [burst_of_pos hj hr]
      constructor
      · intro h
        rw [Bool.and_eq_true, beq_iff_eq] at h
        exact ⟨h.2, j, rfl, hr, h.1⟩
      · rintro ⟨hrdy, j', hj', -, hlen⟩
        obtain rfl := Option.some.inj hj'
        rw [Bool.and_eq_true, beq_iff_eq]
        exact ⟨hlen, hrdy⟩

theorem retire_eq : s.retire i =
    if s.zeroTransfer i then true else (s.burstRsp i).1 && (s.burstRsp i).2 := rfl

/-- A job that is answered without the data path leaves the FIFO, is alone, and retires. -/
theorem early_spec (h : s.Inv ids done) (ho : s.Orderly i)
    (he : s.zeroTransfer i = true ∨ s.lengthZero i = true) :
    s.ndReqReady i = true ∧ s.inFlight = [] ∧ s.retire i = true ∧
      s.retiredJob i = some s.issued ∧ s.dpRsp i = none ∧ s.accepted i = [] := by
  by_cases hz : s.zeroTransfer i = true
  · obtain ⟨hready, j, hj, hr⟩ := zeroTransfer_iff.mp hz
    refine ⟨hready, ho.zeroTransfer hz, ?_, ?_, ?_, ?_⟩
    · rw [retire_eq, if_pos hz]
    · rw [retiredJob, if_pos hz]
    · simp [dpRsp, hz]
    · simp [accepted, burst_of_zero hj hr]
  · have hl := he.resolve_left hz
    obtain ⟨hempty, hreps⟩ := ho.lengthZero hl
    obtain ⟨hrdy, j, hj, hr, hlen⟩ := lengthZero_iff.mp hl
    have hlast : s.midend.last s.head = true := by
      simp [Midend.last, Midend.stageDone, Midend.localRep, hj, hreps j hj, h.counterQ hreps]
    refine ⟨?_, hempty, ?_, ?_, ?_, ?_⟩
    · rw [ndReqReady, Midend.ndReqReady, hlast, hrdy, hj]
      rfl
    · rw [retire_eq, if_neg hz, burstRsp, if_pos hl]
      rfl
    · rw [retiredJob, if_neg hz, if_pos hl, if_pos hlast]
    · simp [dpRsp, hl]
    · simp [accepted, burst_of_pos hj hr, hlen]

/-- Otherwise the last transfer of a job goes into the data path when the job leaves the FIFO. -/
theorem filter_accepted (hz : s.zeroTransfer i = false) (hl : s.lengthZero i = false) :
    (s.accepted i).filter (·.last) = if s.ndReqReady i then [⟨s.issued, true⟩] else [] := by
  cases hj : s.head with
  | none => simp [accepted, burst_of_none hj, hj, ndReqReady, Midend.ndReqReady]
  | some j =>
    have hready : s.ndReqReady i = (s.midend.last s.head && i.reqReady) := by
      simp [ndReqReady, Midend.ndReqReady, hj]
    by_cases hr : j.reps = 0
    · have hnot : s.ndReqReady i = false := by
        by_contra hne
        have := zeroTransfer_iff.mpr ⟨by simpa using hne, j, hj, hr⟩
        rw [hz] at this
        exact Bool.false_ne_true this
      simp [accepted, burst_of_zero hj hr, hnot]
    · cases hrdy : i.reqReady with
      | false => simp [accepted, burst_of_pos hj hr, hready, hrdy]
      | true =>
        have hlen : j.length ≠ 0 := by
          intro hlen
          rw [lengthZero_iff.mpr ⟨hrdy, j, hj, hr, hlen⟩] at hl
          exact Bool.noConfusion hl
        have hacc : s.accepted i = [⟨s.issued, s.midend.last s.head⟩] := by
          rw [accepted, burst_of_pos hj hr]
          refine if_pos ?_
          rw [hrdy, Bool.true_and, bne_iff_ne]
          exact hlen
        rw [hready, hrdy, hacc]
        cases s.midend.last s.head <;> rfl

/-- Otherwise the pulse for the done counter is the end of a job. -/
theorem retire_of_late (hz : s.zeroTransfer i = false) (hl : s.lengthZero i = false) :
    s.retire i = (s.retiredJob i).isSome := by
  rw [retire_eq, retiredJob, burstRsp, dpRsp, hz, hl]
  cases hb : s.inFlight with
  | nil => simp
  | cons b l => cases hlast : b.last <;> cases i.dpRspValid <;> simp [hlast]

/-- The transfers in flight after a cycle without an early answer: the oldest may have ended a job,
and a job that leaves the FIFO adds its last one. -/
theorem inFlight_of_late (h : s.Inv ids done) (hz : s.zeroTransfer i = false)
    (hl : s.lengthZero i = false) :
    ∃ k ≤ 1, (s.retiredJob i).toList = List.range' done.length k ∧ done.length + k ≤ s.issued ∧
      ((s.inFlight.drop (s.dpRsp i).isSome.toNat).filter (·.last)).map (·.job) =
        List.range' (done.length + k) (s.issued - (done.length + k)) := by
  have hold := h.inFlight
  have hle := h.done_le
  rw [retiredJob, hz, hl, if_neg Bool.false_ne_true, if_neg Bool.false_ne_true]
  cases hd : s.dpRsp i with
  | none => exact ⟨0, by omega, rfl, by omega, by simpa using hold⟩
  | some b =>
    have hb : s.inFlight.head? = some b := by
      rw [dpRsp] at hd
      split at hd
      · exact hd
      · cases hd
    obtain ⟨l, hin⟩ : ∃ l, s.inFlight = b :: l := by
      cases hi : s.inFlight with
      | nil => simp [hi] at hb
      | cons c l =>
        simp [hi] at hb
        exact ⟨l, by rw [hb]⟩
    rw [hin] at hold ⊢
    cases hlast : b.last with
    | false =>
      refine ⟨0, by omega, by simp [hlast], by omega, ?_⟩
      simpa [hlast] using hold
    | true =>
      -- the oldest transfer in flight that ends a job belongs to the oldest job that is not done
      simp only [List.filter_cons, hlast, if_true, List.map_cons] at hold
      obtain ⟨n, hn⟩ : ∃ n, s.issued - done.length = n + 1 := by
        refine ⟨s.issued - done.length - 1, ?_⟩
        have hlen := congrArg List.length hold
        simp only [List.length_cons, List.length_range'] at hlen
        omega
      rw [hn, List.range'_succ, List.cons.injEq] at hold
      refine ⟨1, le_rfl, ?_, by omega, ?_⟩
      · simp [hlast, hold.1]
      · rw [show s.issued - (done.length + 1) = n by omega]
        exact hold.2

theorem counterQ_next (h : s.Inv ids done) (hreps : ∀ j, (s.next i).head = some j → j.reps = 1) :
    (s.next i).midend.counterQ = 1 := by
  cases hj : s.head with
  | none =>
    have hold := h.counterQ (by simp [hj])
    simpa [next, Midend.next, hj] using hold
  | some j =>
    have hready : s.ndReqReady i = (s.midend.stageDone (some j) && i.reqReady) := by
      simp [ndReqReady, Midend.ndReqReady, Midend.last, hj]
    have hcounter : (s.next i).midend.counterQ = if s.ndReqReady i then 1
        else if i.reqReady then s.midend.counterQ + 1 else s.midend.counterQ := by
      simp [next, Midend.next, hj, hready]
    rw [hcounter]
    split_ifs with hr hrdy
    · rfl
    all_goals
      -- the job stays, and a single repetition would have been the last
      have hhead := head_next (i := i) (by rw [hj]; rfl) (by simpa using hr)
      have hone : ∀ j', s.head = some j' → j'.reps = 1 := fun j' h' => hreps j' (hhead.trans h')
      have hold := h.counterQ hone
    · exfalso
      have hrep : j.reps = 1 := hone j hj
      rw [hready, hrdy] at hr
      simp [Midend.stageDone, Midend.localRep, hrep, hold] at hr
    · exact hold

/-- The identifiers returned so far, after a cycle. -/
theorem ids_next (h : s.Inv ids done) (ho : s.Orderly i) :
    (ids ++ if s.port.jobReqValid then [s.port.nextQ] else []).map BitVec.toNat =
      List.range' 2 ((s.next i).issued + (s.next i).port.jobs.store.items.length) := by
  have hlen : (s.next i).port.jobs.store.items.length + (s.ndReqReady i).toNat =
      s.port.jobs.store.items.length + s.port.enqueues.toNat := by
    have := ConfigPort.length_jobs_next (s := s.port) (s.portIn i)
    rwa [portIn, issue_eq] at this
  have hissued : (s.next i).issued = s.issued + (s.ndReqReady i).toNat := by
    rw [next, issue_eq]
  have hsum : (s.next i).issued + (s.next i).port.jobs.store.items.length =
      s.issued + s.port.jobs.store.items.length + s.port.enqueues.toNat := by omega
  rw [hsum]
  cases hv : s.port.jobReqValid with
  | false =>
    have henq : s.port.enqueues = false := by simp [ConfigPort.enqueues, StreamFifo.push, hv]
    simpa [henq] using h.ids_eq
  | true =>
    have hempty := ho.launch hv
    have henq : s.port.enqueues = true := ConfigPort.enqueues_iff.mpr ⟨hv, by simp [hempty]⟩
    have hids := h.ids_eq
    rw [hempty, List.length_nil, Nat.add_zero] at hids
    rw [if_pos rfl, List.map_append, hids, henq, hempty, List.length_nil, Bool.toNat_true,
      Nat.add_zero, List.range'_concat, List.map_singleton, h.nextQ, Nat.one_mul]

/-- **One orderly cycle keeps the invariant.** -/
theorem inv_next (h : s.Inv ids done) (ho : s.Orderly i) (hb : ids.length < 2 ^ 31) :
    (s.next i).Inv (ids ++ if s.port.jobReqValid then [s.port.nextQ] else [])
      (done ++ (s.retiredJob i).toList) := by
  have hbound : s.issued + s.port.jobs.store.items.length < 2 ^ 31 := by
    have := congrArg List.length h.ids_eq
    simp only [List.length_map, List.length_range'] at this
    omega
  have hle := h.done_le
  have hissued : (s.next i).issued = s.issued + (s.ndReqReady i).toNat := by
    rw [next, issue_eq]
  have hnext : (s.next i).port.nextQ.toNat = 2 + (s.next i).issued := by
    have := toNat_idCount h.nextQ (by omega) (s.ndReqReady i)
    rw [hissued, ← Nat.add_assoc, ← this, ← issue_eq]
    rfl
  have hcompleted : ∀ k, (s.retire i).toNat = k →
      (s.next i).port.completedQ.toNat = 1 + (done.length + k) := by
    rintro k rfl
    rw [← Nat.add_assoc, ← toNat_idCount h.completedQ (by omega) (s.retire i)]
    rfl
  have hfl : (s.next i).inFlight = s.inFlight.drop (s.dpRsp i).isSome.toNat ++ s.accepted i := rfl
  by_cases he : s.zeroTransfer i = true ∨ s.lengthZero i = true
  · obtain ⟨hready, hempty, hret, hjob, hdp, hacc⟩ := early_spec h ho he
    -- nothing is in flight, so all earlier jobs have retired
    have hall : s.issued = done.length := by
      have := congrArg List.length h.inFlight
      simp only [hempty, List.filter_nil, List.map_nil, List.length_nil, List.length_range'] at this
      omega
    rw [hready, Bool.toNat_true] at hissued
    rw [hjob, Option.toList_some]
    exact
      { nextQ := hnext
        completedQ := by
          rw [List.length_append, List.length_singleton]; exact hcompleted 1 (by rw [hret]; rfl)
        ids_eq := ids_next h ho
        done_eq := by
          rw [List.length_append, List.length_singleton, List.range_succ, ← h.done_eq, hall]
        done_le := by rw [List.length_append, List.length_singleton]; omega
        inFlight := by
          rw [hfl, hempty, hacc, hissued, hall, List.length_append, List.length_singleton,
            Nat.sub_self]
          simp
        counterQ := fun hreps => counterQ_next h hreps }
  · simp only [not_or, Bool.not_eq_true] at he
    obtain ⟨hz, hl⟩ := he
    obtain ⟨k, hk, hjob, hdone, hrest⟩ := inFlight_of_late h hz hl
    have hlen : (done ++ List.range' done.length k).length = done.length + k := by
      rw [List.length_append, List.length_range']
    have hret : (s.retire i).toNat = k := by
      rw [retire_of_late hz hl]
      have hl' := congrArg List.length hjob
      rw [List.length_range'] at hl'
      cases hopt : s.retiredJob i with
      | none => simpa [hopt] using hl'
      | some n => simpa [hopt] using hl'
    rw [hjob]
    exact
      { nextQ := hnext
        completedQ := by rw [hlen]; exact hcompleted k hret
        ids_eq := ids_next h ho
        done_eq := by
          have happ := List.range'_append_1 (s := 0) (m := done.length) (n := k)
          rw [Nat.zero_add, ← List.range_eq_range', ← List.range_eq_range', ← h.done_eq] at happ
          rw [hlen, happ]
        done_le := by rw [hlen]; omega
        inFlight := by
          rw [hfl, List.filter_append, List.map_append, hrest, filter_accepted hz hl, hlen, hissued]
          cases s.ndReqReady i with
          | false => simp
          | true =>
            rw [if_pos rfl, Bool.toNat_true, Nat.sub_add_comm hdone, List.range'_concat,
              Nat.one_mul, Nat.add_sub_cancel' hdone]
            rfl
        counterQ := fun hreps => counterQ_next h hreps }

/-! ### Runs -/

theorem inv_init : init.Inv [] [] where
  nextQ := rfl
  completedQ := rfl
  ids_eq := rfl
  done_eq := rfl
  done_le := le_rfl
  inFlight := rfl
  counterQ := fun _ => rfl

/-- **The invariant holds throughout an orderly run.** -/
theorem inv_stateAt {ins : ℕ → IdmaIn} {T : ℕ}
    (ho : ∀ t < T, (machine.stateAt ins t).Orderly (ins t)) (hT : (launches ins T).length < 2 ^ 31)
    {t : ℕ} (ht : t ≤ T) : (machine.stateAt ins t).Inv (launches ins t) (retired ins t) := by
  induction t with
  | zero => exact inv_init
  | succ t ih =>
    have hle := (machine.log_le ins (fun s _ => if s.port.jobReqValid then [s.port.nextQ] else [])
      (show t ≤ T by omega)).length_le
    exact inv_next (ih (by omega)) (ho t (by omega)) (lt_of_le_of_lt hle hT)

/-- **Identifiers identify jobs in an orderly run** of fewer than `2 ^ 31` jobs. Distinct launches
return distinct identifiers, and `idma_is_done` holds of an identifier only if its job and every job
launched before it have retired. -/
theorem identifiers_identify {ins : ℕ → IdmaIn} {T : ℕ}
    (ho : ∀ t < T, (machine.stateAt ins t).Orderly (ins t))
    (hT : (launches ins T).length < 2 ^ 31) :
    (launches ins T).Nodup ∧
      ∀ k id, (launches ins T)[k]? = some id →
        isDone (machine.stateAt ins T).port.completedQ id = true → ∀ j ≤ k, j ∈ retired ins T := by
  have h := inv_stateAt ho hT le_rfl
  refine ⟨?_, ?_⟩
  · refine List.Nodup.of_map BitVec.toNat ?_
    rw [h.ids_eq]
    exact List.nodup_range'
  · intro k id hk hdone j hj
    have hid : id.toNat = 2 + k := by
      have hget := congrArg (·[k]?) h.ids_eq
      simp only [List.getElem?_map, hk, Option.map_some] at hget
      have hlt : k < (machine.stateAt ins T).issued +
          (machine.stateAt ins T).port.jobs.store.items.length := by
        by_contra hge
        rw [List.getElem?_eq_none (by rw [List.length_range']; omega)] at hget
        cases hget
      rw [List.getElem?_range' hlt, Nat.one_mul] at hget
      exact Option.some.inj hget
    have hle : id.toNat ≤ 1 + (retired ins T).length := by
      rw [← h.completedQ]
      exact of_decide_eq_true hdone
    rw [h.done_eq, List.mem_range]
    omega

/-- A write of 64 to the length register. -/
def setLength : CfgReq := ⟨true, 0xe0, true, 0xf, 64, 0⟩

/-- Two jobs are launched, go through the data path and are answered, one after the other. -/
def twoJobs : ℕ → IdmaIn
  | 0 => ⟨setLength, true, false⟩
  | 1 | 5 => ⟨ConfigPort.launch, true, false⟩
  | 3 | 7 => ⟨default, true, false⟩
  | 14 | 18 => ⟨default, false, true⟩
  | _ => default

instance (s : CrocIdma) (i : IdmaIn) : Decidable (s.Orderly i) :=
  decidable_of_iff ((s.port.jobReqValid = true → s.port.jobs.store.items = []) ∧
    (s.zeroTransfer i = true → s.inFlight = []) ∧
    (s.lengthZero i = true → s.inFlight = [] ∧ ∀ j ∈ s.head, j.reps = 1))
    ⟨fun h => ⟨h.1, h.2.1, h.2.2⟩, fun h => ⟨h.launch, h.zeroTransfer, h.lengthZero⟩⟩

/-- The identifiers are 2 and 3. After the first answer the second job does not count as done; after
the second it does, and both jobs have retired. -/
theorem identifiers_identify_twoJobs :
    launches twoJobs 19 = [2, 3] ∧ (launches twoJobs 19).Nodup ∧
      isDone (machine.stateAt twoJobs 15).port.completedQ 2 = true ∧
      isDone (machine.stateAt twoJobs 15).port.completedQ 3 = false ∧ retired twoJobs 15 = [0] ∧
      isDone (machine.stateAt twoJobs 19).port.completedQ 3 = true ∧
      ∀ j ≤ 1, j ∈ retired twoJobs 19 := by
  have ho : ∀ t < 19, (machine.stateAt twoJobs t).Orderly (twoJobs t) := by decide +kernel
  have hids : launches twoJobs 19 = [2, 3] := by decide +kernel
  have hdone : isDone (machine.stateAt twoJobs 19).port.completedQ 3 = true := by decide +kernel
  obtain ⟨hnodup, hretired⟩ := identifiers_identify ho (by rw [hids]; decide)
  exact ⟨hids, hnodup, by decide +kernel, by decide +kernel, by decide +kernel, hdone,
    hretired 1 3 (by rw [hids]; rfl) hdone⟩

/-- Three launches, each granted at once and into a FIFO with room. The first job keeps the backend
busy, so the second and the third wait in the FIFO together. -/
def threeJobs : ℕ → IdmaIn
  | 0 => ⟨setLength, true, false⟩
  | 1 => ⟨ConfigPort.launch, true, false⟩
  | 3 | 20 => ⟨default, true, false⟩
  | 4 | 6 => ⟨ConfigPort.launch, false, false⟩
  | 30 | 60 => ⟨default, false, true⟩
  | _ => default

/-- The second and the third launch return the same identifier, and `idma_is_done` holds of it as
soon as the second job has retired, while the third is still in the FIFO. -/
theorem identifiers_clash :
    (∀ t < 61, ConfigPort.launchReq (threeJobs t).cfg = true →
      (machine.stateAt threeJobs t).port.grants (threeJobs t).cfg = true) ∧
    (∀ t < 61, (machine.stateAt threeJobs t).port.jobReqValid = true →
      (machine.stateAt threeJobs t).port.jobReqReady = true) ∧
    launches threeJobs 61 = [2, 3, 3] ∧
    isDone (machine.stateAt threeJobs 61).port.completedQ 3 = true ∧ 2 ∉ retired threeJobs 61 := by
  decide +kernel

end CrocIdma

end Idma

end Croc
