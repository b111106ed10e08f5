import Croc.Idma.Identifiers

/-!
# Jobs

The midend cuts a job of two dimensions into transfers, one for each repetition. Its counter says
how many it has handed over, and its address pointers hold the next source and destination, however
long the backend makes it wait.

## Main definitions

* `NdReq.transfer`, `NdReq.expand`: the transfers of a job.
* `Midend.InJob`: where the midend is within a job.
* `CrocIdma.handedOver`: what of the job at the head has been handed over.

## Main results

* `CrocIdma.Tracks.next`: the counter and the address pointers of the midend.
* `CrocIdma.conserved_bursts`: the transfers that are handed over are those of the jobs, in order.
-/

namespace Croc

namespace Idma

open Clocked

open Bits (Word)

/-! ### The transfers of a job -/

/-- Repetition `n` of a job. -/
def NdReq.transfer (j : NdReq) (n : ℕ) : BurstReq where
  length := j.length
  srcAddr := j.srcAddr + BitVec.ofNat 32 n * j.srcStrides
  dstAddr := j.dstAddr + BitVec.ofNat 32 n * j.dstStrides
  last := n + 1 == j.reps.toNat

/-- The transfers of a job that move something. -/
def NdReq.expand (j : NdReq) : List BurstReq :=
  if j.length = 0 then [] else (List.range j.reps.toNat).map j.transfer

/-- The product of a stride with one more repetition. -/
theorem ofNat_succ_mul (n : ℕ) (x : Word) :
    BitVec.ofNat 32 (n + 1) * x = BitVec.ofNat 32 n * x + x := by
  rw [BitVec.ofNat_add, BitVec.add_mul, BitVec.one_mul]

/-- The source of the next repetition is one stride further. -/
theorem NdReq.srcAddr_transfer_succ (j : NdReq) (n : ℕ) :
    (j.transfer (n + 1)).srcAddr = (j.transfer n).srcAddr + j.srcStrides := by
  simp only [transfer, ofNat_succ_mul, BitVec.add_assoc]

/-- The destination of the next repetition is one stride further. -/
theorem NdReq.dstAddr_transfer_succ (j : NdReq) (n : ℕ) :
    (j.transfer (n + 1)).dstAddr = (j.transfer n).dstAddr + j.dstStrides := by
  simp only [transfer, ofNat_succ_mul, BitVec.add_assoc]

theorem NdReq.expand_of_length_zero {j : NdReq} (h : j.length = 0) : j.expand = [] := if_pos h

/-- A job without repetitions moves nothing. -/
theorem NdReq.expand_of_reps_zero {j : NdReq} (h : j.reps = 0) : j.expand = [] := by
  rw [expand, h]
  split <;> rfl

/-- The first `n + 1` transfers of a job are the first `n` and repetition `n`. -/
theorem NdReq.take_succ_expand {j : NdReq} {n : ℕ} (hl : j.length ≠ 0) (hn : n < j.reps.toNat) :
    j.expand.take (n + 1) = j.expand.take n ++ [j.transfer n] := by
  rw [expand, if_neg hl, List.take_add_one, List.getElem?_map, List.getElem?_range hn]
  rfl

/-! ### The midend within a job -/

/-- The midend is about to begin a job. -/
def Midend.Fresh (m : Midend) : Prop := m.counterQ = 1 ∧ m.strideSelQ = true

/-- The midend has handed over all transfers of `j` before number `counterQ`, counted from one. -/
structure Midend.InJob (m : Midend) (j : NdReq) : Prop where
  /-- The counter starts from one. -/
  pos : 1 ≤ m.counterQ.toNat
  /-- The counter does not go beyond the repetitions. -/
  le : m.counterQ.toNat ≤ max 1 j.reps.toNat
  /-- The source of the next transfer. -/
  src : m.srcAddr j = (j.transfer (m.counterQ.toNat - 1)).srcAddr
  /-- The destination of the next transfer. -/
  dst : m.dstAddr j = (j.transfer (m.counterQ.toNat - 1)).dstAddr

namespace Midend

variable {m : Midend} {j : NdReq} {ready : Bool}

/-- A midend that is about to begin a job has handed over nothing of it. -/
theorem Fresh.inJob (h : m.Fresh) (j : NdReq) : m.InJob j := by
  obtain ⟨hc, hs⟩ := h
  have hone : m.counterQ.toNat = 1 := by rw [hc]; rfl
  refine ⟨hone.ge, by omega, ?_, ?_⟩
  · simp [srcAddr, hs, hone, NdReq.transfer]
  · simp [dstAddr, hs, hone, NdReq.transfer]

/-- Without a job the midend stays as it is. -/
theorem Fresh.next_none (h : m.Fresh) : (m.next none ready).Fresh := by
  obtain ⟨hc, hs⟩ := h
  exact ⟨by simp [next, hc], by simp [next, hs]⟩

/-- The last transfer of a job sets the counter and the pointers back. -/
theorem fresh_next_of_done (hdone : m.stageDone (some j) = true) :
    (m.next (some j) true).Fresh := by
  constructor <;> simp [next, hdone]

/-- A job is done at its last repetition, and at once if it has none. -/
theorem stageDone_iff (h : m.InJob j) :
    m.stageDone (some j) = true ↔ j.reps = 0 ∨ m.counterQ.toNat = j.reps.toNat := by
  have hpos := h.pos
  by_cases hr : j.reps = 0
  · simp [stageDone, localRep, hr]
  · have hrep : localRep (some j) ≠ 0 := hr
    rw [stageDone, if_neg hrep, beq_iff_eq, ← BitVec.toNat_inj]
    exact (or_iff_right hr).symm

/-- Before the last repetition the counter cannot overflow. -/
theorem InJob.lt_of_not_done (h : m.InJob j) (hdone : m.stageDone (some j) = false) :
    j.reps ≠ 0 ∧ m.counterQ.toNat < j.reps.toNat := by
  have hnot : ¬ (j.reps = 0 ∨ m.counterQ.toNat = j.reps.toNat) := by
    rw [← stageDone_iff h, hdone]
    exact Bool.false_ne_true
  have hle := h.le
  have hreps : j.reps.toNat ≠ 0 := fun hz => hnot (.inl (BitVec.eq_of_toNat_eq hz))
  have hne : m.counterQ.toNat ≠ j.reps.toNat := fun he => hnot (.inr he)
  exact ⟨fun hz => hnot (.inl hz), by omega⟩

theorem InJob.counterQ_next (h : m.InJob j) (hdone : m.stageDone (some j) = false) :
    (m.next (some j) true).counterQ.toNat = m.counterQ.toNat + 1 := by
  have hr := j.reps.isLt
  have hlt := (h.lt_of_not_done hdone).2
  have hcounter : (m.next (some j) true).counterQ = m.counterQ + 1 := by simp [Midend.next, hdone]
  rw [hcounter, BitVec.toNat_add]
  exact Nat.mod_eq_of_lt (by simp; omega)

/-- The counter and the pointers move on together, when the backend is ready. -/
theorem InJob.next (h : m.InJob j) (hstay : (m.stageDone (some j) && ready) = false) :
    (m.next (some j) ready).InJob j := by
  have hpos := h.pos
  have hle := h.le
  have hsrc := h.src
  have hdst := h.dst
  have hlt := m.counterQ.isLt
  cases ready with
  | false =>
    have hc : (m.next (some j) false).counterQ = m.counterQ := by simp [Midend.next]
    have hs : (m.next (some j) false).srcAddr j = m.srcAddr j := by
      simp [Midend.next, srcAddr]
    have hd : (m.next (some j) false).dstAddr j = m.dstAddr j := by
      simp [Midend.next, dstAddr]
    exact ⟨by rw [hc]; exact hpos, by rw [hc]; exact hle, by rw [hs, hc, hsrc],
      by rw [hd, hc, hdst]⟩
  | true =>
    have hdone : m.stageDone (some j) = false := by simpa using hstay
    obtain ⟨hreps, hlt'⟩ := h.lt_of_not_done hdone
    have hc := h.counterQ_next hdone
    have hvalid : burstReqValid (some j) = true := by
      have hz : zero (some j) = false := beq_eq_false_iff_ne.mpr hreps
      simp [burstReqValid, hz]
    have hs : (m.next (some j) true).srcAddr j = m.srcAddr j + j.srcStrides := by
      simp [Midend.next, srcAddr, hdone, hvalid]
    have hd : (m.next (some j) true).dstAddr j = m.dstAddr j + j.dstStrides := by
      simp [Midend.next, dstAddr, hdone, hvalid]
    have hn : m.counterQ.toNat + 1 - 1 = m.counterQ.toNat - 1 + 1 := by omega
    refine ⟨by omega, by omega, ?_, ?_⟩
    · rw [hs, hc, hsrc, hn, NdReq.srcAddr_transfer_succ]
    · rw [hd, hc, hdst, hn, NdReq.dstAddr_transfer_succ]

end Midend

/-! ### The midend in a run -/

namespace CrocIdma

variable {s : CrocIdma} {i : IdmaIn}

/-- The midend is where the transfers that it has handed over say. -/
structure Tracks (s : CrocIdma) : Prop where
  /-- Between jobs. -/
  fresh : s.head = none → s.midend.Fresh
  /-- Within a job. -/
  inJob : ∀ j, s.head = some j → s.midend.InJob j

theorem tracks_of_fresh (h : s.midend.Fresh) : s.Tracks := ⟨fun _ => h, fun j _ => h.inJob j⟩

/-- A job leaves the FIFO when its last transfer is taken. -/
theorem ndReqReady_eq {j : NdReq} (hj : s.head = some j) :
    s.ndReqReady i = (s.midend.stageDone (some j) && i.reqReady) := by
  simp [ndReqReady, Midend.ndReqReady, Midend.last, hj]

/-- A clock edge keeps the midend in step with the job at the head. -/
theorem Tracks.next (h : s.Tracks) : (s.next i).Tracks := by
  cases hj : s.head with
  | none =>
    refine tracks_of_fresh ?_
    have hnext : (s.next i).midend = s.midend.next none i.reqReady := by rw [CrocIdma.next, hj]
    rw [hnext]
    exact (h.fresh hj).next_none
  | some j =>
    have hnext : (s.next i).midend = s.midend.next (some j) i.reqReady := by rw [CrocIdma.next, hj]
    cases hready : s.ndReqReady i with
    | true =>
      rw [ndReqReady_eq hj, Bool.and_eq_true] at hready
      refine tracks_of_fresh ?_
      rw [hnext, hready.2]
      exact Midend.fresh_next_of_done hready.1
    | false =>
      have hhead : (s.next i).head = some j := by rw [head_next (by rw [hj]; rfl) hready, hj]
      refine ⟨fun hnone => ?_, fun j' hj' => ?_⟩
      · rw [hhead] at hnone
        cases hnone
      · rw [hhead] at hj'
        cases hj'
        rw [hnext]
        exact (h.inJob j hj).next (by rw [← ndReqReady_eq hj]; exact hready)

/-- The transfer that the midend offers. -/
theorem burst_eq (h : s.Tracks) {j : NdReq} (hj : s.head = some j) (hr : j.reps ≠ 0) :
    s.burst = some (j.transfer (s.midend.counterQ.toNat - 1)) := by
  have hin := h.inJob j hj
  have hpos := hin.pos
  rw [burst_of_pos hj hr, hin.src, hin.dst]
  congr 1
  rw [NdReq.transfer, BurstReq.mk.injEq]
  refine ⟨rfl, rfl, rfl, ?_⟩
  have hlast : s.midend.last s.head = s.midend.stageDone (some j) := by simp [Midend.last, hj]
  rw [hlast, Bool.eq_iff_iff, Midend.stageDone_iff hin, beq_iff_eq, or_iff_right hr]
  omega

/-- What of the job at the head has been handed over. -/
def handedOver (s : CrocIdma) : List BurstReq := match s.head with
  | some j => j.expand.take (s.midend.counterQ.toNat - 1)
  | none => []

/-- The job that leaves the FIFO in a cycle. -/
def leaving (s : CrocIdma) (i : IdmaIn) : List NdReq := if s.ndReqReady i then s.head.toList else []

/-- The transfer that moves something and is taken in a cycle. -/
def takenBurst (s : CrocIdma) (i : IdmaIn) : List BurstReq :=
  match s.burst with
  | some b => if i.reqReady && b.length != 0 then [b] else []
  | none => []

theorem takenBurst_eq (h : s.Tracks) {j : NdReq} (hj : s.head = some j) (hr : j.reps ≠ 0) :
    s.takenBurst i =
      if i.reqReady && j.length != 0 then [j.transfer (s.midend.counterQ.toNat - 1)] else [] := by
  rw [takenBurst, burst_eq h hj hr]
  rfl

/-- Nothing has been handed over of a job that has not begun. -/
theorem handedOver_of_fresh (h : s.midend.Fresh) : s.handedOver = [] := by
  rw [handedOver, h.1]
  cases s.head <;> rfl

/-- **The midend.** What has been handed over of a job, and what is handed over now, is a job that
leaves, or what has been handed over afterwards. -/
theorem conserved_bursts (h : s.Tracks) : s.handedOver ++ s.takenBurst i =
    (s.leaving i).flatMap NdReq.expand ++ (s.next i).handedOver := by
  cases hj : s.head with
  | none =>
    have hnext : (s.next i).midend = s.midend.next none i.reqReady := by rw [CrocIdma.next, hj]
    have hfresh : (s.next i).midend.Fresh := by
      rw [hnext]
      exact (h.fresh hj).next_none
    rw [handedOver_of_fresh (h.fresh hj), handedOver_of_fresh hfresh, takenBurst, leaving, hj,
      burst_of_none hj]
    cases s.ndReqReady i <;> rfl
  | some j =>
    have hin := h.inJob j hj
    have hpos := hin.pos
    have hnext : (s.next i).midend = s.midend.next (some j) i.reqReady := by rw [CrocIdma.next, hj]
    have hover : s.handedOver = j.expand.take (s.midend.counterQ.toNat - 1) := by
      rw [handedOver, hj]
    have hready : s.ndReqReady i = (s.midend.stageDone (some j) && i.reqReady) := ndReqReady_eq hj
    cases hnd : s.ndReqReady i with
    | true =>
      rw [hnd, eq_comm, Bool.and_eq_true] at hready
      have hfresh : (s.next i).midend.Fresh := by
        rw [hnext, hready.2]
        exact Midend.fresh_next_of_done hready.1
      rw [handedOver_of_fresh hfresh, hover, leaving, hnd, hj, if_pos rfl, Option.toList_some,
        List.flatMap_singleton, List.append_nil]
      rcases (Midend.stageDone_iff hin).mp hready.1 with hr | hc
      · rw [takenBurst, burst_of_zero hj hr, NdReq.expand_of_reps_zero hr, List.take_nil]
        rfl
      · have hr : j.reps ≠ 0 := fun hz => by
          have : j.reps.toNat = 0 := by rw [hz]; rfl
          omega
        rw [takenBurst_eq h hj hr, hready.2, Bool.true_and]
        by_cases hl : j.length = 0
        · simp [hl, NdReq.expand_of_length_zero hl]
        · rw [if_pos (bne_iff_ne.mpr hl), ← NdReq.take_succ_expand hl (by omega)]
          refine List.take_of_length_le ?_
          rw [NdReq.expand, if_neg hl, List.length_map, List.length_range]
          omega
    | false =>
      have hhead : (s.next i).head = some j := by rw [head_next (by rw [hj]; rfl) hnd, hj]
      have hover' : (s.next i).handedOver =
          j.expand.take ((s.next i).midend.counterQ.toNat - 1) := by
        rw [handedOver, hhead]
      rw [hover, hover', leaving, hnd, if_neg Bool.false_ne_true, List.flatMap_nil, List.nil_append,
        hnext]
      cases hreq : i.reqReady with
      | false =>
        have hc : (s.midend.next (some j) false).counterQ = s.midend.counterQ := by
          simp [Midend.next]
        rw [hc, takenBurst, hreq]
        cases s.burst <;> simp
      | true =>
        have hdone : s.midend.stageDone (some j) = false := by
          rw [hnd, hreq, Bool.and_true] at hready
          exact hready.symm
        obtain ⟨hr, hlt⟩ := hin.lt_of_not_done hdone
        rw [takenBurst_eq h hj hr, hreq, Bool.true_and, hin.counterQ_next hdone]
        by_cases hl : j.length = 0
        · simp [hl, NdReq.expand_of_length_zero hl]
        · rw [if_pos (bne_iff_ne.mpr hl), ← NdReq.take_succ_expand hl (by omega),
            Nat.sub_add_cancel hpos, Nat.add_sub_cancel]

end CrocIdma

end Idma

end Croc
