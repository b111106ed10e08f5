import Croc.Idma.Dealing

/-!
# What passes through the backend

Every FIFO of the backend keeps what goes in: the log of what went in is the log of what came out,
followed by what is held. Together with the legalizer this ties the beats of the transfers that were
taken to the addresses on the two ports, to the answers, and to the marks that are counted off.

The one thing that is asked of the two ports is that they answer only what was requested. The
converters let a request out only if they have room for its answer, so nothing is lost on the way
back.

## Main definitions

* `Backend.transfers`, `Backend.readLog`, `Backend.rspLog`, `Backend.writeLog`, `Backend.ackLog`,
  `Backend.reportLog`: what has passed before a cycle.
* `Backend.Disciplined`: both ports answer only what was requested.

## Main results

* `Backend.log_readBeat`, `Backend.log_writeBeat`, `Backend.log_writeMark`: the legalizer cuts the
  transfers into beats.
* `Backend.log_reads`, `Backend.log_writes`: the beats go to the ports.
* `Backend.Disciplined.log_received`: no answer to a read is lost.
* `Backend.Disciplined.log_answered`: the marks are counted off in order.
-/

namespace Croc

namespace Idma

open Clocked ByteMemory

open Bits (Word)

namespace Backend

variable (s : Backend) (i : BackendIn)

/-! ### What passes in a cycle -/

/-- The beat that goes to the read side. -/
def readBeat : List Shifted := s.legalizer.readBeat s.rReady s.wReady

/-- The beat that goes to the write side. -/
def writeBeat : List Shifted := s.legalizer.writeBeat s.rReady s.wReady

/-- The marks of the beat that goes to the write side. -/
def writeMark : List (Bool × Bool) := s.legalizer.writeMark s.rReady s.wReady

/-- The read that is granted: its address. -/
def reads : List Word := if i.rGnt then (s.readReq i).toList else []

/-- The answer to a read that the data path takes. -/
def received : List Word := if s.rRready i then (s.rOut i).toList else []

/-- The request to the data path that is done with a read. -/
def rPopped : List DpReq := if s.rDpReady i then [s.rDp i] else []

/-- The write that is granted. -/
def writes : List Write := if i.wGnt then (s.writeReq i).toList else []

/-- The request to the data path that is done with a write. -/
def wPopped : List DpReq := if s.writeHappening i then [s.wDp i] else []

/-- The marks of the write whose answer is taken. -/
def answered : List (Bool × Bool) := if s.wDpRspValid i && s.rspReady i then [s.marks i] else []

/-- The bytes that are dealt to the lanes. -/
def dealt : List (Offset × BitVec 8) :=
  (s.received i).flatMap fun d => (s.rDp i).positions.map fun p =>
    (p - (s.rDp i).shift, byteOf d p.toNat)

/-- The bytes that are taken from the lanes. -/
def collected : List (Offset × BitVec 8) :=
  if s.writeHappening i then
    (s.wDp i).positions.map fun p => (p + (s.wDp i).shift, s.laneOut i (p + (s.wDp i).shift))
  else []

variable {s i}

/-! ### One cycle -/

theorem rReady_of_rValid (h : s.rValid = true) : s.rReady = true := by
  simp only [rValid, Legalizer.rValidO, Legalizer.rTfEna, Bool.and_eq_true] at h
  have h2 := h.2
  split at h2
  · exact h2
  · exact (Bool.and_eq_true _ _ ▸ h2).1

theorem wReady_of_wValid (h : s.wValid = true) : s.wReady = true := by
  simp only [wValid, Legalizer.wValidO, Legalizer.wTfEna, Bool.and_eq_true] at h
  have h2 := h.2
  split at h2
  · exact h2
  · exact (Bool.and_eq_true _ _ ▸ h2).2

theorem valid_of_rValid (h : s.rValid = true) : s.legalizer.rTf.valid = true :=
  (Bool.and_eq_true _ _ ▸ h : _ ∧ _).1

theorem valid_of_wValid (h : s.wValid = true) : s.legalizer.wTf.valid = true :=
  (Bool.and_eq_true _ _ ▸ h : _ ∧ _).1

theorem readBeat_map {β : Type*} (f : Shifted → β) : s.readBeat.map f =
    if s.rValid then [f ⟨s.legalizer.rTf.beat, s.legalizer.optTf.readShift⟩] else [] := by
  rw [readBeat, Legalizer.readBeat, ← rValid]
  cases s.rValid <;> rfl

theorem writeBeat_map {β : Type*} (f : Shifted → β) : s.writeBeat.map f =
    if s.wValid then [f ⟨s.legalizer.wTf.beat, s.legalizer.optTf.writeShift⟩] else [] := by
  rw [writeBeat, Legalizer.writeBeat, ← wValid]
  cases s.wValid <;> rfl

/-- The requests to the data path of the read side. -/
theorem conserved_rDp (h : s.legalizer.Engaged) :
    s.rDpReqs.store.items ++ s.readBeat.map Shifted.dpReq =
      s.rPopped i ++ (s.next i).rDpReqs.store.items := by
  have hbeat : s.readBeat.map Shifted.dpReq = if s.rValid then [s.legalizer.rDpReq] else [] := by
    rw [readBeat_map]
    cases hv : s.rValid with
    | false => rfl
    | true => rw [if_pos rfl, if_pos rfl, Legalizer.rDpReq_eq h (valid_of_rValid hv)]
  rw [hbeat]
  refine StreamFifo.conserved_of_handshake (fun hv => ?_) (fun hr => ?_) i.stale.rDp
  · exact (Bool.and_eq_true _ _ ▸ rReady_of_rValid hv : _ ∧ _).1
  · simp only [rDpReady, Bool.and_eq_true] at hr
    exact hr.1.1.1

/-- The addresses of the reads. -/
theorem conserved_ar : s.arReg.store.items ++ s.readBeat.map (fun b => wordOf b.beat.addr) =
    s.reads i ++ (s.next i).arReg.store.items := by
  have hbeat : s.readBeat.map (fun b => wordOf b.beat.addr) = s.arOffer.toList := by
    rw [readBeat_map, arOffer]
    cases s.rValid <;> rfl
  have hout : s.reads i = if s.rConv.gntO false i.rRsp (s.rRready i) i.rGnt then s.arDp.toList
      else [] := by
    rw [reads, readReq, RreadyConverter.gntO, RreadyConverter.reqO]
    cases i.rGnt <;> cases s.arDp <;> cases s.rConv.mayPass false i.rRsp (s.rRready i) <;> rfl
  rw [hbeat, hout]
  refine FallThroughFifo.conserved_of_handshake fun hoffer => ?_
  have hv : s.rValid = true := by
    by_contra hne
    simp [arOffer, hne] at hoffer
  exact (Bool.and_eq_true _ _ ▸ rReady_of_rValid hv : _ ∧ _).2

/-- The answers to the reads. -/
theorem conserved_rRsp (hroom : i.rRsp.isSome = true → s.rConv.responses.readyO = true) :
    s.rConv.responses.store.items ++ i.rRsp.toList =
      s.received i ++ (s.next i).rConv.responses.store.items :=
  FallThroughFifo.conserved_of_handshake hroom

/-- The requests to the data path of the write side. -/
theorem conserved_wDp (h : s.legalizer.Engaged) :
    s.wDpReqs.store.items ++ s.writeBeat.map Shifted.dpReq =
      s.wPopped i ++ (s.next i).wDpReqs.store.items := by
  have hbeat : s.writeBeat.map Shifted.dpReq = if s.wValid then [s.legalizer.wDpReq] else [] := by
    rw [writeBeat_map]
    cases hv : s.wValid with
    | false => rfl
    | true => rw [if_pos rfl, if_pos rfl, Legalizer.wDpReq_eq h (valid_of_wValid hv)]
  rw [hbeat]
  refine StreamFifo.conserved_of_handshake (fun hv => ?_) (fun hw => ?_) i.stale.wDp
  · have hready := wReady_of_wValid hv
    simp only [wReady, Bool.and_eq_true] at hready
    exact hready.1.1
  · simp only [writeHappening, readyToWrite, Bool.and_eq_true] at hw
    exact hw.1.1.1.2

/-- A write is granted exactly if it happens. -/
theorem writes_eq : s.writes i =
    if s.writeHappening i then
      s.awDp.toList.map fun addr => ⟨addr, (s.wDp i).mask,
        rotateBytes (s.bufferOut i) (s.wDp i).shift &&& Bits.byteMask (s.wDp i).mask⟩
    else [] := by
  rw [writes, writeReq, writeHappening, RreadyConverter.gntO, RreadyConverter.reqO]
  cases i.wGnt <;> cases s.awDp <;> cases s.readyToWrite i <;>
    cases s.wConv.mayPass true i.wRsp (s.rspReady i) <;> rfl

theorem awDp_of_writeHappening (h : s.writeHappening i = true) : s.awDp.isSome = true := by
  simp only [writeHappening, readyToWrite, Bool.and_eq_true] at h
  exact h.1.1.1.1

/-- The addresses of the writes. -/
theorem conserved_aw : s.awFifo.store.items ++ s.writeBeat.map (fun b => wordOf b.beat.addr) =
    (s.writes i).map Write.addr ++ (s.next i).awFifo.store.items := by
  have hvalid : (s.wValid && s.awFifo.readyO) = s.wValid := by
    cases hv : s.wValid with
    | false => rfl
    | true =>
      have hready := wReady_of_wValid hv
      simp only [wReady, Bool.and_eq_true] at hready
      rw [hready.1.2]
      rfl
  have hbeat : s.writeBeat.map (fun b => wordOf b.beat.addr) =
      if s.wValid && s.awFifo.readyO then [s.legalizer.awReq] else [] := by
    rw [writeBeat_map, hvalid]
    rfl
  have hout : (s.writes i).map Write.addr =
      if s.writeHappening i && s.awDp.isSome then [s.awFifo.store.items.headD 0] else [] := by
    rw [writes_eq, awDp]
    cases s.writeHappening i <;> cases s.awFifo.store.items <;> rfl
  rw [hbeat, hout]
  refine StreamFifo.conserved_of_handshake (fun hv => ?_) (fun hw => ?_) 0
  · exact (Bool.and_eq_true _ _ ▸ hv : _ ∧ _).2
  · rw [StreamFifo.validO_eq_isSome]
    exact (Bool.and_eq_true _ _ ▸ hw : _ ∧ _).2

/-- The marks of the writes. -/
theorem conserved_wLast (hpop : (s.wDpRspValid i && s.rspReady i) = true → s.wLast.validO = true) :
    s.wLast.store.items ++ s.writeMark = s.answered i ++ (s.next i).wLast.store.items := by
  have hvalid : (s.wValid && s.wReady) = s.wValid := by
    cases hv : s.wValid with
    | false => rfl
    | true => exact wReady_of_wValid hv
  have hmark : s.writeMark =
      if s.wValid && s.wReady then [(s.legalizer.optTf.superLast, s.legalizer.wDone)] else [] := by
    rw [hvalid]
    rfl
  rw [hmark]
  refine StreamFifo.conserved_of_handshake (fun hv => ?_) hpop i.stale.marks
  have hready := (Bool.and_eq_true _ _ ▸ hv : _ ∧ _).2
  simp only [wReady, Bool.and_eq_true] at hready
  exact hready.2

/-! ### Runs -/

/-- The transfers that were taken before cycle `t`. -/
def transfers (ins : ℕ → BackendIn) (t : ℕ) : List BurstReq :=
  machine.log ins (fun s i => (s.taken i).toList) t

/-- The addresses of the reads that were granted before cycle `t`. -/
def readLog (ins : ℕ → BackendIn) (t : ℕ) : List Word := machine.log ins reads t

/-- The answers to reads that came in before cycle `t`. -/
def rspLog (ins : ℕ → BackendIn) (t : ℕ) : List Word := machine.log ins (fun _ i => i.rRsp.toList) t

/-- The writes that were granted before cycle `t`. -/
def writeLog (ins : ℕ → BackendIn) (t : ℕ) : List Write := machine.log ins writes t

/-- The answers to writes that came in before cycle `t`. -/
def ackLog (ins : ℕ → BackendIn) (t : ℕ) : List Unit := machine.log ins (fun _ i => i.wRsp.toList) t

/-- The transfers that were reported as finished before cycle `t`: their `last` flags. -/
def reportLog (ins : ℕ → BackendIn) (t : ℕ) : List Bool :=
  machine.log ins (fun s i => (s.report i).toList) t

/-- The two ports answer only what was requested. -/
structure Disciplined (ins : ℕ → BackendIn) : Prop where
  /-- A read is answered after it was granted. -/
  read : ∀ t, (ins t).rRsp.isSome = true → (rspLog ins t).length < (readLog ins t).length
  /-- A write is answered after it was granted. -/
  write : ∀ t, (ins t).wRsp.isSome = true → (ackLog ins t).length < (writeLog ins t).length

section Run

variable (ins : ℕ → BackendIn) (t : ℕ)

theorem engaged : (machine.stateAt ins t).legalizer.Engaged :=
  Machine.stateAt_inv' (I := fun s : Backend => s.legalizer.Engaged) Legalizer.engaged_init
    (fun _ _ h => h.next) t

/-- The beats of the read side. -/
theorem log_readBeat : (transfers ins t).flatMap BurstReq.readBeats =
    machine.log ins (fun s _ => s.readBeat) t ++
      (machine.stateAt ins t).legalizer.pendingReads := by
  rw [transfers, ← Machine.log_flatMap]
  exact Machine.log_conserved machine ins (fun s => s.legalizer.pendingReads) rfl
    (fun u => Legalizer.conserved_read (engaged ins u)) t

/-- The beats of the write side. -/
theorem log_writeBeat : (transfers ins t).flatMap BurstReq.writeBeats =
    machine.log ins (fun s _ => s.writeBeat) t ++
      (machine.stateAt ins t).legalizer.pendingWrites := by
  rw [transfers, ← Machine.log_flatMap]
  exact Machine.log_conserved machine ins (fun s => s.legalizer.pendingWrites) rfl
    (fun u => Legalizer.conserved_write (engaged ins u)) t

/-- The marks of the beats. -/
theorem log_writeMark : (transfers ins t).flatMap BurstReq.writeMarks =
    machine.log ins (fun s _ => s.writeMark) t ++
      (machine.stateAt ins t).legalizer.pendingMarks := by
  rw [transfers, ← Machine.log_flatMap]
  exact Machine.log_conserved machine ins (fun s => s.legalizer.pendingMarks) rfl
    (fun u => Legalizer.conserved_marks (engaged ins u)) t

theorem log_rPopped : (machine.log ins (fun s _ => s.readBeat) t).map Shifted.dpReq =
    machine.log ins rPopped t ++ (machine.stateAt ins t).rDpReqs.store.items := by
  rw [← Machine.log_map]
  exact Machine.log_conserved machine ins (fun s => s.rDpReqs.store.items) rfl
    (fun u => conserved_rDp (engaged ins u)) t

theorem log_reads : (machine.log ins (fun s _ => s.readBeat) t).map (fun b => wordOf b.beat.addr) =
    readLog ins t ++ (machine.stateAt ins t).arReg.store.items := by
  rw [← Machine.log_map]
  exact Machine.log_conserved machine ins (fun s => s.arReg.store.items) rfl
    (fun _ => conserved_ar) t

theorem log_wPopped : (machine.log ins (fun s _ => s.writeBeat) t).map Shifted.dpReq =
    machine.log ins wPopped t ++ (machine.stateAt ins t).wDpReqs.store.items := by
  rw [← Machine.log_map]
  exact Machine.log_conserved machine ins (fun s => s.wDpReqs.store.items) rfl
    (fun u => conserved_wDp (engaged ins u)) t

theorem log_writes :
    (machine.log ins (fun s _ => s.writeBeat) t).map (fun b => wordOf b.beat.addr) =
    (writeLog ins t).map Write.addr ++ (machine.stateAt ins t).awFifo.store.items := by
  rw [writeLog, ← Machine.log_map, ← Machine.log_map]
  exact Machine.log_conserved machine ins (fun s => s.awFifo.store.items) rfl
    (fun _ => conserved_aw) t

/-! ### The converters -/

variable {ins}

theorem length_received {s : Backend} {i : BackendIn} :
    (s.received i).length = (s.rConv.give i.rRsp (s.rRready i)).toNat := by
  rw [received, rOut, RreadyConverter.give]
  cases s.rRready i <;> cases s.rConv.out i.rRsp <;> rfl

theorem length_reads {s : Backend} {i : BackendIn} : (s.reads i).length =
    (s.rConv.take false i.rRsp (s.rRready i) s.arDp.isSome i.rGnt).toNat := by
  rw [reads, readReq, RreadyConverter.take, RreadyConverter.reqO, RreadyConverter.reqO]
  cases s.arDp <;> cases i.rGnt <;> cases s.rConv.mayPass false i.rRsp (s.rRready i) <;> rfl

theorem length_answered {s : Backend} {i : BackendIn} :
    (s.answered i).length = (s.wConv.give i.wRsp (s.rspReady i)).toNat := by
  rw [answered, wDpRspValid, RreadyConverter.give]
  cases s.rspReady i <;> cases s.wConv.out i.wRsp <;> rfl

theorem length_writes {s : Backend} {i : BackendIn} : (s.writes i).length =
    (s.wConv.take true i.wRsp (s.rspReady i) (s.readyToWrite i) i.wGnt).toNat := by
  rw [writes_eq, RreadyConverter.take_eq, ← writeHappening]
  cases hw : s.writeHappening i with
  | false => rfl
  | true =>
    obtain ⟨a, ha⟩ := Option.isSome_iff_exists.mp (awDp_of_writeHappening hw)
    rw [ha]
    rfl

/-- The balance of the converter on the read port. -/
theorem Disciplined.balanced_read (h : Disciplined ins) : RreadyConverter.Balanced
    (machine.stateAt ins t).rConv (readLog ins t).length (machine.log ins received t).length
      (rspLog ins t).length := by
  have hreads := Machine.length_log machine ins fun u => length_reads
  have hreceived := Machine.length_log machine ins fun u => length_received
  have hrsp : ∀ u, (rspLog ins u).length = RreadyConverter.arrived (fun u => (ins u).rRsp) u :=
    Machine.length_log machine ins fun u => length_toList_eq (ins u).rRsp
  have hruns : RreadyConverter.Runs (fun u => (machine.stateAt ins u).rConv) false
      (fun u => (ins u).rRsp)
      (fun u => (machine.stateAt ins u).rRready (ins u))
      (fun u => (machine.stateAt ins u).arDp.isSome)
      (fun u => (ins u).rGnt) := by
    refine ⟨rfl, fun u => rfl, fun u hu => ?_⟩
    have hlt := h.read u hu
    rw [hrsp, readLog, hreads] at hlt
    exact hlt
  rw [readLog, hreads, hreceived, hrsp]
  exact hruns.balanced t

/-- The balance of the converter on the write port. -/
theorem Disciplined.balanced_write (h : Disciplined ins) : RreadyConverter.Balanced
    (machine.stateAt ins t).wConv (writeLog ins t).length (machine.log ins answered t).length
      (ackLog ins t).length := by
  have hwrites := Machine.length_log machine ins fun u => length_writes
  have hanswered := Machine.length_log machine ins fun u => length_answered
  have hrsp : ∀ u, (ackLog ins u).length = RreadyConverter.arrived (fun u => (ins u).wRsp) u :=
    Machine.length_log machine ins fun u => length_toList_eq (ins u).wRsp
  have hruns : RreadyConverter.Runs (fun u => (machine.stateAt ins u).wConv) true
      (fun u => (ins u).wRsp)
      (fun u => (machine.stateAt ins u).rspReady (ins u))
      (fun u => (machine.stateAt ins u).readyToWrite (ins u)) (fun u => (ins u).wGnt) := by
    refine ⟨rfl, fun u => rfl, fun u hu => ?_⟩
    have hlt := h.write u hu
    rw [hrsp, writeLog, hwrites] at hlt
    exact hlt
  rw [writeLog, hwrites, hanswered, hrsp]
  exact hruns.balanced t

/-! ### Both sides in step -/

variable {t}

/-- A read that is answered is at the head of the requests to the data path. -/
theorem Disciplined.rDpReqs_of_give (h : Disciplined ins)
    (hpopped : (machine.log ins rPopped t).length = (machine.log ins received t).length)
    (hgive : (machine.stateAt ins t).rConv.give (ins t).rRsp
      ((machine.stateAt ins t).rRready (ins t)) = true) :
    (machine.stateAt ins t).rDpReqs.validO = true := by
  have hlt := (h.balanced_read t).given_lt (h.read t) (RreadyConverter.out_of_give hgive)
  have hbeats := congrArg List.length (log_rPopped ins t)
  have hreads := congrArg List.length (log_reads ins t)
  rw [List.length_map, List.length_append] at hbeats hreads
  rw [StreamFifo.validO]
  cases hi : (machine.stateAt ins t).rDpReqs.store.items with
  | nil => simp only [hi, List.length_nil] at hbeats; omega
  | cons a l => rfl

/-- The data path is done with a request exactly when it takes an answer. -/
theorem Disciplined.length_rPopped (h : Disciplined ins) (t : ℕ) :
    (machine.log ins rPopped t).length = (machine.log ins received t).length := by
  induction t with
  | zero => rfl
  | succ t ih =>
    rw [Machine.log_succ, Machine.log_succ, List.length_append, List.length_append, ih,
      length_received]
    congr 1
    have hvalid := h.rDpReqs_of_give ih
    rw [rPopped, rDpReady]
    rw [RreadyConverter.give, ← rOut, rRready] at hvalid ⊢
    cases hout : ((machine.stateAt ins t).rOut (ins t)).isSome <;>
      cases hready : (machine.stateAt ins t).inReady (ins t) <;>
        cases hrsp : (machine.stateAt ins t).rspReady (ins t) <;> simp_all

theorem Disciplined.log_received (h : Disciplined ins) (t : ℕ) : rspLog ins t =
    machine.log ins received t ++ (machine.stateAt ins t).rConv.responses.store.items :=
  Machine.log_conserved machine ins (fun s => s.rConv.responses.store.items) rfl
    (fun u => conserved_rRsp fun hrsp => (h.balanced_read u).readyO (h.read u hrsp)) t

theorem length_wPopped (t : ℕ) : (machine.log ins wPopped t).length = (writeLog ins t).length := by
  have hcycle : ∀ (s : Backend) (i : BackendIn), (s.wPopped i).length = (s.writes i).length := by
    intro s i
    rw [length_writes, RreadyConverter.take_eq, ← writeHappening, wPopped]
    cases s.writeHappening i <;> rfl
  induction t with
  | zero => rfl
  | succ t ih =>
    rw [writeLog, Machine.log_succ, Machine.log_succ, List.length_append, List.length_append, ih,
      hcycle]
    rfl

/-- A write that is answered is at the head of the marks. -/
theorem Disciplined.wLast_of_rsp (h : Disciplined ins)
    (hmarks : machine.log ins (fun s _ => s.writeMark) t =
      machine.log ins answered t ++ (machine.stateAt ins t).wLast.store.items)
    (hrsp : (machine.stateAt ins t).wDpRspValid (ins t) = true) :
    (machine.stateAt ins t).wLast.validO = true := by
  have hlt := (h.balanced_write t).given_lt (h.write t) hrsp
  have hlen : (machine.log ins (fun s _ => s.writeMark) t).length =
      (machine.log ins (fun s _ => s.writeBeat) t).length := by
    rw [Machine.length_log machine ins (p := fun u => (machine.stateAt ins u).wValid) fun u => ?_,
      Machine.length_log machine ins (p := fun u => (machine.stateAt ins u).wValid) fun u => ?_]
    · rw [writeBeat, Legalizer.writeBeat, ← wValid]
      cases (machine.stateAt ins u).wValid <;> rfl
    · rw [writeMark, Legalizer.writeMark, ← wValid]
      cases (machine.stateAt ins u).wValid <;> rfl
  have hwrites := congrArg List.length (log_writes ins t)
  have hm := congrArg List.length hmarks
  rw [List.length_map, List.length_append, List.length_map] at hwrites
  rw [List.length_append] at hm
  rw [StreamFifo.validO]
  cases hi : (machine.stateAt ins t).wLast.store.items with
  | nil => simp only [hi, List.length_nil] at hm; omega
  | cons a l => rfl

/-- The marks that were counted off are those of the beats that were given out first. -/
theorem Disciplined.log_answered (h : Disciplined ins) (t : ℕ) :
    machine.log ins (fun s _ => s.writeMark) t =
    machine.log ins answered t ++ (machine.stateAt ins t).wLast.store.items := by
  induction t with
  | zero => rfl
  | succ t ih =>
    have hstep : (machine.stateAt ins t).wLast.store.items ++ (machine.stateAt ins t).writeMark =
        (machine.stateAt ins t).answered (ins t) ++
          (machine.stateAt ins (t + 1)).wLast.store.items :=
      conserved_wLast fun hpop => h.wLast_of_rsp ih (Bool.and_eq_true _ _ ▸ hpop : _ ∧ _).1
    rw [Machine.log_succ, Machine.log_succ, ih, List.append_assoc, hstep, List.append_assoc]

/-- A write that is answered has the marks at the head of the FIFO, and these come next. -/
theorem Disciplined.answered_marks_isPrefix (h : Disciplined ins)
    (hrsp : (machine.stateAt ins t).wDpRspValid (ins t) = true) :
    machine.log ins answered t ++ [(machine.stateAt ins t).marks (ins t)] <+:
      (transfers ins t).flatMap BurstReq.writeMarks := by
  have hvalid := h.wLast_of_rsp (h.log_answered t) hrsp
  rw [log_writeMark, h.log_answered, marks, List.append_assoc, List.prefix_append_right_inj]
  cases hi : (machine.stateAt ins t).wLast.store.items with
  | nil => simp [StreamFifo.validO, hi] at hvalid
  | cons a l => exact List.cons_prefix_cons.mpr ⟨rfl, List.nil_prefix⟩

end Run

end Backend

end Idma

end Croc
