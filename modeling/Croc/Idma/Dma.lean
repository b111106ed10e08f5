import Croc.Idma.Memory
import Croc.Idma.Jobs

/-!
# The DMA as a whole

The configuration port, the midend, the backend and the two converters as one machine. `CrocIdma`
leaves the data path to its environment: it takes the answers to come in the order of the transfers,
one for each, with the mark of the transfer. The backend does just that, so what is known about
`CrocIdma` holds for the whole.

## Main definitions

* `Dma`: the whole.
* `Dma.rspValid`, `Dma.rspLast`: the answer of the backend to the midend.
* `Dma.begun`: the jobs that have reached the midend.

## Main results

* `Dma.transfers_eq`: what the backend takes are the transfers of the jobs, in order.
* `Dma.burstRsp_eq`: the backend answers as `CrocIdma` takes it to.
* `Dma.job_copied`: a job whose end was reported has been copied.
-/

namespace Croc

namespace Idma

open Clocked ByteMemory

open Bits (Word)

/-- The inputs of the DMA in one cycle. -/
structure DmaIn where
  /-- The request on the configuration port. -/
  cfg : CfgReq
  /-- `gnt` of the read port. -/
  rGnt : Bool
  /-- `rdata` of the read port, where `rvalid` is set. -/
  rRsp : Option Word
  /-- `gnt` of the write port. -/
  wGnt : Bool
  /-- `rvalid` of the write port. -/
  wRsp : Option Unit
  /-- What the FIFOs of the backend show while they are empty. -/
  stale : Stale

/-- The DMA. -/
structure Dma where
  /-- The configuration port and the midend. -/
  idma : CrocIdma
  /-- The backend. -/
  backend : Backend

namespace Dma

/-- The DMA out of reset. -/
def init : Dma := ⟨CrocIdma.init, Backend.init⟩

variable (s : Dma) (i : DmaIn)

/-- The inputs of the backend. The midend is ready for an answer unless it answers itself. -/
def backendIn : BackendIn where
  req := s.idma.burst
  rspReady := s.idma.midend.burstRspReady s.idma.head s.backend.reqReady
  rGnt := i.rGnt
  rRsp := i.rRsp
  wGnt := i.wGnt
  wRsp := i.wRsp
  stale := i.stale

/-- What the port and the midend see of the backend. -/
def idmaIn : IdmaIn where
  cfg := i.cfg
  reqReady := s.backend.reqReady
  dpRspValid := s.backend.dpRspValid (s.backendIn i)

/-- `rsp_valid_o` of the backend. -/
def rspValid : Bool :=
  if s.backend.lengthZero (s.backendIn i) then true else s.backend.dpRspValid (s.backendIn i)

/-- `idma_rsp_o.last` of the backend. -/
def rspLast : Bool :=
  if s.backend.lengthZero (s.backendIn i) then true else (s.backend.marks (s.backendIn i)).1

/-- `nd_rsp_valid_o` of the midend: the pulse that the done counter counts. -/
def retire : Bool :=
  s.idma.midend.ndRspValid s.idma.head s.backend.reqReady (s.rspValid i) (s.rspLast i)

/-- One clock edge. `CrocIdma` makes up the answers of the backend from the transfers in flight;
here the done counter gets them from the backend. -/
def next : Dma where
  idma := { s.idma.next (s.idmaIn i) with
    port := s.idma.port.next ⟨i.cfg, s.idma.ndReqReady (s.idmaIn i), s.retire i⟩ }
  backend := s.backend.next (s.backendIn i)

/-- The DMA as a machine. -/
def machine : Machine Dma DmaIn := ⟨init, next⟩

/-! ### The two halves -/

section Run

variable (ins : ℕ → DmaIn)

/-- The inputs of the backend in a run. -/
def backendIns (t : ℕ) : BackendIn := (machine.stateAt ins t).backendIn (ins t)

/-- The inputs of the port and the midend in a run. -/
def idmaIns (t : ℕ) : IdmaIn := (machine.stateAt ins t).idmaIn (ins t)

/-- The backend runs as it does on its own, on the inputs it gets. -/
theorem backend_stateAt (t : ℕ) :
    (machine.stateAt ins t).backend = Backend.machine.stateAt (backendIns ins) t :=
  Machine.stateAt_component (f := Dma.backend) (g := backendIn) rfl (fun _ _ => rfl) t

end Run

variable {s i}

theorem idma_next (h : s.retire i = s.idma.retire (s.idmaIn i)) :
    (s.next i).idma = s.idma.next (s.idmaIn i) := by
  rw [next, h]
  rfl

/-- Both levels see the same transfers of length zero. -/
theorem lengthZero_eq : s.backend.lengthZero (s.backendIn i) = s.idma.lengthZero (s.idmaIn i) := by
  rw [Backend.lengthZero, CrocIdma.lengthZero]
  rfl

/-- The backend may answer unless the midend or itself answers at once. -/
theorem rspReady_eq : s.backend.rspReady (s.backendIn i) =
    (!s.idma.zeroTransfer (s.idmaIn i) && !s.idma.lengthZero (s.idmaIn i)) := by
  rw [Backend.rspReady, lengthZero_eq]
  rfl

/-- The backend takes the transfers that the midend hands over and that move something. -/
theorem taken_eq : (s.backend.taken (s.backendIn i)).toList = s.idma.takenBurst (s.idmaIn i) := by
  have hready : s.backend.legalizer.readyO s.backend.rReady s.backend.wReady =
      (s.idmaIn i).reqReady := rfl
  rw [Backend.taken, Legalizer.taken, hready, Backend.legReq, CrocIdma.takenBurst]
  have hreq : (s.backendIn i).req = s.idma.burst := rfl
  rw [hreq]
  cases s.idma.burst with
  | none => cases (s.idmaIn i).reqReady <;> rfl
  | some b =>
    cases (s.idmaIn i).reqReady with
    | false => rfl
    | true => by_cases hb : b.length = 0#32 <;> simp [hb]

theorem accepted_eq : (s.idma.accepted (s.idmaIn i)).map Burst.last =
    (s.idma.takenBurst (s.idmaIn i)).map BurstReq.last := by
  rw [CrocIdma.accepted, CrocIdma.takenBurst]
  cases s.idma.burst with
  | none => rfl
  | some b => cases hb : ((s.idmaIn i).reqReady && b.length != 0) <;> simp only [hb] <;> rfl

/-! ### The transfers of a run -/

section Run

variable (ins : ℕ → DmaIn) (t : ℕ)

theorem log_backend {β : Type*} (F : Backend → BackendIn → List β) :
    Backend.machine.log (backendIns ins) F t =
      machine.log ins (fun s i => F s.backend (s.backendIn i)) t :=
  Machine.log_component machine ins (f := Dma.backend) (g := backendIn) rfl (fun _ _ => rfl) F t

/-- The transfers that the backend has taken before cycle `t`. -/
def transfers : List BurstReq := Backend.transfers (backendIns ins) t

/-- The jobs that have left the FIFO before cycle `t`. -/
def issued : List NdReq := machine.log ins (fun s i => s.idma.leaving (s.idmaIn i)) t

theorem transfers_eq_log :
    transfers ins t = machine.log ins (fun s i => s.idma.takenBurst (s.idmaIn i)) t := by
  rw [transfers, Backend.transfers, log_backend]
  congr 1
  funext s i
  exact taken_eq

/-- The midend does not look at the done counter. -/
theorem midend_tracks : (machine.stateAt ins t).idma.Tracks :=
  Machine.stateAt_inv' (I := fun s : Dma => s.idma.Tracks) (CrocIdma.tracks_of_fresh ⟨rfl, rfl⟩)
    (fun s i h => ⟨(h.next (i := s.idmaIn i)).fresh, (h.next (i := s.idmaIn i)).inJob⟩) t

/-- **The transfers of a run** are those of the jobs that have left the FIFO, in order, and of the
job at its head those that the midend has handed over. -/
theorem transfers_eq : transfers ins t =
    (issued ins t).flatMap NdReq.expand ++ (machine.stateAt ins t).idma.handedOver := by
  rw [transfers_eq_log, issued, ← Machine.log_flatMap]
  exact Machine.log_conserved machine ins (fun s => s.idma.handedOver) rfl
    (fun u => CrocIdma.conserved_bursts (midend_tracks ins u)) t

/-! ### The answers -/

variable {ins} {t}

/-- A transfer in flight is answered or stays in flight. -/
theorem conserved_inFlight {s : CrocIdma} {i : IdmaIn} :
    s.inFlight ++ s.accepted i = (s.dpRsp i).toList ++ (s.next i).inFlight := by
  have hnext : (s.next i).inFlight = s.inFlight.drop (s.dpRsp i).isSome.toNat ++ s.accepted i := rfl
  rw [hnext, ← List.append_assoc]
  congr 1
  cases hd : s.dpRsp i with
  | none => rfl
  | some b =>
    have hhead : s.inFlight.head? = some b := by
      rw [CrocIdma.dpRsp] at hd
      split at hd
      · exact hd
      · cases hd
    cases hi : s.inFlight with
    | nil => rw [hi] at hhead; cases hhead
    | cons c l =>
      rw [hi] at hhead
      cases hhead
      rfl

/-- The answers of the data path that `CrocIdma` has heard before cycle `t`. -/
def dpRspLog (ins : ℕ → DmaIn) (t : ℕ) : List Burst :=
  machine.log ins (fun s i => (s.idma.dpRsp (s.idmaIn i)).toList) t

/-- The transfers in flight are those taken and not answered. -/
theorem inFlight_eq : ((machine.stateAt ins t).idma.inFlight).map Burst.last =
    ((transfers ins t).map BurstReq.last).drop (dpRspLog ins t).length := by
  have hcons : machine.log ins (fun s i => s.idma.accepted (s.idmaIn i)) t =
      dpRspLog ins t ++ (machine.stateAt ins t).idma.inFlight :=
    Machine.log_conserved machine ins (fun s => s.idma.inFlight) rfl (fun _ => conserved_inFlight) t
  have hlast : (machine.log ins (fun s i => s.idma.accepted (s.idmaIn i)) t).map Burst.last =
      (transfers ins t).map BurstReq.last := by
    rw [transfers_eq_log, ← Machine.log_map, ← Machine.log_map]
    congr 1
    funext s i
    exact accepted_eq
  rw [← hlast, hcons, List.map_append, List.drop_left' (List.length_map _)]

/-- The next transfer that is due in an answer of the data path is in flight, with its mark. -/
theorem last_of_dpRspValid (h : Backend.Disciplined (backendIns ins))
    (hlen : (dpRspLog ins t).length = (Backend.reportLog (backendIns ins) t).length)
    (hrsp : (machine.stateAt ins t).backend.dpRspValid (backendIns ins t) = true) :
    ∃ b, (machine.stateAt ins t).idma.inFlight.head? = some b ∧
      b.last = ((machine.stateAt ins t).backend.marks (backendIns ins t)).1 := by
  rw [backend_stateAt] at hrsp ⊢
  rw [Backend.dpRspValid, Bool.and_eq_true] at hrsp
  set m := (Backend.machine.stateAt (backendIns ins) t).marks (backendIns ins t) with hm
  set n := (Backend.reportLog (backendIns ins) t).length with hn
  -- with this answer one more transfer is finished
  have hfinished := (finishedBy_of_isPrefix (h.answered_marks_isPrefix hrsp.1)).1
  rw [finishedBy_append, ← Backend.reportLog_eq, List.length_append, ← hn, ← hm] at hfinished
  have hmark : finishedBy [m] = [m.1] := by
    rw [finishedBy, List.flatMap_singleton, hrsp.2, if_pos rfl]
  rw [hmark, List.length_singleton, List.map_take] at hfinished
  have hnth : ((transfers ins t).map BurstReq.last)[n]? = some m.1 := by
    have hget := congrArg (·[n]?) hfinished
    simp only [List.getElem?_take, if_pos n.lt_succ_self] at hget
    rw [List.getElem?_append_right (by omega), Nat.sub_self] at hget
    exact hget.symm
  have hflight := @inFlight_eq ins t
  rw [hlen] at hflight
  have hhead := congrArg List.head? hflight
  rw [List.head?_drop, hnth, List.head?_map, Option.map_eq_some_iff] at hhead
  exact hhead

/-- In a cycle the data path is heard by `CrocIdma` exactly if the backend reports a transfer, with
its mark. -/
theorem dpRsp_eq (h : Backend.Disciplined (backendIns ins))
    (hlen : (dpRspLog ins t).length = (Backend.reportLog (backendIns ins) t).length) :
    ((machine.stateAt ins t).idma.dpRsp (idmaIns ins t)).map Burst.last =
      (machine.stateAt ins t).backend.report (backendIns ins t) := by
  have hready : (machine.stateAt ins t).backend.rspReady (backendIns ins t) =
      (!(machine.stateAt ins t).idma.zeroTransfer (idmaIns ins t) &&
        !(machine.stateAt ins t).idma.lengthZero (idmaIns ins t)) := rspReady_eq
  have hvalid : (idmaIns ins t).dpRspValid =
      (machine.stateAt ins t).backend.dpRspValid (backendIns ins t) := rfl
  rw [CrocIdma.dpRsp, Backend.report, hready, hvalid]
  cases hrsp : (machine.stateAt ins t).backend.dpRspValid (backendIns ins t) with
  | false => rfl
  | true =>
    obtain ⟨b, hb, hlast⟩ := last_of_dpRspValid h hlen hrsp
    rw [hb, ← hlast]
    cases (machine.stateAt ins t).idma.zeroTransfer (idmaIns ins t) <;>
      cases (machine.stateAt ins t).idma.lengthZero (idmaIns ins t) <;> rfl

/-- `CrocIdma` has heard as many answers as the backend has reported. -/
theorem length_dpRsp (h : Backend.Disciplined (backendIns ins)) (t : ℕ) :
    (dpRspLog ins t).length = (Backend.reportLog (backendIns ins) t).length := by
  induction t with
  | zero => rfl
  | succ t ih =>
    have hcycle := congrArg Option.isSome (dpRsp_eq h ih)
    rw [Option.isSome_map, backend_stateAt] at hcycle
    rw [Backend.reportLog, dpRspLog, Machine.log_succ, Machine.log_succ, List.length_append,
      List.length_append, length_toList_eq, length_toList_eq]
    exact congrArg₂ (· + ·) ih (congrArg Bool.toNat hcycle)

/-- **The backend answers as `CrocIdma` takes it to.** In every cycle of a run whose ports answer
only what was requested, the backend shows an answer exactly if `CrocIdma` has one, and it carries
the same mark. -/
theorem burstRsp_eq (h : Backend.Disciplined (backendIns ins)) (t : ℕ) :
    ((machine.stateAt ins t).idma.burstRsp (idmaIns ins t)).1 =
      (machine.stateAt ins t).rspValid (ins t) ∧
      ((machine.stateAt ins t).rspValid (ins t) = true →
        ((machine.stateAt ins t).idma.burstRsp (idmaIns ins t)).2 =
          (machine.stateAt ins t).rspLast (ins t)) := by
  have hzero : (machine.stateAt ins t).backend.lengthZero
      ((machine.stateAt ins t).backendIn (ins t)) =
      (machine.stateAt ins t).idma.lengthZero (idmaIns ins t) := lengthZero_eq
  have hvalid : (idmaIns ins t).dpRspValid =
      (machine.stateAt ins t).backend.dpRspValid ((machine.stateAt ins t).backendIn (ins t)) := rfl
  rw [CrocIdma.burstRsp, rspValid, rspLast, hzero]
  cases hz : (machine.stateAt ins t).idma.lengthZero (idmaIns ins t) with
  | true => exact ⟨rfl, fun _ => rfl⟩
  | false =>
    rw [if_neg Bool.false_ne_true, if_neg Bool.false_ne_true, if_neg Bool.false_ne_true, hvalid]
    cases hrsp : (machine.stateAt ins t).backend.dpRspValid
      ((machine.stateAt ins t).backendIn (ins t)) with
    | true =>
      obtain ⟨b, hb, hlast⟩ := last_of_dpRspValid h (length_dpRsp h t) hrsp
      rw [hb]
      exact ⟨rfl, fun _ => hlast⟩
    | false =>
      refine ⟨?_, fun hf => absurd hf Bool.false_ne_true⟩
      cases (machine.stateAt ins t).idma.inFlight.head? <;> rfl

/-- The done counter counts what `CrocIdma` says. -/
theorem retire_eq (h : Backend.Disciplined (backendIns ins)) (t : ℕ) :
    (machine.stateAt ins t).retire (ins t) =
      (machine.stateAt ins t).idma.retire (idmaIns ins t) := by
  obtain ⟨hvalid, hlast⟩ := burstRsp_eq h t
  rw [retire, CrocIdma.retire, hvalid]
  cases hv : (machine.stateAt ins t).rspValid (ins t) with
  | true => rw [hlast hv]; rfl
  | false => rfl

/-- **The DMA refines `CrocIdma`.** On ports that answer only what was requested, the configuration
port and the midend run as `CrocIdma` does in the environment that the backend is to it, and the
transfers that the backend takes are those of the jobs that have left the FIFO, in order, followed
by those that the midend has handed over of the job at its head. -/
theorem refines_crocIdma (h : Backend.Disciplined (backendIns ins)) (t : ℕ) :
    (machine.stateAt ins t).idma = CrocIdma.machine.stateAt (idmaIns ins) t ∧
      transfers ins t = (issued ins t).flatMap NdReq.expand ++
        (machine.stateAt ins t).idma.handedOver := by
  refine ⟨?_, transfers_eq ins t⟩
  induction t with
  | zero => rfl
  | succ t ih =>
    have hstep : (machine.stateAt ins (t + 1)).idma =
        (machine.stateAt ins t).idma.next (idmaIns ins t) :=
      idma_next (retire_eq h t)
    rw [hstep, ih]
    rfl

end Run

/-! ### Copying jobs -/

/-- A job that moves something. -/
def moves (j : NdReq) : Bool := j.reps != 0 && j.length != 0

/-- A job that moves nothing has no transfers. -/
theorem expand_of_not_moves {j : NdReq} (h : moves j = false) : j.expand = [] := by
  rw [moves, Bool.and_eq_false_iff, bne_eq_false_iff_eq, bne_eq_false_iff_eq] at h
  exact h.elim NdReq.expand_of_reps_zero NdReq.expand_of_length_zero

theorem flatMap_expand_filter (B : List NdReq) :
    (B.filter moves).flatMap NdReq.expand = B.flatMap NdReq.expand := by
  induction B with
  | nil => rfl
  | cons j B ih =>
    cases hm : moves j with
    | true => rw [List.filter_cons_of_pos hm, List.flatMap_cons, List.flatMap_cons, ih]
    | false =>
      rw [List.filter_cons_of_neg (by rw [hm]; exact Bool.false_ne_true), List.flatMap_cons, ih,
        expand_of_not_moves hm, List.nil_append]

/-- The last transfer of a job is marked, and no other. -/
theorem ends_expand {j : NdReq} (h : moves j = true) : Groups.Ends BurstReq.last j.expand := by
  rw [moves, Bool.and_eq_true, bne_iff_ne, bne_iff_ne] at h
  have hpos : j.reps.toNat ≠ 0 := fun hz => h.1 (BitVec.eq_of_toNat_eq hz)
  obtain ⟨r, hr⟩ := Nat.exists_eq_succ_of_ne_zero hpos
  refine ⟨(List.range r).map j.transfer, j.transfer r, ?_, ?_, fun q hq => ?_⟩
  · rw [NdReq.expand, if_neg h.2, hr, List.range_succ, List.map_append, List.map_singleton]
  · simp [NdReq.transfer, hr]
  · obtain ⟨n, hn, rfl⟩ := List.mem_map.mp hq
    have := List.mem_range.mp hn
    simp only [NdReq.transfer, hr, Nat.succ_eq_add_one, beq_eq_false_iff_ne]
    omega

section Run

variable {ins : ℕ → DmaIn} {t₀ t : ℕ} {mem : ℕ → ByteMem} {others : ℕ → Set Word}

/-- The jobs that have reached the midend before cycle `t`. -/
def begun (ins : ℕ → DmaIn) (t : ℕ) : List NdReq :=
  issued ins t ++ (machine.stateAt ins t).idma.head.toList

/-- Only transfers of the jobs that have begun are taken. -/
theorem transfers_prefix_begun : transfers ins t <+: (begun ins t).flatMap NdReq.expand := by
  rw [transfers_eq, begun, List.flatMap_append, List.prefix_append_right_inj, CrocIdma.handedOver]
  cases (machine.stateAt ins t).idma.head with
  | none => exact List.nil_prefix
  | some j =>
    rw [Option.toList_some, List.flatMap_singleton]
    exact List.take_prefix _ _

/-- Between jobs all transfers of the jobs that have begun are taken. -/
theorem transfers_of_empty (hempty : (machine.stateAt ins t₀).idma.head = none) :
    transfers ins t₀ = (begun ins t₀).flatMap NdReq.expand := by
  rw [transfers_eq, begun, CrocIdma.handedOver, hempty]
  simp

theorem count_true_map (A : List BurstReq) :
    (A.map BurstReq.last).count true = A.countP BurstReq.last := by
  rw [List.count, List.countP_map]
  refine List.countP_congr fun q _ => ?_
  simp

/-- The transfers that were reported since a cycle in which the backend was idle and the FIFO empty:
all those of as many jobs as ends were reported. -/
theorem reported_since (h : Backend.Disciplined (backendIns ins))
    (hidle : Backend.Idle (backendIns ins) t₀)
    (hempty : (machine.stateAt ins t₀).idma.head = none) (hle : t₀ ≤ t) {B : List NdReq}
    (hB : begun ins t = begun ins t₀ ++ B) {T : List BurstReq}
    (hT : transfers ins t = transfers ins t₀ ++ T) :
    T <+: B.flatMap NdReq.expand ∧
      ∀ j ∈ (B.filter moves).take ((Backend.reportLog (backendIns ins) t).count true -
          (Backend.reportLog (backendIns ins) t₀).count true),
        ∀ q ∈ j.expand, q ∈ T.take ((Backend.reportLog (backendIns ins) t).length -
          (Backend.reportLog (backendIns ins) t₀).length) := by
  have hpre : T <+: B.flatMap NdReq.expand := by
    have hall := @transfers_prefix_begun ins t
    rw [hT, hB, List.flatMap_append, transfers_of_empty hempty,
      List.prefix_append_right_inj] at hall
    exact hall
  refine ⟨hpre, ?_⟩
  obtain ⟨R, hR⟩ : Backend.reportLog (backendIns ins) t₀ <+: Backend.reportLog (backendIns ins) t :=
    Backend.machine.log_le _ _ hle
  have hlen : (Backend.reportLog (backendIns ins) t).length -
      (Backend.reportLog (backendIns ins) t₀).length =
      R.length := by
    rw [← hR, List.length_append, Nat.add_sub_cancel_left]
  have hcount : (Backend.reportLog (backendIns ins) t).count true -
      (Backend.reportLog (backendIns ins) t₀).count true = R.count true := by
    rw [← hR, List.count_append, Nat.add_sub_cancel_left]
  -- the flags that were reported are those of the transfers
  have hflags : R = (T.take R.length).map BurstReq.last := by
    have hall := (h.reported_writes t).1
    have hlen' : (Backend.reportLog (backendIns ins) t).length =
        (transfers ins t₀).length + R.length := by
      rw [← hR, List.length_append, hidle]
      rfl
    have hfirst := (h.reported_writes t₀).1
    rw [hidle, List.take_length] at hfirst
    have hT' : Backend.transfers (backendIns ins) t = Backend.transfers (backendIns ins) t₀ ++ T :=
      hT
    have htake : (Backend.transfers (backendIns ins) t₀ ++ T).take
        ((transfers ins t₀).length + R.length) =
        Backend.transfers (backendIns ins) t₀ ++ T.take R.length := by
      rw [transfers, List.take_append, List.take_of_length_le (Nat.le_add_right _ _),
        Nat.add_sub_cancel_left]
    rw [hlen', hT', htake, List.map_append, ← hfirst, ← hR] at hall
    exact List.append_cancel_left hall
  rw [hlen, hcount, hflags, count_true_map, List.length_map]
  set A := T.take R.length with hA
  have htake : T.take A.length = A := by rw [hA, List.length_take]; simp
  rw [htake]
  have hgroups : A <+: (B.filter moves).flatMap NdReq.expand := by
    rw [flatMap_expand_filter]
    exact List.take_prefix _ _ |>.trans hpre
  obtain ⟨rest, hrest, -⟩ := Groups.take_countP
    (fun j hj => ends_expand (List.mem_filter.mp hj).2) hgroups
  intro j hj q hq
  rw [hrest]
  exact List.mem_append_left _ (List.mem_flatMap.mpr ⟨j, hj, hq⟩)

/-- **Jobs are copied.** In cycle `t₀` the backend is idle and the FIFO of jobs is empty, and the
jobs `B` reach the midend after that and before cycle `t`. If these jobs do not write to the source
of one of them or twice to the same place, and if nobody else writes there, then as many of them as
ends were reported since `t₀` have been copied, row by row. -/
theorem job_copied (h : Backend.Serves (backendIns ins) mem others)
    (hidle : Backend.Idle (backendIns ins) t₀)
    (hempty : (machine.stateAt ins t₀).idma.head = none) (hle : t₀ ≤ t) {B : List NdReq}
    (hB : begun ins t = begun ins t₀ ++ B)
    (hdisj : ∀ x ∈ sources (B.flatMap NdReq.expand), x ∉ destinations (B.flatMap NdReq.expand))
    (hnd : (destinations (B.flatMap NdReq.expand)).Nodup)
    (hothers : ∀ u, t₀ ≤ u → u < t →
      ∀ x ∈ sources (B.flatMap NdReq.expand) ++ destinations (B.flatMap NdReq.expand),
        x ∉ others u) :
    ∀ j ∈ (B.filter moves).take ((Backend.reportLog (backendIns ins) t).count true -
        (Backend.reportLog (backendIns ins) t₀).count true),
      ∀ n < j.reps.toNat, ∀ k < j.length.toNat,
        mem t (j.dstAddr + BitVec.ofNat 32 n * j.dstStrides + BitVec.ofNat 32 k) =
          mem t₀ (j.srcAddr + BitVec.ofNat 32 n * j.srcStrides + BitVec.ofNat 32 k) := by
  obtain ⟨T, hT⟩ : transfers ins t₀ <+: transfers ins t := Backend.machine.log_le _ _ hle
  obtain ⟨hpre, hreported⟩ := reported_since h.disciplined hidle hempty hle hB hT.symm
  have hsrc : sources T <+: sources (B.flatMap NdReq.expand) := hpre.flatMap _
  have hdst : destinations T <+: destinations (B.flatMap NdReq.expand) := hpre.flatMap _
  have hcopy := (Backend.memcpy h hidle hle hT.symm
    (fun x hx hx' => hdisj x (hsrc.subset hx) (hdst.subset hx')) (hnd.sublist hdst.sublist)
    (fun u h1 h2 x hx => hothers u h1 h2 x
      (List.mem_append.mpr ((List.mem_append.mp hx).imp (hsrc.subset ·) (hdst.subset ·))))).1
  intro j hj n hn k hk
  have hlen : j.length ≠ 0 := fun hz => by rw [hz] at hk; exact absurd hk (Nat.not_lt_zero k)
  have hq : j.transfer n ∈ j.expand := by
    rw [NdReq.expand, if_neg hlen]
    exact List.mem_map_of_mem (List.mem_range.mpr hn)
  exact hcopy _ (hreported j hj _ hq) k hk

end Run

/-! ### A job of two rows -/

/-- A write of a register of the configuration port. -/
def cfgWrite (addr data : Word) : CfgReq := ⟨true, addr, true, 15, data, 0⟩

/-- A job of two rows of three bytes: its registers are written and `NEXT_ID` is read. -/
def rowsCfg : List CfgReq :=
  [cfgWrite 0 0x800, cfgWrite 0xd8 0x1003, cfgWrite 0xd0 0x2001, cfgWrite 0xe0 3, cfgWrite 0xf0 5,
    cfgWrite 0xe8 6, cfgWrite 0xf8 2, ⟨true, 0x44, false, 15, 0, 0⟩]

/-- The job runs on ports that answer in the cycle after the grant or the one after that, and that
grant nothing once it is done. -/
def rowsRun (t : ℕ) : DmaIn where
  cfg := rowsCfg.getD t default
  rGnt := decide (t < 19)
  rRsp := if t = 11 then some 0x13121110 else if t = 13 then some 0x17161514 else
    if t = 15 then some 0x1b1a1918 else none
  wGnt := decide (t < 19)
  wRsp := if t = 15 ∨ t = 17 ∨ t = 18 then some () else none
  stale := ⟨⟨0, 0, 0⟩, ⟨0, 0, 0⟩, (false, false), fun _ => 0⟩

/-- The memory behind the ports. At first each byte is the sum of the two low bytes of its
address. -/
def rowsMem (t : ℕ) : ByteMem :=
  ByteMem.storeList (fun x => x.setWidth 8 + x.extractLsb' 8 8)
    (Backend.written (backendIns rowsRun) t)

/-- After cycle 19 nothing happens any more. -/
theorem rows_log {β : Type*} {F : Backend → BackendIn → List β}
    (hF : ∀ u, 19 ≤ u → F (Backend.machine.stateAt (backendIns rowsRun) u) (backendIns rowsRun u) =
      [])
    {t : ℕ} (h : 19 ≤ t) :
    Backend.machine.log (backendIns rowsRun) F t =
      Backend.machine.log (backendIns rowsRun) F 19 := by
  induction t, h using Nat.le_induction with
  | base => rfl
  | succ t ht ih => rw [Machine.log_succ, ih, hF t ht, List.append_nil]

theorem rows_reads {u : ℕ} (h : 19 ≤ u) :
    (Backend.machine.stateAt (backendIns rowsRun) u).reads (backendIns rowsRun u) = [] := by
  have hgnt : (backendIns rowsRun u).rGnt = false := decide_eq_false (Nat.not_lt.mpr h)
  rw [Backend.reads, hgnt]
  rfl

theorem rows_writes {u : ℕ} (h : 19 ≤ u) :
    (Backend.machine.stateAt (backendIns rowsRun) u).writes (backendIns rowsRun u) = [] := by
  have hgnt : (backendIns rowsRun u).wGnt = false := decide_eq_false (Nat.not_lt.mpr h)
  rw [Backend.writes, hgnt]
  rfl

theorem rows_rRsp {u : ℕ} (h : 19 ≤ u) : (backendIns rowsRun u).rRsp.toList = [] := by
  change Option.toList (if u = 11 then _ else _) = []
  rw [if_neg (by omega), if_neg (by omega), if_neg (by omega)]
  rfl

theorem rows_wRsp {u : ℕ} (h : 19 ≤ u) : (backendIns rowsRun u).wRsp.toList = [] := by
  change Option.toList (if u = 15 ∨ u = 17 ∨ u = 18 then _ else _) = []
  rw [if_neg (by omega)]
  rfl

theorem rows_grantLog {t : ℕ} (h : 19 ≤ t) :
    Backend.grantLog (backendIns rowsRun) t = Backend.grantLog (backendIns rowsRun) 19 := by
  induction t, h using Nat.le_induction with
  | base => rfl
  | succ t ht ih => rw [Backend.grantLog_succ, ih, rows_reads ht, List.map_nil, List.append_nil]

/-- The ports of the run lead to a memory. -/
theorem rows_serves : Backend.Serves (backendIns rowsRun) rowsMem (fun _ => ∅) where
  read t := by
    have hfirst : ∀ t < 19, Backend.rspLog (backendIns rowsRun) (t + 1) <+:
        ((Backend.readLog (backendIns rowsRun) t).zip (Backend.grantLog (backendIns rowsRun) t)).map
          fun x => (rowsMem x.2).word x.1 := by
      decide +kernel
    have hlast : Backend.rspLog (backendIns rowsRun) 19 <+:
        ((Backend.readLog (backendIns rowsRun) 19).zip
          (Backend.grantLog (backendIns rowsRun) 19)).map
          fun x => (rowsMem x.2).word x.1 := by
      decide +kernel
    rcases Nat.lt_or_ge t 19 with ht | ht
    · exact hfirst t ht
    · rw [Backend.rspLog, rows_log (fun u => rows_rRsp) (Nat.le_add_right_of_le ht),
        Backend.readLog, rows_log (fun u => rows_reads) ht, rows_grantLog ht]
      exact hlast
  write t := by
    have hfirst : ∀ t < 19, (Backend.ackLog (backendIns rowsRun) (t + 1)).length ≤
        (Backend.writeLog (backendIns rowsRun) t).length := by
      decide +kernel
    have hlast : (Backend.ackLog (backendIns rowsRun) 19).length ≤
        (Backend.writeLog (backendIns rowsRun) 19).length := by
      decide +kernel
    rcases Nat.lt_or_ge t 19 with ht | ht
    · exact hfirst t ht
    · rw [Backend.ackLog, rows_log (fun u => rows_wRsp) (Nat.le_add_right_of_le ht),
        Backend.writeLog, rows_log (fun u => rows_writes) ht]
      exact hlast
  step t x _ := by
    rw [rowsMem, Backend.written, Backend.writeLog, Machine.log_succ, List.flatMap_append,
      storeList_append]
    rfl

/-- The job that the registers describe. -/
def rowsJob : NdReq := ⟨3, 0x1003, 0x2001, 2, 5, 6⟩

/-- In cycle 11 the first of the two rows has been taken. -/
theorem rows_refines : Backend.Disciplined (backendIns rowsRun) ∧
    (machine.stateAt rowsRun 11).idma = CrocIdma.machine.stateAt (idmaIns rowsRun) 11 ∧
    transfers rowsRun 11 = [⟨3, 0x1003, 0x2001, false⟩] := by
  obtain ⟨href, htransfers⟩ := refines_crocIdma rows_serves.disciplined 11
  refine ⟨rows_serves.disciplined, href, htransfers.trans ?_⟩
  decide +kernel

/-- Both rows are copied in cycle 19. -/
theorem rows_copied : Backend.Serves (backendIns rowsRun) rowsMem (fun _ => ∅) ∧
    begun rowsRun 19 = [rowsJob] ∧
    ∀ n < 2, ∀ k < 3, rowsMem 19 (0x2001 + BitVec.ofNat 32 n * 6 + BitVec.ofNat 32 k) =
      rowsMem 0 (0x1003 + BitVec.ofNat 32 n * 5 + BitVec.ofNat 32 k) := by
  have hbegun : begun rowsRun 19 = [rowsJob] := by decide +kernel
  have hreported : (Backend.reportLog (backendIns rowsRun) 19).count true -
      (Backend.reportLog (backendIns rowsRun) 0).count true = 1 := by
    decide +kernel
  have hsrc : sources ([rowsJob].flatMap NdReq.expand) =
      [0x1003, 0x1004, 0x1005, 0x1008, 0x1009, 0x100a] := by
    decide +kernel
  have hdst : destinations ([rowsJob].flatMap NdReq.expand) =
      [0x2001, 0x2002, 0x2003, 0x2007, 0x2008, 0x2009] := by
    decide +kernel
  have hcopied :=
    @job_copied rowsRun 0 19 rowsMem (fun _ => ∅) rows_serves rfl rfl (Nat.zero_le _)
      [rowsJob] hbegun
      (by rw [hsrc, hdst]; simp) (by rw [hdst]; simp) (fun _ _ _ _ _ => id)
  rw [hreported] at hcopied
  exact ⟨rows_serves, hbegun, hcopied rowsJob (List.mem_singleton_self _)⟩

end Dma

end Idma

end Croc
