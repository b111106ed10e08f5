import Croc.Revocation.Trvk

/-!
# The filter as an in-order bridge

Between the load/store unit and the memory system the filter must not lose, invent or reorder
anything. Its two FIFOs have room for two accesses and no back pressure on responses, so this is a
matter of discipline on both sides: the load/store unit keeps at most two accesses outstanding and
holds a request until it is granted, and the memory system answers only what it has granted.

Under that discipline the whole history of a run can be read off four logs: what was requested,
what was forwarded, what arrived and what was delivered. The registers of the filter are exactly
the differences between them.

## Main definitions

* `Trvk.requested`, `Trvk.forwarded`, `Trvk.arrived`, `Trvk.delivered`: the four logs of a run.
* `Trvk.Disciplined`: the environment keeps to the protocol.
* `Trvk.Bridge`: the registers are the differences of the logs.
* `Trvk.LookupsAnswered`, `Trvk.Solicited`: every bitmap lookup is answered once, and nothing else.
* `Trvk.Lossless`: what a bridge owes to both sides, in terms of the logs.

## Main results

* `Trvk.bridge`: the invariant holds throughout a disciplined run.
* `Trvk.Bridge.delivery`: the next response to be delivered is the next one that arrived, with the
  alignment of the request it answers.
* `Trvk.delivered_unchanged`: data and error flag of every response are delivered unchanged.
* `Trvk.eventually_delivered`: every response that arrives is delivered.
* `Trvk.lossless_inOrder`: a disciplined run is lossless and in order.
* `Trvk.resetLoad_mispaired`: a request in the cycle that leaves reset is not covered.
-/

namespace Croc

namespace Revocation

open Cheriot Clocked

open Bits (Word)

/-- A request for the second word of a granule. -/
def UpstreamReq.second (r : UpstreamReq) : Bool := r.addr.getLsbD 2

namespace Trvk

/-- A response delivered upstream. -/
structure Delivery where
  /-- The response as the load/store unit sees it. -/
  rsp : DsRsp
  /-- The lookup made for it, if any: the address asked for and the word returned. -/
  lookup : Option (Word × Word)
  deriving DecidableEq, Repr

/-- The response delivered in a cycle that delivers one. -/
def delivery (s : Trvk) (i : TrvkIn) : Delivery where
  rsp := s.upRsp i
  lookup := if s.revbmReqRequired i then some (s.revbmAddrO i, i.revbmRdata) else none

section Logs

variable (ins : ℕ → TrvkIn) (t : ℕ)

/-- The requests granted to the load/store unit before cycle `t`. -/
def requested : List UpstreamReq :=
  machine.log ins (fun s i => if s.upGnt i then [i.up] else []) t

/-- The requests granted by the memory system before cycle `t`. -/
def forwarded : List UpstreamReq :=
  machine.log ins (fun s i => if s.dsReq i && i.dsGnt then [i.up] else []) t

/-- The responses of the memory system before cycle `t`. -/
def arrived : List DsRsp :=
  machine.log ins (fun _ i => if i.dsRvalid then [i.dsRsp] else []) t

/-- The responses delivered to the load/store unit before cycle `t`. -/
def delivered : List Delivery :=
  machine.log ins (fun s i => if s.upRvalid i then [s.delivery i] else []) t

end Logs

/-- The environment keeps to the protocol of the data port. -/
structure Disciplined (ins : ℕ → TrvkIn) : Prop where
  /-- The core requests nothing in the cycle that leaves reset. -/
  quiet : (ins 0).up.req = false
  /-- A request is held until it is granted. -/
  hold : ∀ t, (ins t).up.req = true → (machine.stateAt ins t).upGnt (ins t) = false →
    (ins (t + 1)).up = (ins t).up
  /-- A request is made only while fewer than two earlier ones are unanswered. -/
  room : ∀ t, (ins t).up.req = true → (requested ins t).length < (delivered ins t).length + 2
  /-- A response answers a request granted in an earlier cycle. -/
  causal : ∀ t, (ins t).dsRvalid = true → (arrived ins t).length < (forwarded ins t).length

variable {ins : ℕ → TrvkIn} {t : ℕ}

/-- The discipline of one cycle. -/
structure DisciplinedAt (ins : ℕ → TrvkIn) (t : ℕ) : Prop where
  /-- There is no request in the cycle that leaves reset. -/
  ne_zero : (ins t).up.req = true → t ≠ 0
  /-- A request is held until it is granted. -/
  hold : (ins t).up.req = true → (machine.stateAt ins t).upGnt (ins t) = false →
    (ins (t + 1)).up = (ins t).up
  /-- A request is made only while fewer than two earlier ones are unanswered. -/
  room : (ins t).up.req = true → (requested ins t).length < (delivered ins t).length + 2
  /-- A response answers a request granted in an earlier cycle. -/
  causal : (ins t).dsRvalid = true → (arrived ins t).length < (forwarded ins t).length

theorem Disciplined.at (hd : Disciplined ins) (t : ℕ) : DisciplinedAt ins t where
  ne_zero hreq := by
    rintro rfl
    rw [hd.quiet] at hreq
    cases hreq
  hold := hd.hold t
  room := hd.room t
  causal := hd.causal t

theorem DisciplinedAt.ne_zero_of_dsRvalid (hd : DisciplinedAt ins t)
    (hv : (ins t).dsRvalid = true) : t ≠ 0 := by
  rintro rfl
  exact absurd (hd.causal hv) (lt_irrefl 0)

theorem requested_succ : requested ins (t + 1) = requested ins t ++
    if (machine.stateAt ins t).upGnt (ins t) then [(ins t).up] else [] := rfl

theorem arrived_succ : arrived ins (t + 1) = arrived ins t ++
    if (ins t).dsRvalid then [(ins t).dsRsp] else [] := rfl

theorem delivered_succ : delivered ins (t + 1) = delivered ins t ++
    if (machine.stateAt ins t).upRvalid (ins t) then [(machine.stateAt ins t).delivery (ins t)]
    else [] := rfl

theorem length_requested_succ : (requested ins (t + 1)).length =
    (requested ins t).length + ((machine.stateAt ins t).upGnt (ins t)).toNat := by
  rw [requested_succ, List.length_append]
  cases (machine.stateAt ins t).upGnt (ins t) <;> rfl

theorem length_forwarded_succ : (forwarded ins (t + 1)).length = (forwarded ins t).length +
    ((machine.stateAt ins t).dsReq (ins t) && (ins t).dsGnt).toNat := by
  have h : forwarded ins (t + 1) = forwarded ins t ++
      if (machine.stateAt ins t).dsReq (ins t) && (ins t).dsGnt then [(ins t).up] else [] := rfl
  rw [h, List.length_append]
  cases (machine.stateAt ins t).dsReq (ins t) && (ins t).dsGnt <;> rfl

theorem length_arrived_succ : (arrived ins (t + 1)).length =
    (arrived ins t).length + (ins t).dsRvalid.toNat := by
  rw [arrived_succ, List.length_append]
  cases (ins t).dsRvalid <;> rfl

theorem length_delivered_succ : (delivered ins (t + 1)).length =
    (delivered ins t).length + ((machine.stateAt ins t).upRvalid (ins t)).toNat := by
  rw [delivered_succ, List.length_append]
  cases (machine.stateAt ins t).upRvalid (ins t) <;> rfl

theorem length_arrived_le_succ : (arrived ins t).length ≤ (arrived ins (t + 1)).length :=
  (machine.log_le ins _ t.le_succ).length_le

/-! ### The invariant -/

/-- **The bridge invariant.** At the start of cycle `t` the alignment store holds the requests that
are not yet answered, the response store the responses that have arrived and are not yet
delivered, and the pointer register the last response delivered. -/
structure Bridge (ins : ℕ → TrvkIn) (t : ℕ) : Prop where
  /-- Both stores leave reset after the first cycle. -/
  reset : t ≠ 0 → (machine.stateAt ins t).align.underRst = false ∧
    (machine.stateAt ins t).rsp.underRst = false
  /-- The memory system has granted what the load/store unit was granted. -/
  forwarded_eq : forwarded ins t = requested ins t
  /-- Either the fork is idle, or it waits for the grant of a request whose alignment is stored. -/
  align : (machine.stateAt ins t).fork = StreamFork.init ∧
      (machine.stateAt ins t).align.store.items =
        ((requested ins t).drop (delivered ins t).length).map UpstreamReq.second ∨
    (machine.stateAt ins t).fork = StreamFork.halfway ∧ (ins t).up.req = true ∧
      (requested ins t).length < (delivered ins t).length + 2 ∧
      (machine.stateAt ins t).align.store.items =
        ((requested ins t).drop (delivered ins t).length).map UpstreamReq.second ++
          [(ins t).up.second]
  /-- The response store holds what has arrived and is not delivered. -/
  rsp : (machine.stateAt ins t).rsp.store.items = (arrived ins t).drop (delivered ins t).length
  /-- Nothing is delivered before it arrives. -/
  delivered_le : (delivered ins t).length ≤ (arrived ins t).length
  /-- Nothing arrives that was not requested. -/
  arrived_le : (arrived ins t).length ≤ (requested ins t).length
  /-- At most two requests are unanswered. -/
  room : (requested ins t).length ≤ (delivered ins t).length + 2
  /-- Nothing is latched before the first delivery. -/
  ptr_zero : (delivered ins t).length = 0 → (machine.stateAt ins t).ptrValid = false
  /-- The pointer register remembers the last delivery if it was the first word of a tagged pair. -/
  ptr_succ : ∀ {k r w}, (delivered ins t).length = k + 1 → (requested ins t)[k]? = some r →
    (arrived ins t)[k]? = some w →
    (machine.stateAt ins t).ptrValid = (w.tag && !r.second) ∧
      ((machine.stateAt ins t).ptrValid = true → (machine.stateAt ins t).ptr = w.data)

theorem bridge_zero (ins : ℕ → TrvkIn) : Bridge ins 0 where
  reset h := absurd rfl h
  forwarded_eq := rfl
  align := .inl ⟨rfl, rfl⟩
  rsp := rfl
  delivered_le := le_refl 0
  arrived_le := le_refl 0
  room := Nat.zero_le _
  ptr_zero _ := rfl
  ptr_succ h := by cases h

namespace Bridge

variable (hb : Bridge ins t) (hd : DisciplinedAt ins t)

include hb hd

/-- The alignment store has room for a new request. -/
theorem align_wready (hreq : (ins t).up.req = true)
    (hfork : (machine.stateAt ins t).fork = StreamFork.init) :
    (machine.stateAt ins t).align.wready = true := by
  have hlt := hd.room hreq
  have hle := hb.delivered_le.trans hb.arrived_le
  have hitems : (machine.stateAt ins t).align.store.items.length < 2 := by
    rcases hb.align with ⟨-, h⟩ | ⟨h, -⟩
    · rw [h, List.length_map, List.length_drop]
      omega
    · rw [hfork] at h
      exact absurd h (by decide)
  have hfull : (machine.stateAt ins t).align.store.full = false := by
    have : ¬ (machine.stateAt ins t).align.store.full = true := by
      rw [Queue.full_iff]
      omega
    simpa using this
  rw [PrimFifoSync.wready, hfull, (hb.reset (hd.ne_zero hreq)).1]
  rfl

/-- The grant of the memory system reaches the load/store unit in the same cycle. -/
theorem upGnt_eq : (machine.stateAt ins t).upGnt (ins t) = ((ins t).up.req && (ins t).dsGnt) ∧
    (machine.stateAt ins t).dsReq (ins t) = (ins t).up.req := by
  rcases hb.align with ⟨hfork, -⟩ | ⟨hfork, hreq, -⟩
  · cases hreq : (ins t).up.req with
    | false => simp [upGnt, dsReq, hfork, hreq, StreamFork.readyO_init_of_not_valid]
    | true =>
      have hw := hb.align_wready hd hreq hfork
      simp [upGnt, dsReq, forkReady, hfork, hreq, hw, StreamFork.readyO_init]
  · simp [upGnt, dsReq, forkReady, hfork, hreq, StreamFork.readyO_halfway,
      StreamFork.validO_halfway_zero]

/-- The response store has room for every response that arrives. -/
theorem rsp_wready (hv : (ins t).dsRvalid = true) :
    (machine.stateAt ins t).rsp.wready = true := by
  have hlt := hd.causal hv
  rw [hb.forwarded_eq] at hlt
  have hroom := hb.room
  have hfull : ¬ (machine.stateAt ins t).rsp.store.full = true := by
    rw [Queue.full_iff, hb.rsp, List.length_drop]
    omega
  rw [PrimFifoSync.wready, (hb.reset (hd.ne_zero_of_dsRvalid hv)).2, Bool.eq_false_iff.mpr hfull]
  rfl

/-- What the response store shows: everything that has arrived and is not delivered, including the
response of this cycle. -/
theorem visible_rsp :
    (machine.stateAt ins t).rsp.visible (ins t).dsRvalid (ins t).dsRsp =
      (arrived ins (t + 1)).drop (delivered ins t).length := by
  rw [arrived_succ]
  cases hv : (ins t).dsRvalid with
  | false => simp [PrimFifoSync.visible_of_not_wvalid, hb.rsp]
  | true =>
    have hw := hb.rsp_wready hd hv
    have hfull : (machine.stateAt ins t).rsp.store.full = false := by
      simp only [PrimFifoSync.wready, Bool.and_eq_true, Bool.not_eq_true'] at hw
      exact hw.1
    simp [PrimFifoSync.visible, PrimFifoSync.offer, Queue.accepted, hfull, hw, hb.rsp,
      List.drop_append_of_le_length hb.delivered_le]

/-- A response that has arrived was requested in an earlier cycle. -/
theorem length_arrived_succ_le : (arrived ins (t + 1)).length ≤ (requested ins t).length := by
  rw [arrived_succ]
  cases hv : (ins t).dsRvalid with
  | false => simpa using hb.arrived_le
  | true =>
    have hlt := hd.causal hv
    rw [hb.forwarded_eq] at hlt
    simp only [if_true, List.length_append, List.length_singleton]
    omega

/-- A response at the output of the store is the next one that arrived. -/
theorem rspOut_eq (hvalid : (machine.stateAt ins t).rspOutValid (ins t) = true) :
    ∃ w, (arrived ins (t + 1))[(delivered ins t).length]? = some w ∧
      (machine.stateAt ins t).rspOut (ins t) = w := by
  have hrst : (machine.stateAt ins t).rsp.underRst = false := by
    simp only [rspOutValid, PrimFifoSync.rvalid, Bool.true_and, Bool.and_eq_true,
      Bool.not_eq_true'] at hvalid
    exact hvalid.2
  have hne := (PrimFifoSync.rvalid_pass_iff (by norm_num) hrst (ins t).dsRsp).mp hvalid
  rw [hb.visible_rsp hd] at hne
  have hlt : (delivered ins t).length < (arrived ins (t + 1)).length := by
    by_contra hge
    exact hne (List.drop_eq_nil_of_le (by omega))
  refine ⟨_, List.getElem?_eq_getElem hlt, (rspOut_of_head hrst ?_).1⟩
  rw [hb.visible_rsp hd, List.head?_drop, List.getElem?_eq_getElem hlt]

/-- **The next delivery.** A response is delivered only if one is due; it is the next one that
arrived, and the alignment store shows the request it answers. -/
theorem delivery (hup : (machine.stateAt ins t).upRvalid (ins t) = true) :
    ∃ r w, (requested ins t)[(delivered ins t).length]? = some r ∧
      (arrived ins (t + 1))[(delivered ins t).length]? = some w ∧
      (machine.stateAt ins t).rspOut (ins t) = w ∧
      (machine.stateAt ins t).misalign (ins t) = r.second ∧
      (machine.stateAt ins t).misalignValid (ins t) = true := by
  have hvalid : (machine.stateAt ins t).rspOutValid (ins t) = true := by
    rw [upRvalid_eq, Bool.and_eq_true] at hup
    exact hup.1
  obtain ⟨w, hw, hout⟩ := hb.rspOut_eq hd hvalid
  have hltR : (delivered ins t).length < (requested ins t).length :=
    lt_of_lt_of_le (List.getElem?_eq_some_iff.mp hw).1 (hb.length_arrived_succ_le hd)
  refine ⟨_, w, List.getElem?_eq_getElem hltR, hw, hout, ?_⟩
  refine misalign_of_head ?_
  have hdrop : ((requested ins t).drop (delivered ins t).length).map UpstreamReq.second =
      (requested ins t)[(delivered ins t).length].second ::
        ((requested ins t).drop ((delivered ins t).length + 1)).map UpstreamReq.second := by
    rw [List.drop_eq_getElem_cons hltR, List.map_cons]
  rcases hb.align with ⟨-, h⟩ | ⟨-, -, -, h⟩ <;> rw [h, hdrop] <;> rfl

/-- A delivery is due only while a request is unanswered. -/
theorem lt_of_upRvalid (hup : (machine.stateAt ins t).upRvalid (ins t) = true) :
    (delivered ins t).length < (arrived ins (t + 1)).length ∧
      (delivered ins t).length < (requested ins t).length := by
  obtain ⟨r, w, hr, hw, -⟩ := hb.delivery hd hup
  exact ⟨(List.getElem?_eq_some_iff.mp hw).1, (List.getElem?_eq_some_iff.mp hr).1⟩

/-- What the alignment store shows: the unanswered requests, and the one that asks now. -/
theorem visible_align :
    (machine.stateAt ins t).align.visible ((machine.stateAt ins t).alignForkValid (ins t))
        ((ins t).up.addr.getLsbD 2) =
      ((requested ins t).drop (delivered ins t).length).map UpstreamReq.second ++
        if (ins t).up.req then [(ins t).up.second] else [] := by
  rcases hb.align with ⟨hfork, hitems⟩ | ⟨hfork, hreq, -, hitems⟩
  · have hvalid : (machine.stateAt ins t).alignForkValid (ins t) = (ins t).up.req := by
      simp [alignForkValid, hfork]
    cases hreq : (ins t).up.req with
    | false => simp [hvalid, hreq, PrimFifoSync.visible_of_not_wvalid, hitems]
    | true =>
      have hw := hb.align_wready hd hreq hfork
      have hfull : (machine.stateAt ins t).align.store.full = false := by
        simp only [PrimFifoSync.wready, Bool.and_eq_true, Bool.not_eq_true'] at hw
        exact hw.1
      simp [PrimFifoSync.visible, PrimFifoSync.offer, Queue.accepted, hvalid, hreq, hw, hfull,
        hitems, UpstreamReq.second]
  · have hvalid : (machine.stateAt ins t).alignForkValid (ins t) = false := by
      rw [alignForkValid, hfork]
      exact StreamFork.validO_halfway_one _
    simp [hvalid, hreq, PrimFifoSync.visible_of_not_wvalid, hitems]

/-- The alignment store lets one element out with every delivery. -/
theorem align_items_succ :
    (machine.stateAt ins (t + 1)).align.store.items =
      ((requested ins t).drop (delivered ins (t + 1)).length).map UpstreamReq.second ++
        if (ins t).up.req then [(ins t).up.second] else [] := by
  have hstep : (machine.stateAt ins (t + 1)).align.store.items =
      ((machine.stateAt ins t).align.visible ((machine.stateAt ins t).alignForkValid (ins t))
        ((ins t).up.addr.getLsbD 2)).drop
        ((machine.stateAt ins t).align.rvalid false ((machine.stateAt ins t).alignForkValid (ins t))
          && (machine.stateAt ins t).upRvalid (ins t) &&
          !(machine.stateAt ins t).align.underRst).toNat := rfl
  have hpop : ((machine.stateAt ins t).align.rvalid false
      ((machine.stateAt ins t).alignForkValid (ins t)) &&
      (machine.stateAt ins t).upRvalid (ins t) &&
      !(machine.stateAt ins t).align.underRst) = (machine.stateAt ins t).upRvalid (ins t) := by
    cases hup : (machine.stateAt ins t).upRvalid (ins t) with
    | false => simp
    | true =>
      obtain ⟨r, w, -, hw, -, -, hvalid⟩ := hb.delivery hd hup
      have ht : t ≠ 0 := by
        rintro rfl
        have := (hb.lt_of_upRvalid hd hup).2
        simp [requested] at this
      have hrv : (machine.stateAt ins t).align.rvalid false
          ((machine.stateAt ins t).alignForkValid (ins t)) = true := hvalid
      simp [hrv, (hb.reset ht).1]
  rw [hstep, hpop, hb.visible_align hd, length_delivered_succ]
  have hle : ((machine.stateAt ins t).upRvalid (ins t)).toNat ≤
      (((requested ins t).drop (delivered ins t).length).map UpstreamReq.second).length := by
    cases hup : (machine.stateAt ins t).upRvalid (ins t) with
    | false => exact Nat.zero_le _
    | true =>
      have := (hb.lt_of_upRvalid hd hup).2
      rw [List.length_map, List.length_drop, Bool.toNat_true]
      omega
  rw [List.drop_append_of_le_length hle, ← List.map_drop, List.drop_drop]

theorem rsp_items_succ :
    (machine.stateAt ins (t + 1)).rsp.store.items =
      (arrived ins (t + 1)).drop (delivered ins (t + 1)).length := by
  have hstep : (machine.stateAt ins (t + 1)).rsp.store.items =
      ((machine.stateAt ins t).rsp.visible (ins t).dsRvalid (ins t).dsRsp).drop
        ((machine.stateAt ins t).rspOutValid (ins t) &&
          (machine.stateAt ins t).rspOutReady (ins t) &&
          !(machine.stateAt ins t).rsp.underRst).toNat := rfl
  have hpop : ((machine.stateAt ins t).rspOutValid (ins t) &&
      (machine.stateAt ins t).rspOutReady (ins t) && !(machine.stateAt ins t).rsp.underRst) =
      (machine.stateAt ins t).upRvalid (ins t) := by
    rw [rspOutReady_eq]
    cases hup : (machine.stateAt ins t).upRvalid (ins t) with
    | false => simp
    | true =>
      have hvalid : (machine.stateAt ins t).rspOutValid (ins t) = true := by
        rw [upRvalid_eq, Bool.and_eq_true] at hup
        exact hup.1
      have hrst := hvalid
      simp only [rspOutValid, PrimFifoSync.rvalid, Bool.true_and, Bool.and_eq_true] at hrst
      simp [hvalid, hrst.2]
  rw [hstep, hpop, hb.visible_rsp hd, List.drop_drop, length_delivered_succ]

/-- Either the fork is idle after the edge and the request of the cycle, if any, was granted; or it
waits, and the request is still there. -/
theorem fork_succ :
    (machine.stateAt ins (t + 1)).fork = StreamFork.init ∧
        (machine.stateAt ins t).upGnt (ins t) = (ins t).up.req ∨
      (machine.stateAt ins (t + 1)).fork = StreamFork.halfway ∧ (ins t).up.req = true ∧
        (machine.stateAt ins t).upGnt (ins t) = false := by
  have hgnt := (hb.upGnt_eq hd).1
  have hstep : (machine.stateAt ins (t + 1)).fork =
      (machine.stateAt ins t).fork.next (ins t).up.req
        ![(ins t).dsGnt, (machine.stateAt ins t).align.wready] := rfl
  rw [hstep, hgnt]
  cases hreq : (ins t).up.req with
  | false =>
    rcases hb.align with ⟨hfork, -⟩ | ⟨-, h, -⟩
    · exact .inl ⟨by rw [hfork, StreamFork.next_init_of_not_valid], rfl⟩
    · rw [h] at hreq
      cases hreq
  | true =>
    have hnext : (machine.stateAt ins t).fork.next true
        ![(ins t).dsGnt, (machine.stateAt ins t).align.wready] =
        if (ins t).dsGnt then StreamFork.init else StreamFork.halfway := by
      rcases hb.align with ⟨hfork, -⟩ | ⟨hfork, -⟩
      · rw [hfork, hb.align_wready hd hreq hfork, StreamFork.next_init]
      · rw [hfork, StreamFork.next_halfway]
    rw [hnext]
    cases (ins t).dsGnt <;> simp

theorem align_succ :
    (machine.stateAt ins (t + 1)).fork = StreamFork.init ∧
      (machine.stateAt ins (t + 1)).align.store.items =
        ((requested ins (t + 1)).drop (delivered ins (t + 1)).length).map UpstreamReq.second ∨
    (machine.stateAt ins (t + 1)).fork = StreamFork.halfway ∧ (ins (t + 1)).up.req = true ∧
      (requested ins (t + 1)).length < (delivered ins (t + 1)).length + 2 ∧
      (machine.stateAt ins (t + 1)).align.store.items =
        ((requested ins (t + 1)).drop (delivered ins (t + 1)).length).map UpstreamReq.second ++
          [(ins (t + 1)).up.second] := by
  have hitems := hb.align_items_succ hd
  have hle : (delivered ins (t + 1)).length ≤ (requested ins t).length := by
    have h1 := hb.delivered_le.trans hb.arrived_le
    rw [length_delivered_succ]
    cases hup : (machine.stateAt ins t).upRvalid (ins t) with
    | false => simpa using h1
    | true =>
      have := (hb.lt_of_upRvalid hd hup).2
      rw [Bool.toNat_true]
      omega
  rcases hb.fork_succ hd with ⟨hfork, hgnt⟩ | ⟨hfork, hreq, hgnt⟩
  · refine .inl ⟨hfork, ?_⟩
    rw [hitems, requested_succ, hgnt, List.drop_append_of_le_length hle, List.map_append]
    cases (ins t).up.req <;> rfl
  · -- the request is held, so the stored alignment is that of the next cycle's request too
    have hhold := hd.hold hreq hgnt
    have hroom := hd.room hreq
    have hR : requested ins (t + 1) = requested ins t := by simp [requested_succ, hgnt]
    refine .inr ⟨hfork, by rw [hhold, hreq], ?_, ?_⟩
    · rw [hR, length_delivered_succ]
      omega
    · rw [hitems, hR, hhold, if_pos hreq]

omit hd in
theorem ptr_succ_zero (hd0 : (delivered ins (t + 1)).length = 0) :
    (machine.stateAt ins (t + 1)).ptrValid = false := by
  rw [length_delivered_succ] at hd0
  cases hup : (machine.stateAt ins t).upRvalid (ins t) with
  | false =>
    have hstep : (machine.stateAt ins (t + 1)).ptrValid =
        if (machine.stateAt ins t).upRvalid (ins t) then
          (machine.stateAt ins t).ptrStorageEnable (ins t)
        else (machine.stateAt ins t).ptrValid := rfl
    rw [hstep, hup, if_neg (by simp)]
    exact hb.ptr_zero (by omega)
  | true => simp [hup] at hd0

theorem ptr_succ_succ {k : ℕ} {r : UpstreamReq} {w : DsRsp}
    (hlen : (delivered ins (t + 1)).length = k + 1) (hr : (requested ins (t + 1))[k]? = some r)
    (hw : (arrived ins (t + 1))[k]? = some w) :
    (machine.stateAt ins (t + 1)).ptrValid = (w.tag && !r.second) ∧
      ((machine.stateAt ins (t + 1)).ptrValid = true →
        (machine.stateAt ins (t + 1)).ptr = w.data) := by
  have hvalidStep : (machine.stateAt ins (t + 1)).ptrValid =
      if (machine.stateAt ins t).upRvalid (ins t) then
        (machine.stateAt ins t).ptrStorageEnable (ins t)
      else (machine.stateAt ins t).ptrValid := rfl
  have hptrStep : (machine.stateAt ins (t + 1)).ptr =
      if (machine.stateAt ins t).upRvalid (ins t) &&
        (machine.stateAt ins t).ptrStorageEnable (ins t)
      then ((machine.stateAt ins t).rspOut (ins t)).data
      else (machine.stateAt ins t).ptr := rfl
  have hlenStep := @length_delivered_succ ins t
  rw [hlen] at hlenStep
  cases hup : (machine.stateAt ins t).upRvalid (ins t) with
  | false =>
    rw [hup, Bool.toNat_false] at hlenStep
    have hkA : k < (arrived ins t).length := by have := hb.delivered_le; omega
    have hkR : k < (requested ins t).length := by have := hb.arrived_le; omega
    rw [arrived_succ, List.getElem?_append_left hkA] at hw
    rw [requested_succ, List.getElem?_append_left hkR] at hr
    rw [hvalidStep, hptrStep, hup]
    exact hb.ptr_succ (by omega) hr hw
  | true =>
    rw [hup, Bool.toNat_true] at hlenStep
    obtain ⟨r', w', hr', hw', hrsp, hmis, hmisValid⟩ := hb.delivery hd hup
    have hk : (delivered ins t).length = k := by omega
    rw [hk] at hr' hw'
    have hkR := (List.getElem?_eq_some_iff.mp hr').1
    rw [requested_succ, List.getElem?_append_left hkR, hr'] at hr
    rw [hw'] at hw
    cases hr
    cases hw
    have henable : (machine.stateAt ins t).ptrStorageEnable (ins t) = (w.tag && !r.second) := by
      simp [ptrStorageEnable, hrsp, hmis, hmisValid]
    rw [hvalidStep, hptrStep, hup, henable, hrsp]
    refine ⟨rfl, fun h => ?_⟩
    rw [if_pos (by simpa using h)]

/-- The invariant survives a cycle. -/
theorem succ : Bridge ins (t + 1) where
  reset _ := ⟨rfl, rfl⟩
  forwarded_eq := by
    have h : forwarded ins (t + 1) = forwarded ins t ++
        if (machine.stateAt ins t).dsReq (ins t) && (ins t).dsGnt then [(ins t).up] else [] := rfl
    rw [h, requested_succ, hb.forwarded_eq, (hb.upGnt_eq hd).1, (hb.upGnt_eq hd).2]
  align := hb.align_succ hd
  rsp := hb.rsp_items_succ hd
  delivered_le := by
    rw [length_delivered_succ]
    cases hup : (machine.stateAt ins t).upRvalid (ins t) with
    | false => simpa using hb.delivered_le.trans length_arrived_le_succ
    | true => exact (hb.lt_of_upRvalid hd hup).1
  arrived_le := (hb.length_arrived_succ_le hd).trans (machine.log_le ins _ t.le_succ).length_le
  room := by
    rw [requested_succ, length_delivered_succ, List.length_append, (hb.upGnt_eq hd).1]
    have hroom := hb.room
    cases hreq : (ins t).up.req with
    | false => simp; omega
    | true =>
      have := hd.room hreq
      cases (ins t).dsGnt <;> simp <;> omega
  ptr_zero := hb.ptr_succ_zero
  ptr_succ := hb.ptr_succ_succ hd

end Bridge

/-- **The bridge.** The invariant holds throughout a disciplined run. -/
theorem bridge (hd : Disciplined ins) (t : ℕ) : Bridge ins t := by
  induction t with
  | zero => exact bridge_zero ins
  | succ t ih => exact ih.succ (hd.at t)

/-! ### What one delivery is -/

/-- Entry `k` of the delivery log, seen from the cycle that made it. -/
theorem delivered_at (hd : Disciplined ins) {t k : ℕ} {u : Delivery}
    (hu : (delivered ins t)[k]? = some u) :
    ∃ v r w, v < t ∧ (machine.stateAt ins v).upRvalid (ins v) = true ∧
      (delivered ins v).length = k ∧ u = (machine.stateAt ins v).delivery (ins v) ∧
      (requested ins v)[k]? = some r ∧ (arrived ins (v + 1))[k]? = some w ∧
      (machine.stateAt ins v).rspOut (ins v) = w ∧
      (machine.stateAt ins v).misalign (ins v) = r.second ∧
      (machine.stateAt ins v).misalignValid (ins v) = true := by
  obtain ⟨v, hvt, hup, hlen, hval⟩ := machine.exists_of_getElem?_log ins hu
  obtain ⟨r, w, hr, hw, hrest⟩ := (bridge hd v).delivery (hd.at v) hup
  have hk : (delivered ins v).length = k := hlen
  rw [hk] at hr hw
  exact ⟨v, r, w, hvt, hup, hk, hval, hr, hw, hrest⟩

/-- **Data and errors pass unchanged.** A delivered response is the one that arrived, except that
its tag may have been withheld. -/
theorem delivered_unchanged (hd : Disciplined ins) {t k : ℕ} {u : Delivery}
    (hu : (delivered ins t)[k]? = some u) :
    ∃ w, (arrived ins t)[k]? = some w ∧ u.rsp = { w with tag := u.rsp.tag } ∧
      (u.rsp.tag = true → w.tag = true) := by
  obtain ⟨v, r, w, hvt, -, -, rfl, -, hw, hrsp, -⟩ := delivered_at hd hu
  refine ⟨w, machine.getElem?_log_of_le ins hvt hw, ?_, fun htag => ?_⟩
  · simp [delivery, upRsp, hrsp]
  · simp only [delivery, upRsp, upTag, hrsp, Bool.and_eq_true] at htag
    exact htag.2

/-! ### Every response is delivered -/

/-- Every bitmap lookup is answered once, after any delay. -/
structure LookupsAnswered (ins : ℕ → TrvkIn) : Prop where
  /-- No response comes unasked. -/
  solicited : ∀ t, (ins t).revbmRvalid = true → (machine.stateAt ins t).outstanding = true
  /-- A lookup that is required is answered at some point. -/
  answered : ∀ t, (machine.stateAt ins t).revbmReqRequired (ins t) = true →
    ∃ u, t ≤ u ∧ (ins u).revbmRvalid = true

/-- No answer to a bitmap lookup comes unasked. -/
def Solicited (ins : ℕ → TrvkIn) : Prop :=
  ∀ t, (ins t).revbmRvalid = true → (machine.stateAt ins t).outstanding = true

theorem pending_of_outstanding (hm : Solicited ins) (t : ℕ) :
    (machine.stateAt ins t).outstanding = true → (machine.stateAt ins t).Pending := by
  induction t with
  | zero => exact nofun
  | succ t ih => exact fun ho => pending_of_outstanding_step ih (hm t) ho

theorem length_delivered_mono {t u : ℕ} (h : t ≤ u) :
    (delivered ins t).length ≤ (delivered ins u).length :=
  (machine.log_le ins _ h).length_le

/-- While a lookup is not answered, the filter goes on waiting for it. -/
theorem revbmReqRequired_until {t u : ℕ} (htu : t ≤ u)
    (hreq : (machine.stateAt ins t).revbmReqRequired (ins t) = true)
    (hno : ∀ v, t ≤ v → v < u → (ins v).revbmRvalid = false) :
    (machine.stateAt ins u).revbmReqRequired (ins u) = true := by
  induction u, htu using Nat.le_induction with
  | base => exact hreq
  | succ u htu ih =>
    have hu := ih (fun v hv hvu => hno v hv (hvu.trans u.lt_succ_self))
    exact (pending_step hu (hno u htu u.lt_succ_self)).revbmReqRequired _

/-- As long as a response waits, one is delivered at some point. -/
theorem exists_delivery (hd : Disciplined ins) (hm : LookupsAnswered ins) {t : ℕ}
    (hlt : (delivered ins t).length < (arrived ins t).length) :
    ∃ u, t < u ∧ (delivered ins t).length < (delivered ins u).length := by
  have hb := bridge hd t
  have ht : t ≠ 0 := by
    rintro rfl
    exact absurd hlt (lt_irrefl 0)
  have hvalid : (machine.stateAt ins t).rspOutValid (ins t) = true := by
    rw [rspOutValid, PrimFifoSync.rvalid_pass_iff (by norm_num) (hb.reset ht).2 (ins t).dsRsp,
      hb.visible_rsp (hd.at t)]
    intro hnil
    have hlen := congrArg List.length hnil
    have hmono := @length_arrived_le_succ ins t
    rw [List.length_drop, List.length_nil] at hlen
    omega
  -- a cycle that delivers makes the log longer
  have hdeliver : ∀ u, t ≤ u → (machine.stateAt ins u).upRvalid (ins u) = true →
      ∃ u, t < u ∧ (delivered ins t).length < (delivered ins u).length := by
    intro u htu hup
    have hmono := @length_delivered_mono ins t u htu
    refine ⟨u + 1, by omega, ?_⟩
    rw [length_delivered_succ, hup, Bool.toNat_true]
    omega
  cases hreq : (machine.stateAt ins t).revbmReqRequired (ins t) with
  | false =>
    refine hdeliver t le_rfl ?_
    rw [upRvalid_eq, hvalid, hreq]
    simp
  | true =>
    have hex : ∃ u, t ≤ u ∧ (ins u).revbmRvalid = true := hm.answered t hreq
    obtain ⟨htu, hans⟩ := Nat.find_spec hex
    have hno : ∀ v, t ≤ v → v < Nat.find hex → (ins v).revbmRvalid = false := by
      intro v htv hv
      have := Nat.find_min hex hv
      simpa [htv] using this
    have hreq' := revbmReqRequired_until htu hreq hno
    refine hdeliver _ htu ?_
    rw [upRvalid_eq, rspOutValid_of_revbmReqRequired hreq', hans]
    rfl

/-- **Nothing is held back forever.** Every response that arrives is delivered at some point. -/
theorem eventually_delivered (hd : Disciplined ins) (hm : LookupsAnswered ins) {t k : ℕ}
    (hk : k < (arrived ins t).length) : ∃ u, k < (delivered ins u).length := by
  -- at least `n` of the `k + 1` responses are delivered at some point, by induction on `n`
  have hreach : ∀ n, n ≤ k + 1 → ∃ u, t ≤ u ∧ n ≤ (delivered ins u).length := by
    intro n
    induction n with
    | zero => exact fun _ => ⟨t, le_rfl, Nat.zero_le _⟩
    | succ n ih =>
      intro hn
      obtain ⟨u, htu, hu⟩ := ih (by omega)
      by_cases hlt : n < (delivered ins u).length
      · exact ⟨u, htu, hlt⟩
      · have harr : (arrived ins t).length ≤ (arrived ins u).length :=
          (machine.log_le ins _ htu).length_le
        obtain ⟨v, huv, hv⟩ := exists_delivery hd hm (t := u) (by omega)
        exact ⟨v, by omega, by omega⟩
  obtain ⟨u, -, hu⟩ := hreach (k + 1) le_rfl
  exact ⟨u, hu⟩

/-- Once the responses have dried up and the store is empty, no lookup is required. -/
theorem revbmReqRequired_of_drained {n t : ℕ} (hidle : ∀ u, n ≤ u → (ins u).dsRvalid = false)
    (hempty : (machine.stateAt ins n).rsp.store.items = []) (hnt : n ≤ t) :
    (machine.stateAt ins t).revbmReqRequired (ins t) = false := by
  have hitems : (machine.stateAt ins t).rsp.store.items = [] := by
    refine Machine.stateAt_stable (I := fun s : Trvk => s.rsp.store.items = []) hempty
      (fun u hu h => ?_) hnt
    have hstep : (machine.stateAt ins (u + 1)).rsp.store.items =
        ((machine.stateAt ins u).rsp.visible (ins u).dsRvalid (ins u).dsRsp).drop _ := rfl
    rw [hstep, hidle u hu, PrimFifoSync.visible_of_not_wvalid, h, List.drop_nil]
  by_contra hne
  have hvalid := rspOutValid_of_revbmReqRequired (Bool.eq_true_of_not_eq_false hne)
  simp [rspOutValid, PrimFifoSync.rvalid, PrimFifoSync.empty, hitems, hidle t hnt] at hvalid

/-! ### The bridge as a whole -/

/-- **A lossless in-order bridge**, as it shows in cycle `t`. -/
structure Lossless (ins : ℕ → TrvkIn) (t : ℕ) : Prop where
  /-- What was granted upstream was granted downstream, once, in order and with its payload. -/
  forwarded_eq : forwarded ins t = requested ins t
  /-- The deliveries are the first of the arrivals, once, in order and with data and error. -/
  inOrder : (delivered ins t).map (fun u => (u.rsp.data, u.rsp.intg, u.rsp.err)) <+:
    (arrived ins t).map fun w => (w.data, w.intg, w.err)
  /-- Every arrival is delivered at some point. -/
  complete : ∀ k, k < (arrived ins t).length → ∃ u, k < (delivered ins u).length
  /-- The response store accepts every response. -/
  stored : (ins t).dsRvalid = true → (machine.stateAt ins t).rsp.wready = true
  /-- A response is delivered next to the alignment bit of its own request. -/
  paired : (machine.stateAt ins t).upRvalid (ins t) = true →
    ∃ r, (requested ins t)[(delivered ins t).length]? = some r ∧
      (machine.stateAt ins t).misalignValid (ins t) = true ∧
      (machine.stateAt ins t).misalign (ins t) = r.second

theorem delivered_inOrder (hd : Disciplined ins) (t : ℕ) :
    (delivered ins t).map (fun u => (u.rsp.data, u.rsp.intg, u.rsp.err)) <+:
      (arrived ins t).map fun w => (w.data, w.intg, w.err) := by
  rw [List.prefix_iff_getElem?]
  intro k hk
  rw [List.length_map] at hk
  obtain ⟨w, hw, heq, -⟩ := delivered_unchanged hd (List.getElem?_eq_getElem hk)
  rw [List.getElem?_map, hw, List.getElem_map, heq]
  rfl

/-- A run that loads a capability based at `0x1001_0000` whose bitmap bit is set. The lookup is made
when the second word arrives, in cycle 3, and answered in cycle 4. -/
def revokedLoad : ℕ → TrvkIn
  | 1 => { (default : TrvkIn) with
      up := { (default : UpstreamReq) with req := true, addr := 0x10000000 }
      dsGnt := true }
  | 2 => { (default : TrvkIn) with
      up := { (default : UpstreamReq) with req := true, addr := 0x10000004 }
      dsGnt := true
      dsRvalid := true
      dsRsp := ⟨0x10010000, 0, true, false⟩ }
  | 3 => { (default : TrvkIn) with
      dsRvalid := true
      dsRsp := ⟨0x7e002000, 0, true, false⟩
      revbmGnt := true }
  | 4 => { (default : TrvkIn) with revbmRvalid := true, revbmRdata := 1 }
  | _ => default

theorem revokedLoad_disciplined : Disciplined revokedLoad where
  quiet := rfl
  hold
    | 0 | 1 | 2 | 3 | 4 => by decide +kernel
    | t + 5 => nofun
  room
    | 0 | 1 | 2 | 3 | 4 => by decide +kernel
    | t + 5 => nofun
  causal
    | 0 | 1 | 2 | 3 | 4 => by decide +kernel
    | t + 5 => nofun

theorem revokedLoad_lookups : LookupsAnswered revokedLoad where
  solicited
    | 0 | 1 | 2 | 3 | 4 => by decide +kernel
    | t + 5 => nofun
  answered t hreq := by
    refine ⟨4, ?_, rfl⟩
    by_contra hlt
    have hidle : ∀ u, 5 ≤ u → (revokedLoad u).dsRvalid = false
      | u + 5, _ => rfl
    rw [revbmReqRequired_of_drained hidle (by decide +kernel) (by omega)] at hreq
    cases hreq

/-- **The filter loses, invents and reorders nothing**: in a disciplined run whose lookups are all
answered, whatever the delays. -/
theorem lossless_inOrder (hd : Disciplined ins) (hm : LookupsAnswered ins) (t : ℕ) :
    Lossless ins t where
  forwarded_eq := (bridge hd t).forwarded_eq
  inOrder := delivered_inOrder hd t
  complete _ hk := eventually_delivered hd hm hk
  stored := (bridge hd t).rsp_wready (hd.at t)
  paired hup := by
    obtain ⟨r, -, hr, -, -, hmis, hvalid⟩ := (bridge hd t).delivery (hd.at t) hup
    exact ⟨r, hr, hvalid, hmis⟩

/-- The run that loads a revoked capability loses nothing either. -/
theorem lossless_inOrder_revokedLoad :
    (delivered revokedLoad 5).length = 2 ∧ Lossless revokedLoad 5 :=
  ⟨by decide +kernel, lossless_inOrder revokedLoad_disciplined revokedLoad_lookups 5⟩

/-- The protocol of the data port alone, with nothing said about the first cycle. -/
structure PortProtocol (ins : ℕ → TrvkIn) : Prop where
  /-- A request is held until it is granted. -/
  hold : ∀ t, (ins t).up.req = true → (machine.stateAt ins t).upGnt (ins t) = false →
    (ins (t + 1)).up = (ins t).up
  /-- A request is made only while fewer than two earlier ones are unanswered. -/
  room : ∀ t, (ins t).up.req = true → (requested ins t).length < (delivered ins t).length + 2
  /-- A response answers a request granted in an earlier cycle. -/
  causal : ∀ t, (ins t).dsRvalid = true → (arrived ins t).length < (forwarded ins t).length

/-- A request in the cycle that leaves reset. The memory system grants it at once, but the alignment
store is not ready yet, so its response overtakes its alignment bit. A second word is read next. -/
def resetLoad : ℕ → TrvkIn
  | 0 => { (default : TrvkIn) with
      up := { (default : UpstreamReq) with req := true, addr := 0x10000000 }
      dsGnt := true }
  | 1 => { (default : TrvkIn) with
      up := { (default : UpstreamReq) with req := true, addr := 0x10000000 }
      dsRvalid := true }
  | 2 => { (default : TrvkIn) with
      up := { (default : UpstreamReq) with req := true, addr := 0x10000004 }
      dsGnt := true }
  | 3 => { (default : TrvkIn) with dsRvalid := true }
  | _ => default

theorem resetLoad_protocol : PortProtocol resetLoad where
  hold
    | 0 | 1 | 2 | 3 => by decide +kernel
    | t + 4 => nofun
  room
    | 0 | 1 | 2 | 3 => by decide +kernel
    | t + 4 => nofun
  causal
    | 0 | 1 | 2 | 3 => by decide +kernel
    | t + 4 => nofun

theorem resetLoad_lookups : LookupsAnswered resetLoad where
  solicited
    | 0 | 1 | 2 | 3 => nofun
    | t + 4 => nofun
  answered
    | 0 | 1 | 2 | 3 => fun hreq => absurd hreq (by decide +kernel)
    | t + 4 => by
      intro hreq
      have hidle : ∀ u, 4 ≤ u → (resetLoad u).dsRvalid = false
        | u + 4, _ => rfl
      rw [revbmReqRequired_of_drained hidle (by decide +kernel) (by omega)] at hreq
      cases hreq

/-- **Why the first cycle must be quiet.** The protocol alone does not make the bridge lossless:
after a request in the cycle that leaves reset, a second word is delivered with the alignment bit of
the first. -/
theorem resetLoad_mispaired :
    PortProtocol resetLoad ∧ LookupsAnswered resetLoad ∧ ¬ ∀ t, Lossless resetLoad t := by
  refine ⟨resetLoad_protocol, resetLoad_lookups, fun h => ?_⟩
  obtain ⟨r, hr, -, hmis⟩ := (h 3).paired (by decide +kernel)
  have hr' : (requested resetLoad 3)[(delivered resetLoad 3).length]? = some (resetLoad 2).up := by
    decide +kernel
  rw [hr'] at hr
  cases hr
  exact absurd hmis (by decide +kernel)

end Trvk

end Revocation

end Croc
