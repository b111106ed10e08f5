import Croc.Cells

/-!
# Stream cells of the DMA

The buffers between the stages of the DMA backend: a FIFO whose element can leave in the cycle in
which it arrives (`stream_fifo` with `FALL_THROUGH`, `fall_through_register`), a FIFO that takes an
element while it is full if one leaves in the same cycle (`passthrough_stream_fifo`), and the
converter that gives a port without back-pressure on its responses to a requester that needs it
(`obi_rready_converter`): it keeps a credit for each response it has room for and lets no request
out without one.

As in `Croc.Cells` the rings of registers are modelled by their contents.

## Main definitions

* `FallThroughFifo`, `PassthroughStreamFifo`, `RreadyConverter`.

## Main results

* `StreamFifo.conserved`, `FallThroughFifo.conserved`, `PassthroughStreamFifo.conserved`: what is
  held and what comes in is what leaves and what is held afterwards.
-/

namespace Croc

open Clocked

theorem length_toList_eq {α : Type*} (o : Option α) : o.toList.length = o.isSome.toNat := by
  cases o <;> rfl

/-! ### `stream_fifo` -/

namespace StreamFifo

variable {α : Type*} {depth : ℕ} {f : StreamFifo α depth} {validI readyI : Bool} {dataI : α}

theorem validO_eq_isSome : f.validO = f.store.items.head?.isSome := by
  rw [validO]
  cases f.store.items <;> rfl

/-- **Conservation.** -/
theorem conserved : f.store.items ++ (if f.push validI then [dataI] else []) =
    (if f.pop readyI then f.store.items.head?.toList else []) ++
      (f.next validI dataI readyI).store.items := by
  rw [items_next]
  cases hpop : f.pop readyI with
  | false => simp
  | true =>
    cases hi : f.store.items with
    | nil => simp [pop, validO, hi] at hpop
    | cons a l => simp

/-- **Conservation**, for an environment that keeps to the handshake. What the FIFO shows while it
is empty does not matter. -/
theorem conserved_of_handshake (hpush : validI = true → f.readyO = true)
    (hpop : readyI = true → f.validO = true)
    (stale : α) : f.store.items ++ (if validI then [dataI] else []) =
      (if readyI then [f.store.items.headD stale] else []) ++
        (f.next validI dataI readyI).store.items := by
  have hin : f.push validI = validI := by
    cases validI with
    | false => rfl
    | true => exact hpush rfl
  have hout : (if f.pop readyI then f.store.items.head?.toList else []) =
      if readyI then [f.store.items.headD stale] else [] := by
    cases readyI with
    | false => rfl
    | true =>
      have hvalid := hpop rfl
      rw [pop, hvalid, Bool.and_true, if_pos rfl, if_pos rfl]
      cases hi : f.store.items with
      | nil => simp [validO, hi] at hvalid
      | cons a l => rfl
  rw [← hout, ← conserved, hin]

end StreamFifo

/-! ### Fall-through FIFOs -/

/-- A `stream_fifo` with fall-through. At depth one it is the `fall_through_register`. -/
structure FallThroughFifo (α : Type*) (depth : ℕ) where
  /-- The elements held. -/
  store : Queue α depth
  deriving DecidableEq

namespace FallThroughFifo

variable {α : Type*} {depth : ℕ} (f : FallThroughFifo α depth) (offer : Option α) (readyI : Bool)

/-- The FIFO out of reset. -/
def init : FallThroughFifo α depth := ⟨Queue.empty⟩

/-- `ready_o`: not full. -/
def readyO : Bool := !f.store.full

/-- `data_o`, where `valid_o` is set: the oldest element, or the one that is pushed into the empty
FIFO. -/
def out : Option α :=
  match f.store.items.head? with
  | some a => some a
  | none => if f.readyO then offer else none

/-- `pop`. -/
def pop : Bool := readyI && (f.out offer).isSome

/-- One clock edge. The element on the input is `data_i`, where `valid_i` is set. -/
def next : FallThroughFifo α depth where
  store := f.store.edge offer (f.pop offer readyI)

variable {f offer readyI}

theorem out_eq_head? : f.out offer = (f.store.items ++ f.store.accepted offer).head? := by
  unfold out
  cases hi : f.store.items with
  | nil => cases hfull : f.store.full <;> cases offer <;> simp [readyO, Queue.accepted, hfull]
  | cons a l => simp

/-- **Conservation.** -/
theorem conserved : f.store.items ++ f.store.accepted offer =
    (if f.pop offer readyI then (f.out offer).toList else []) ++
      (f.next offer readyI).store.items := by
  rw [Queue.accepted_append f.store offer (f.pop offer readyI)]
  congr 1
  rw [Queue.released, pop, out_eq_head?]
  cases f.store.items ++ f.store.accepted offer <;> cases readyI <;> simp

/-- **Conservation**, for an environment that keeps to the handshake. -/
theorem conserved_of_handshake (hpush : offer.isSome = true → f.readyO = true) :
    f.store.items ++ offer.toList =
      (if readyI then (f.out offer).toList else []) ++ (f.next offer readyI).store.items := by
  have hin : f.store.accepted offer = offer.toList := by
    cases offer with
    | none => simp [Queue.accepted]
    | some a => exact if_neg (by simpa [readyO] using hpush rfl)
  have hout : (if f.pop offer readyI then (f.out offer).toList else []) =
      if readyI then (f.out offer).toList else [] := by
    rw [pop]
    cases f.out offer <;> cases readyI <;> rfl
  rw [← hout, ← conserved, hin]

end FallThroughFifo

/-! ### `passthrough_stream_fifo` -/

/-- A `passthrough_stream_fifo`. -/
structure PassthroughStreamFifo (α : Type*) (depth : ℕ) where
  /-- The elements held. -/
  store : Queue α depth
  deriving DecidableEq

namespace PassthroughStreamFifo

variable {α : Type*} {depth : ℕ} (f : PassthroughStreamFifo α depth) (offer : Option α)
    (readyI : Bool)

/-- The FIFO out of reset. -/
def init : PassthroughStreamFifo α depth := ⟨Queue.empty⟩

/-- `valid_o`. -/
def validO : Bool := !f.store.items.isEmpty

/-- `ready_o`: there is room, or an element leaves in this cycle. -/
def readyO : Bool := !f.store.full || (readyI && f.validO)

/-- One clock edge. The FIFO relies on its environment: it is pushed only if it is ready, and popped
only if it is valid. -/
def next : PassthroughStreamFifo α depth where
  store := (f.store.edge none readyI).edge offer false

variable {f offer readyI}

/-- **Conservation**, for an environment that keeps to the handshake. -/
theorem conserved (hpush : offer.isSome = true → f.readyO readyI = true)
    (hpop : readyI = true → f.validO = true) :
    f.store.items ++ offer.toList =
      (if readyI then f.store.items.head?.toList else []) ++ (f.next offer readyI).store.items := by
  have hpopped : f.store.items =
      (if readyI then f.store.items.head?.toList else []) ++ (f.store.edge none readyI).items := by
    rw [Queue.items_edge]
    cases readyI with
    | false => simp [Queue.accepted]
    | true =>
      have hvalid := hpop rfl
      cases hi : f.store.items with
      | nil => simp [validO, hi] at hvalid
      | cons a l => simp [Queue.accepted]
  have hroom : (f.store.edge none readyI).accepted offer = offer.toList := by
    rw [Queue.accepted]
    cases offer with
    | none => simp
    | some a =>
      have hready := hpush rfl
      refine if_neg fun hfull => ?_
      rw [Queue.full_iff] at hfull
      have hlen := congrArg List.length hpopped
      rw [List.length_append, hfull] at hlen
      have hle := f.store.length_le
      cases readyI with
      | false =>
        have hne : f.store.full = false := by simpa [readyO] using hready
        have := Queue.length_lt_of_not_full hne
        simp at hlen
        omega
      | true =>
        have hvalid := hpop rfl
        cases hi : f.store.items with
        | nil => simp [validO, hi] at hvalid
        | cons b l =>
          simp [hi] at hlen
          rw [hi, List.length_cons] at hle
          omega
  have hnext : (f.next offer readyI).store.items =
      (f.store.edge none readyI).items ++ offer.toList := by
    rw [next, Queue.items_edge, hroom]
    rfl
  rw [hnext, ← List.append_assoc, ← hpopped]

end PassthroughStreamFifo

/-! ### `obi_rready_converter` -/

/-- An `obi_rready_converter` of depth one, with its `credit_counter`. -/
structure RreadyConverter (α : Type*) where
  /-- `credit_q`. -/
  credit : BitVec 1
  /-- `response_fifo_i`. -/
  responses : FallThroughFifo α 1
  deriving DecidableEq

namespace RreadyConverter

variable {α : Type*} (c : RreadyConverter α) (combRspReq : Bool) (rsp : Option α) (rready : Bool)

/-- The converter out of reset. -/
def init : RreadyConverter α := ⟨1, FallThroughFifo.init⟩

/-- `sbr_r_chan_o`, where `rvalid_o` is set. -/
def out : Option α := c.responses.out rsp

/-- `credit_give_i`: a response is handed over. -/
def give : Bool := (c.out rsp).isSome && rready

/-- A request may pass: there is a credit, or with `CombRspReq` one comes back in this cycle. -/
def mayPass : Bool := c.credit != 0 || (combRspReq && c.give rsp rready)

/-- `gnt_o`. -/
def gntO (gntI : Bool) : Bool := gntI && c.mayPass combRspReq rsp rready

/-- `req_o`. -/
def reqO (reqI : Bool) : Bool := reqI && c.mayPass combRspReq rsp rready

/-- `credit_take_i`: a request is granted. -/
def take (reqI gntI : Bool) : Bool := c.reqO combRspReq rsp rready reqI && gntI

/-- One clock edge. -/
def next (reqI gntI : Bool) : RreadyConverter α where
  credit :=
    let take := c.take combRspReq rsp rready reqI gntI
    let give := c.give rsp rready
    if take && !give then c.credit - 1 else if !take && give then c.credit + 1 else c.credit
  responses := c.responses.next rsp rready

variable {c combRspReq rsp rready} {reqI gntI : Bool}

theorem take_eq :
    c.take combRspReq rsp rready reqI gntI = (reqI && c.gntO combRspReq rsp rready gntI) := by
  rw [take, reqO, gntO]
  cases reqI <;> cases gntI <;> simp

/-- The credit follows the requests that pass and the responses that are handed over. No request
passes without a credit, unless one comes back in the same cycle, so the counter never wraps below
zero; a response for every credit that is out keeps it from wrapping above one. -/
theorem credit_next (hout : c.give rsp rready = true → c.credit = 0) :
    (c.next combRspReq rsp rready reqI gntI).credit.toNat +
      (c.take combRspReq rsp rready reqI gntI).toNat =
      c.credit.toNat + (c.give rsp rready).toNat := by
  have hmay : c.take combRspReq rsp rready reqI gntI = true → c.credit = 0 →
      c.give rsp rready = true := by
    intro htake hzero
    simp only [take, reqO, mayPass, hzero, Bool.and_eq_true, Bool.or_eq_true] at htake
    rcases htake.1.2 with h | h
    · simp at h
    · exact h.2
  have hcase : c.credit = 0 ∨ c.credit = 1 := by
    generalize c.credit = x
    revert x
    decide
  rw [next]
  generalize c.give rsp rready = g at *
  generalize c.take combRspReq rsp rready reqI gntI = k at *
  rcases hcase with h | h <;> cases g <;> cases k <;> simp_all

theorem out_of_give (h : c.give rsp rready = true) : (c.out rsp).isSome = true :=
  (Bool.and_eq_true _ _ ▸ h : _ ∧ _).1

section Run

variable {c : ℕ → RreadyConverter α} {rsp : ℕ → Option α} {rready reqI gntI : ℕ → Bool}

/-- The number of requests that passed before cycle `t`. -/
def taken (c : ℕ → RreadyConverter α) (combRspReq : Bool) (rsp : ℕ → Option α)
    (rready reqI gntI : ℕ → Bool)
    (t : ℕ) : ℕ :=
  Nat.count (fun u => (c u).take combRspReq (rsp u) (rready u) (reqI u) (gntI u) = true) t

/-- The number of responses that were handed over before cycle `t`. -/
def given (c : ℕ → RreadyConverter α) (rsp : ℕ → Option α) (rready : ℕ → Bool) (t : ℕ) : ℕ :=
  Nat.count (fun u => (c u).give (rsp u) (rready u) = true) t

/-- The number of responses that came in before cycle `t`. -/
def arrived (rsp : ℕ → Option α) (t : ℕ) : ℕ := Nat.count (fun u => (rsp u).isSome = true) t

/-- A run of the converter on a port that answers only what was requested. -/
structure Runs (c : ℕ → RreadyConverter α) (combRspReq : Bool) (rsp : ℕ → Option α)
    (rready reqI gntI : ℕ → Bool) : Prop where
  zero : c 0 = init
  succ : ∀ t, c (t + 1) = (c t).next combRspReq (rsp t) (rready t) (reqI t) (gntI t)
  answers : ∀ t, (rsp t).isSome = true → arrived rsp t < taken c combRspReq rsp rready reqI gntI t

/-- The balance of a converter: a credit is at home or out with a request that passed, and a
response that came in is held or was handed over. -/
structure Balanced (c : RreadyConverter α) (taken given arrived : ℕ) : Prop where
  credit : taken + c.credit.toNat = given + 1
  held : arrived = given + c.responses.store.items.length
  answered : arrived ≤ taken

/-- A response that comes in finds room. -/
theorem Balanced.readyO {c : RreadyConverter α} {taken given arrived : ℕ}
    (h : Balanced c taken given arrived)
    (hlt : arrived < taken) : c.responses.readyO = true := by
  by_contra hne
  have hfull : c.responses.store.full = true := by
    simpa [FallThroughFifo.readyO] using hne
  rw [Queue.full_iff] at hfull
  have h1 := h.credit
  have h2 := h.held
  omega

/-- A response that is shown belongs to a request that passed and has not been handed over. -/
theorem Balanced.given_lt {c : RreadyConverter α} {taken given arrived : ℕ} {rsp : Option α}
    (h : Balanced c taken given arrived) (hanswers : rsp.isSome = true → arrived < taken)
    (hout : (c.out rsp).isSome = true) : given < taken := by
  have h2 := h.held
  have h3 := h.answered
  cases hi : c.responses.store.items with
  | nil =>
    have hrsp : rsp.isSome = true := by
      rw [out, FallThroughFifo.out, hi] at hout
      cases rsp with
      | none => simp at hout
      | some a => rfl
    have := hanswers hrsp
    omega
  | cons a l =>
    rw [hi, List.length_cons] at h2
    omega

theorem Runs.balanced (h : Runs c combRspReq rsp rready reqI gntI) (t : ℕ) :
    Balanced (c t) (taken c combRspReq rsp rready reqI gntI t) (given c rsp rready t)
      (arrived rsp t) := by
  induction t with
  | zero =>
    rw [h.zero]
    exact ⟨rfl, rfl, le_rfl⟩
  | succ t ih =>
    have hcredit : ((c t).next combRspReq (rsp t) (rready t) (reqI t) (gntI t)).credit.toNat +
        ((c t).take combRspReq (rsp t) (rready t) (reqI t) (gntI t)).toNat =
          (c t).credit.toNat + ((c t).give (rsp t) (rready t)).toNat := by
      refine credit_next fun hgive => ?_
      have hlt := ih.given_lt (h.answers t) (out_of_give hgive)
      have h1 := ih.credit
      have hz : (0 : BitVec 1).toNat = 0 := rfl
      apply BitVec.eq_of_toNat_eq
      omega
    have hlen : ((c t).responses.store.items ++ (rsp t).toList).length =
        ((if rready t then ((c t).responses.out (rsp t)).toList else []) ++
          ((c t).responses.next (rsp t) (rready t)).store.items).length :=
      congrArg List.length
        (FallThroughFifo.conserved_of_handshake fun hrsp => ih.readyO (h.answers t hrsp))
    have hout : (if rready t then ((c t).responses.out (rsp t)).toList else []).length =
        ((c t).give (rsp t) (rready t)).toNat := by
      rw [give, out]
      cases rready t <;> cases (c t).responses.out (rsp t) <;> rfl
    rw [List.length_append, List.length_append, hout] at hlen
    have harr := length_toList_eq (rsp t)
    have hans := h.answers t
    have h1 := ih.credit
    have h2 := ih.held
    have h3 := ih.answered
    have hcount : ∀ (p : ℕ → Bool), Nat.count (fun u => p u = true) (t + 1) =
        Nat.count (fun u => p u = true) t + (p t).toNat := by
      intro p
      rw [Nat.count_succ]
      cases p t <;> rfl
    have htaken : taken c combRspReq rsp rready reqI gntI (t + 1) =
        taken c combRspReq rsp rready reqI gntI t +
          ((c t).take combRspReq (rsp t) (rready t) (reqI t) (gntI t)).toNat := hcount _
    have hgiven : given c rsp rready (t + 1) =
        given c rsp rready t + ((c t).give (rsp t) (rready t)).toNat :=
      hcount _
    have harrived : arrived rsp (t + 1) = arrived rsp t + (rsp t).isSome.toNat := hcount _
    have hnext : (c (t + 1)).responses = (c t).responses.next (rsp t) (rready t) := by
      rw [h.succ]; rfl
    refine ⟨?_, ?_, ?_⟩
    · rw [h.succ, htaken, hgiven]
      omega
    · rw [hnext, harrived, hgiven]
      omega
    · rw [harrived, htaken]
      cases hr : (rsp t).isSome with
      | false => simp only [Bool.toNat_false]; omega
      | true =>
        have := hans hr
        simp only [Bool.toNat_true]
        omega

end Run

end RreadyConverter

end Croc
