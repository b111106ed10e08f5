import Croc.Lib.Bits
import Croc.Lib.Clocked

/-!
# From OBI to the register bus

`obi_to_reg` takes a request from an OBI port, keeps it, and offers it on a register bus until the
other side is ready. What the register bus returns in that cycle is passed on as the response. While
a request is kept nothing is granted.

The two sides are compared through the lists of what has happened on them: the requests granted, the
transactions completed and the responses given.

## Main definitions

* `ObiToReg`: the adapter.
* `ObiToReg.grants`, `ObiToReg.transactions`, `ObiToReg.responses`: what has happened before a
  cycle.
* `ObiToReg.Carried`: the three lists belong together.

## Main results

* `ObiToReg.carried_next`, `ObiToReg.carried_stateAt`: one cycle, and a run.
* `ObiToReg.regReq_held`: a request is held until the other side is ready.
* `ObiToReg.granted_of_answered`: an adapter that owes no response grants.
* `ObiToReg.carries_exactlyOnce`: every request is carried exactly once.
-/

namespace Croc

namespace Obi

open Clocked

open Bits (Word)

/-! ### The two buses -/

/-- The request channel `obi_req_i.a`. -/
structure AChan (w : ℕ) where
  /-- `addr`. -/
  addr : Word
  /-- `we`. -/
  we : Bool
  /-- `be`. -/
  be : BitVec 4
  /-- `wdata`. -/
  wdata : Word
  /-- `aid`. -/
  aid : BitVec w
  deriving DecidableEq, Repr, Inhabited

/-- `obi_rsp_o`. -/
structure ObiRsp (w : ℕ) where
  /-- `gnt`. -/
  gnt : Bool
  /-- `rvalid`. -/
  rvalid : Bool
  /-- `r.rdata`. -/
  rdata : Word
  /-- `r.err`. -/
  err : Bool
  /-- `r.rid`. -/
  rid : BitVec w
  /-- `r.r_optional`: the tag. -/
  rOptional : Bool
  deriving DecidableEq, Repr

/-- `reg_req_o`. -/
structure RegReq where
  /-- `addr`. -/
  addr : Word
  /-- `write`. -/
  write : Bool
  /-- `wdata`. -/
  wdata : Word
  /-- `wstrb`. -/
  wstrb : BitVec 4
  /-- `valid`. -/
  valid : Bool
  deriving DecidableEq, Repr

/-- `reg_rsp_i`. -/
structure RegRsp where
  /-- `ready`. -/
  ready : Bool
  /-- `rdata`. -/
  rdata : Word
  /-- `error`. -/
  error : Bool
  deriving DecidableEq, Repr, Inhabited

/-- The inputs of the adapter in one cycle. -/
structure AdapterIn (w : ℕ) where
  /-- `obi_req_i.req`. -/
  req : Bool
  /-- `obi_req_i.a`. -/
  a : AChan w
  /-- `reg_rsp_i`. -/
  reg : RegRsp
  deriving DecidableEq, Repr, Inhabited

/-! ### The adapter -/

/-- `state_t`. Two of the four encodings have no name; they behave alike. -/
inductive State
  | idle
  | wait
  | unnamed
  deriving DecidableEq, Repr

/-- The state of the adapter. -/
structure ObiToReg (w : ℕ) where
  /-- `state_q`. -/
  state : State
  /-- `obi_we_q`. -/
  obiWe : Bool
  /-- `obi_be_q`. -/
  obiBe : BitVec 4
  /-- `obi_wdata_q`. -/
  obiWdata : Word
  /-- `obi_aid_q`. -/
  obiAid : BitVec w
  /-- `reg_offset_q`. -/
  regOffset : Word
  deriving DecidableEq, Repr

namespace ObiToReg

variable {w : ℕ} (regBaseAddr : Word) (s : ObiToReg w)

/-- The adapter out of reset. -/
def init : ObiToReg w := ⟨.idle, false, 0, 0, 0, 0⟩

/-- `reg_req_o`. -/
def regReq : RegReq where
  addr := s.regOffset
  write := s.obiWe
  wdata := s.obiWdata
  wstrb := s.obiBe
  valid := decide (s.state = .wait)

/-- `obi_rsp_o`. -/
def obiRsp (reg : RegRsp) : ObiRsp w where
  gnt := decide (s.state = .idle)
  rvalid := s.regReq.valid && reg.ready
  rdata := reg.rdata
  err := reg.error
  rid := s.obiAid
  rOptional := false

/-- One clock edge. -/
def next (i : AdapterIn w) : ObiToReg w :=
  match s.state with
  | .idle =>
    if (s.obiRsp i.reg).gnt && i.req then
      { state := .wait
        obiWe := i.a.we
        obiBe := i.a.be
        obiWdata := i.a.wdata
        obiAid := i.a.aid
        regOffset := i.a.addr - regBaseAddr }
    else s
  | .wait => if s.regReq.valid && i.reg.ready then { s with state := .idle } else s
  | .unnamed => { s with state := .idle }

/-- The adapter as a machine. -/
def machine : Machine (ObiToReg w) (AdapterIn w) := ⟨init, next regBaseAddr⟩

/-! ### What happens on the two sides -/

/-- A request is granted. -/
def granted (i : AdapterIn w) : Bool := i.req && (s.obiRsp i.reg).gnt

/-- A transaction completes on the register bus. -/
def completes (i : AdapterIn w) : Bool := s.regReq.valid && i.reg.ready

/-- The requests granted before cycle `t`. -/
def grants (ins : ℕ → AdapterIn w) (t : ℕ) : List (AChan w) :=
  (machine regBaseAddr).log ins (fun s i => if s.granted i then [i.a] else []) t

/-- The transactions completed before cycle `t`, each with what the register bus returned. -/
def transactions (ins : ℕ → AdapterIn w) (t : ℕ) : List (RegReq × RegRsp) :=
  (machine regBaseAddr).log ins (fun s i => if s.completes i then [(s.regReq, i.reg)] else []) t

/-- The responses given before cycle `t`. -/
def responses (ins : ℕ → AdapterIn w) (t : ℕ) : List (ObiRsp w) :=
  (machine regBaseAddr).log ins (fun s i => if (s.obiRsp i.reg).rvalid then [s.obiRsp i.reg]
    else []) t

/-- The transaction that a request asks for. -/
def asked (a : AChan w) : RegReq := ⟨a.addr - regBaseAddr, a.we, a.wdata, a.be, true⟩

/-- The response that a request is owed when the register bus returns `r`. -/
def owed (a : AChan w) (r : RegRsp) : ObiRsp w := ⟨false, true, r.rdata, r.error, a.aid, false⟩

/-- The adapter holds the request `a`. -/
def Holds (a : AChan w) : Prop := s.regReq = asked regBaseAddr a ∧ s.obiAid = a.aid

/-- **The three lists belong together.** The requests granted are those that are done, in order, and
at most one more, which the adapter holds. Each of those that are done had one transaction and one
response. -/
def Carried (grants : List (AChan w)) (transactions : List (RegReq × RegRsp))
    (responses : List (ObiRsp w)) : Prop :=
  ∃ (done : List (AChan w × RegRsp)) (outstanding : Option (AChan w)),
    grants = done.map (fun d => d.1) ++ outstanding.toList ∧
    transactions = done.map (fun d => (asked regBaseAddr d.1, d.2)) ∧
    responses = done.map (fun d => owed d.1 d.2) ∧
    s.regReq.valid = outstanding.isSome ∧
    ∀ a ∈ outstanding, s.Holds regBaseAddr a

/-! ### One cycle -/

variable {regBaseAddr s} {i : AdapterIn w}

theorem valid_iff : s.regReq.valid = true ↔ s.state = .wait := decide_eq_true_iff

/-- A request that is granted is held from the next cycle on. -/
theorem holds_next (h : s.granted i = true) : (s.next regBaseAddr i).Holds regBaseAddr i.a := by
  obtain ⟨hreq, hgnt⟩ := Bool.and_eq_true_iff.mp h
  have hidle : s.state = .idle := of_decide_eq_true hgnt
  have hcond : ((s.obiRsp i.reg).gnt && i.req) = true := by rw [hreq, hgnt]; rfl
  rw [next, hidle]
  simp only [hcond, if_true]
  exact ⟨rfl, rfl⟩

/-- A request that is held gives its response in the cycle in which the register bus is ready. -/
theorem Holds.obiRsp_eq {a : AChan w} (h : s.Holds regBaseAddr a) (hready : i.reg.ready = true) :
    s.obiRsp i.reg = owed a i.reg := by
  have hvalid : s.regReq.valid = true := by rw [h.1]; rfl
  have hgnt : decide (s.state = .idle) = false := by rw [valid_iff.mp hvalid]; rfl
  rw [obiRsp, hgnt, hvalid, hready, h.2]
  rfl

/-- A request that is held stays until the register bus is ready. -/
theorem Holds.next {a : AChan w} (h : s.Holds regBaseAddr a) (hready : i.reg.ready = false) :
    (s.next regBaseAddr i).Holds regBaseAddr a := by
  have hvalid : s.regReq.valid = true := by rw [h.1]; rfl
  have hsame : s.next regBaseAddr i = s := by
    rw [ObiToReg.next, valid_iff.mp hvalid]
    simp [hready]
  rw [hsame]
  exact h

/-- When the adapter offers a transaction. -/
theorem valid_next :
    (s.next regBaseAddr i).regReq.valid = (s.granted i || s.regReq.valid && !i.reg.ready) := by
  obtain ⟨state, obiWe, obiBe, obiWdata, obiAid, regOffset⟩ := s
  cases state with
  | idle => cases hreq : i.req <;> simp [ObiToReg.next, granted, obiRsp, regReq, hreq]
  | wait => cases hready : i.reg.ready <;> simp [ObiToReg.next, granted, obiRsp, regReq, hready]
  | unnamed => simp [ObiToReg.next, granted, obiRsp, regReq]

/-- Nothing is granted while a request is held. -/
theorem granted_of_valid (h : s.regReq.valid = true) : s.granted i = false := by
  rw [granted, obiRsp, valid_iff.mp h]
  exact Bool.and_false _

/-- **One cycle** keeps the three lists together. -/
theorem carried_next {gs : List (AChan w)} {ts : List (RegReq × RegRsp)} {rs : List (ObiRsp w)}
    (h : s.Carried regBaseAddr gs ts rs) :
    (s.next regBaseAddr i).Carried regBaseAddr (gs ++ if s.granted i then [i.a] else [])
      (ts ++ if s.completes i then [(s.regReq, i.reg)] else [])
      (rs ++ if (s.obiRsp i.reg).rvalid then [s.obiRsp i.reg] else []) := by
  obtain ⟨done, outstanding, rfl, rfl, rfl, hvalid, hholds⟩ := h
  have hrvalid : (s.obiRsp i.reg).rvalid = s.completes i := rfl
  have hnext : (s.next regBaseAddr i).regReq.valid =
      (s.granted i || s.regReq.valid && !i.reg.ready) :=
    valid_next
  rw [hrvalid]
  cases outstanding with
  | some a =>
    -- nothing is granted; the request that is held stays or completes
    have hgranted : s.granted i = false := granted_of_valid hvalid
    have ha : s.Holds regBaseAddr a := hholds a rfl
    rw [hgranted, hvalid] at hnext
    cases hready : i.reg.ready with
    | false =>
      have hcompletes : s.completes i = false := by rw [completes, hready, Bool.and_false]
      refine ⟨done, some a, ?_, ?_, ?_, ?_, ?_⟩
      · simp [hgranted]
      · simp [hcompletes]
      · simp [hcompletes]
      · rw [hnext, hready]
        rfl
      · intro b hb
        obtain rfl := Option.some.inj hb
        exact ha.next hready
    | true =>
      have hcompletes : s.completes i = true := by rw [completes, hready, hvalid]; rfl
      refine ⟨done ++ [(a, i.reg)], none, ?_, ?_, ?_, ?_, ?_⟩
      · simp [hgranted]
      · simp [hcompletes, ha.1]
      · simp [hcompletes, ha.obiRsp_eq hready]
      · rw [hnext, hready]
        rfl
      · intro b hb
        cases hb
  | none =>
    -- nothing completes; a request is granted or not
    have hcompletes : s.completes i = false := by rw [completes, hvalid]; rfl
    rw [hvalid] at hnext
    cases hgranted : s.granted i with
    | true =>
      refine ⟨done, some i.a, ?_, ?_, ?_, ?_, ?_⟩
      · simp
      · simp [hcompletes]
      · simp [hcompletes]
      · rw [hnext, hgranted]
        rfl
      · intro b hb
        obtain rfl := Option.some.inj hb
        exact holds_next hgranted
    | false =>
      refine ⟨done, none, ?_, ?_, ?_, ?_, ?_⟩
      · simp
      · simp [hcompletes]
      · simp [hcompletes]
      · rw [hnext, hgranted]
        rfl
      · intro b hb
        cases hb

/-! ### Runs -/

variable (regBaseAddr) (ins : ℕ → AdapterIn w)

/-- **A run** keeps the three lists together. -/
theorem carried_stateAt (t : ℕ) : ((machine regBaseAddr).stateAt ins t).Carried regBaseAddr
    (grants regBaseAddr ins t) (transactions regBaseAddr ins t) (responses regBaseAddr ins t) := by
  induction t with
  | zero => exact ⟨[], none, rfl, rfl, rfl, rfl, fun b hb => by cases hb⟩
  | succ t ih =>
    rw [grants, transactions, responses, Machine.log_succ, Machine.log_succ, Machine.log_succ]
    exact carried_next ih

variable {regBaseAddr ins}

/-- **A granted request is held**, unchanged, through the cycles in which the register bus is not
ready. -/
theorem regReq_held {t u : ℕ} (hg : ((machine regBaseAddr).stateAt ins t).granted (ins t) = true)
    (htu : t < u) (hwait : ∀ v, t < v → v < u → (ins v).reg.ready = false) :
    ((machine regBaseAddr).stateAt ins u).Holds regBaseAddr (ins t).a := by
  induction u, htu using Nat.le_induction with
  | base => exact holds_next hg
  | succ u hu ih =>
    have hold := ih fun v hv hvu => hwait v hv (Nat.lt_succ_of_lt hvu)
    exact hold.next (hwait u hu u.lt_succ_self)

/-- The encodings without a name are never reached. -/
theorem state_ne_unnamed (t : ℕ) : ((machine regBaseAddr).stateAt ins t).state ≠ .unnamed := by
  refine Machine.stateAt_inv' (I := fun s : ObiToReg w => s.state ≠ .unnamed) ?_ ?_ t
  · exact fun h => by cases h
  · intro s i hs
    show (s.next regBaseAddr i).state ≠ .unnamed
    rw [next]
    cases hstate : s.state with
    | idle =>
      dsimp only
      split_ifs
      · exact fun h => by cases h
      · exact hs
    | wait =>
      dsimp only
      split_ifs
      · exact fun h => by cases h
      · exact hs
    | unnamed => exact absurd hstate hs

/-- **An adapter that owes no response grants.** -/
theorem granted_of_answered {t : ℕ} (hreq : (ins t).req = true)
    (h : (grants regBaseAddr ins t).length = (responses regBaseAddr ins t).length) :
    ((machine regBaseAddr).stateAt ins t).granted (ins t) = true := by
  obtain ⟨done, outstanding, hgrants, -, hresponses, hvalid, -⟩ := carried_stateAt regBaseAddr ins t
  have hnone : outstanding = none := by
    rw [hgrants, hresponses, List.length_append, List.length_map, List.length_map] at h
    cases outstanding with
    | none => rfl
    | some a => exact absurd h (by simp)
  have hidle : ((machine regBaseAddr).stateAt ins t).state = .idle := by
    rw [hnone] at hvalid
    cases hstate : ((machine regBaseAddr).stateAt ins t).state with
    | idle => rfl
    | wait =>
      rw [valid_iff.mpr hstate] at hvalid
      cases hvalid
    | unnamed => exact absurd hstate (state_ne_unnamed t)
  rw [granted, hreq, Bool.true_and]
  exact decide_eq_true hidle

variable (regBaseAddr ins)

/-- **Every request is carried exactly once.** In every run the requests granted are, in order,
those that have had one transaction and one response each, and at most one more. A request is
granted at once if every one before it has been answered. From the cycle after its grant on it is
offered on the register bus, with its address taken relative to the base, until the cycle in which
that side is ready; in that cycle it is answered, with its identifier and what that side returns. -/
theorem carries_exactlyOnce :
    (∀ t, ((machine regBaseAddr).stateAt ins t).Carried regBaseAddr (grants regBaseAddr ins t)
      (transactions regBaseAddr ins t) (responses regBaseAddr ins t)) ∧
    (∀ t, (ins t).req = true →
      (grants regBaseAddr ins t).length = (responses regBaseAddr ins t).length →
      ((machine regBaseAddr).stateAt ins t).granted (ins t) = true) ∧
    ∀ t u, ((machine regBaseAddr).stateAt ins t).granted (ins t) = true → t < u →
      (∀ v, t < v → v < u → (ins v).reg.ready = false) →
      ((machine regBaseAddr).stateAt ins u).regReq = asked regBaseAddr (ins t).a ∧
      ((ins u).reg.ready = true →
        ((machine regBaseAddr).stateAt ins u).obiRsp (ins u).reg = owed (ins t).a (ins u).reg) := by
  refine ⟨carried_stateAt regBaseAddr ins, fun t hreq h => granted_of_answered hreq h,
    fun t u hg htu hwait => ?_⟩
  have hholds := regReq_held hg htu hwait
  exact ⟨hholds.1, fun hready => hholds.obiRsp_eq hready⟩

/-- A read that the register bus answers after a cycle, and a write that waits behind it. -/
def stalledRead : ℕ → AdapterIn 4
  | 0 => ⟨true, ⟨0x03000010, false, 0b1111, 0, 5⟩, default⟩
  | 1 => ⟨true, ⟨0x03000014, true, 0b0011, 0xabcd, 6⟩, default⟩
  | 2 => ⟨true, ⟨0x03000014, true, 0b0011, 0xabcd, 6⟩, ⟨true, 0x1234, false⟩⟩
  | 3 => ⟨true, ⟨0x03000014, true, 0b0011, 0xabcd, 6⟩, default⟩
  | _ => default

/-- The read is granted, offered through the stall and answered; then the write is granted. -/
theorem carries_exactlyOnce_stalledRead :
    grants 0x03000000 stalledRead 3 = [⟨0x03000010, false, 0b1111, 0, 5⟩] ∧
      transactions 0x03000000 stalledRead 2 = [] ∧
      responses 0x03000000 stalledRead 3 = [⟨false, true, 0x1234, false, 5, false⟩] ∧
      ((machine 0x03000000).stateAt stalledRead 1).regReq = ⟨0x10, false, 0, 0b1111, true⟩ ∧
      ((machine 0x03000000).stateAt stalledRead 2).regReq = ⟨0x10, false, 0, 0b1111, true⟩ ∧
      ((machine 0x03000000).stateAt stalledRead 2).obiRsp (stalledRead 2).reg =
        ⟨false, true, 0x1234, false, 5, false⟩ ∧
      ((machine 0x03000000).stateAt stalledRead 3).granted (stalledRead 3) = true := by
  obtain ⟨-, hgrant, hcarry⟩ := carries_exactlyOnce 0x03000000 stalledRead
  have hgnt : ((machine 0x03000000).stateAt stalledRead 0).granted (stalledRead 0) = true := by
    decide
  have hstall : ∀ v, 0 < v → v < 2 → (stalledRead v).reg.ready = false := by
    intro v hv hv2
    obtain rfl : v = 1 := by omega
    rfl
  obtain ⟨hoffer, hanswer⟩ := hcarry 0 2 hgnt (by decide) hstall
  exact ⟨by decide, by decide, by decide,
    (hcarry 0 1 hgnt (by decide) fun v hv hv1 => by omega).1, hoffer, hanswer rfl,
    hgrant 3 rfl (by decide)⟩

end ObiToReg

end Obi

end Croc
