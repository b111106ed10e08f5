import Croc.Lib.Clocked
import Croc.Lib.ObiPort

/-!
# The OBI timer

`obi_timer` counts cycles and compares the count with a register. An expiry and an overflow are
events of a single cycle, at least with the automatic reset, and leave a sticky bit in the status
register that software clears by writing a one to it.

The next value of a sticky bit is assigned twice in one block: the event sets it, and a write to the
status register that comes later in the text clears it. So the write wins, and an event in the cycle
of the write leaves no trace.

## Main definitions

* `ObiTimer`, `ObiTimer.next`: the registers and one clock edge.
* `Flag`: the two sticky bits, with their events.
* `EventsKept`: what software can rely on in a run.

## Main results

* `ObiTimer.sticky_next`: a sticky bit after an edge.
* `eventsKept_iff`: no event is lost exactly in the runs in which software clears no bit in the
  cycle of its event.
-/

namespace Croc

namespace Timer

open Clocked ObiPort

open Bits (Word)

/-- `OBI_TIMER_COUNT_OFFSET`. -/
def countOffset : BitVec 5 := 0x00
/-- `OBI_TIMER_COMPARE_OFFSET`. -/
def compareOffset : BitVec 5 := 0x04
/-- `OBI_TIMER_CTRL_OFFSET`. -/
def ctrlOffset : BitVec 5 := 0x08
/-- `OBI_TIMER_STATUS_OFFSET`. -/
def statusOffset : BitVec 5 := 0x0c

/-- The address of a request inside the block, `{addr[4:2], 2'b00}`. -/
def offset (q : ObiReq) : BitVec 5 := q.addr.extractLsb' 2 3 ++ 0#2

/-- The state of the timer. -/
structure ObiTimer where
  /-- `count_q`. -/
  count : Word
  /-- `compare_q`. -/
  compare : Word
  /-- `enable_q`. -/
  enable : Bool
  /-- `autoreset_q`. -/
  autoreset : Bool
  /-- `expired_sticky_q`. -/
  expiredSticky : Bool
  /-- `overflow_sticky_q`. -/
  overflowSticky : Bool
  /-- `obi_req_q`. -/
  obiReq : ObiReq
  /-- `err_q`. -/
  err : Bool
  /-- `rdata_q`. -/
  rdata : Word
  deriving DecidableEq, Repr

namespace ObiTimer

variable (s : ObiTimer) (q : ObiReq)

/-- The timer out of reset. -/
def init : ObiTimer := ⟨0, 0, false, false, false, false, ⟨false, 0, false, 0, 0, 0⟩, false, 0⟩

/-- `expired_event`. -/
def expiredEvent : Bool := s.enable && s.compare != 0 && decide (s.compare ≤ s.count)

/-- `overflow_event`. -/
def overflowEvent : Bool := s.enable && s.count == 0xffffffff

/-- The registers after a cycle without a request: the count goes on, and the events are noted. -/
def counted : ObiTimer :=
  { s with
    count :=
      if s.expiredEvent && s.autoreset then 0 else if s.enable then s.count + 1 else s.count
    expiredSticky := s.expiredEvent || s.expiredSticky
    overflowSticky := s.overflowEvent || s.overflowSticky
    err := false
    rdata := 0 }

/-- The registers after a write. It finds what the cycle has assigned to them and goes over it. -/
def write : ObiTimer :=
  if offset q = countOffset then { s.counted with count := q.masked s.count }
  else if offset q = compareOffset then
    { s.counted with compare := q.masked s.compare, count := 0 }
  else if offset q = ctrlOffset then
    { s.counted with enable := q.maskedBit s.enable 0, autoreset := q.maskedBit s.autoreset 1 }
  else if offset q = statusOffset then
    { s.counted with
      expiredSticky := s.counted.expiredSticky && !(q.wdata.getLsbD 0 && q.beMask.getLsbD 0)
      overflowSticky := s.counted.overflowSticky && !(q.wdata.getLsbD 1 && q.beMask.getLsbD 1) }
  else { s.counted with err := true }

/-- The registers after a read. -/
def read : ObiTimer :=
  if offset q = countOffset then { s.counted with rdata := s.count }
  else if offset q = compareOffset then { s.counted with rdata := s.compare }
  else if offset q = ctrlOffset then
    { s.counted with rdata := bitWord s.autoreset <<< 1 ||| bitWord s.enable }
  else if offset q = statusOffset then
    { s.counted with rdata := bitWord s.overflowSticky <<< 1 ||| bitWord s.expiredSticky }
  else { s.counted with rdata := 0xBADCAB1E, err := true }

/-- One clock edge. -/
def next : ObiTimer :=
  { if q.req then if q.we then s.write q else s.read q else s.counted with obiReq := q }

/-- `obi_response`. -/
def obiRsp : ObiRsp := ⟨true, s.obiReq.req, s.rdata, s.obiReq.aid, s.err⟩

/-- The timer as a machine. -/
def machine : Machine ObiTimer ObiReq := ⟨init, next⟩

end ObiTimer

/-! ### The sticky bits -/

/-- The sticky bits of the status register. -/
inductive Flag where
  | expired
  | overflow
  deriving DecidableEq, Repr

/-- `OBI_TIMER_STATUS_EXPIRED_BIT`, `OBI_TIMER_STATUS_OVERFLOW_BIT`. -/
def Flag.bit : Flag → ℕ
  | .expired => 0
  | .overflow => 1

/-- The request clears the flag: it writes a one to its bit of the status register. -/
def clears (f : Flag) (q : ObiReq) : Bool :=
  q.req && q.we && offset q == statusOffset && q.wdata.getLsbD f.bit && q.beMask.getLsbD f.bit

/-- The request reads the status register. -/
def readsStatus (q : ObiReq) : Bool := q.req && !q.we && offset q == statusOffset

namespace ObiTimer

variable {s : ObiTimer} {q : ObiReq} {f : Flag}

/-- The event that sets a flag. -/
def event (s : ObiTimer) : Flag → Bool
  | .expired => s.expiredEvent
  | .overflow => s.overflowEvent

/-- The bit of a flag. -/
def sticky (s : ObiTimer) : Flag → Bool
  | .expired => s.expiredSticky
  | .overflow => s.overflowSticky

theorem sticky_counted : s.counted.sticky f = (s.event f || s.sticky f) := by
  cases f <;> rfl

theorem sticky_write : (s.write q).sticky f =
    (s.counted.sticky f &&
      !(offset q == statusOffset && q.wdata.getLsbD f.bit && q.beMask.getLsbD f.bit)) := by
  rw [write]
  by_cases hstatus : offset q = statusOffset
  · rw [hstatus]
    cases f <;> rfl
  · rw [if_neg hstatus, beq_eq_false_iff_ne.mpr hstatus]
    split_ifs <;> cases f <;> simp [sticky]

theorem sticky_read : (s.read q).sticky f = s.counted.sticky f := by
  rw [read]
  split_ifs <;> cases f <;> rfl

/-- **A sticky bit after an edge.** A write that clears it goes over the event. -/
theorem sticky_next : (s.next q).sticky f = ((s.event f || s.sticky f) && !clears f q) := by
  have hreq : (s.next q).sticky f =
      (if q.req then if q.we then s.write q else s.read q else s.counted).sticky f := by
    cases f <;> rfl
  rw [hreq, ← sticky_counted, clears]
  cases hr : q.req with
  | false => simp
  | true =>
    cases hw : q.we with
    | false => simp [sticky_read]
    | true => simp [sticky_write]

theorem getLsbD_status (x y : Bool) :
    (bitWord y <<< 1 ||| bitWord x).getLsbD 0 = x ∧
      (bitWord y <<< 1 ||| bitWord x).getLsbD 1 = y := by
  revert x y
  decide

/-- A read of the status register is answered with the sticky bits. -/
theorem obiRsp_of_readsStatus (h : readsStatus q = true) :
    (s.next q).obiRsp.rvalid = true ∧ (s.next q).obiRsp.rdata.getLsbD f.bit = s.sticky f := by
  simp only [readsStatus, Bool.and_eq_true, Bool.not_eq_true', beq_iff_eq] at h
  obtain ⟨⟨hreq, hwe⟩, hoff⟩ := h
  have hread : (s.next q).rdata = bitWord s.overflowSticky <<< 1 ||| bitWord s.expiredSticky := by
    rw [next, hreq, hwe, if_pos rfl, if_neg Bool.false_ne_true, read, hoff]
    rfl
  have hbits := getLsbD_status s.expiredSticky s.overflowSticky
  refine ⟨hreq, ?_⟩
  rw [obiRsp, hread]
  cases f with
  | expired => exact hbits.1
  | overflow => exact hbits.2

end ObiTimer

/-! ### Runs -/

/-- The state of the timer at the start of cycle `t`. -/
def stateAt (ins : ℕ → ObiReq) (t : ℕ) : ObiTimer := ObiTimer.machine.stateAt ins t

/-- No event of a run is lost. -/
structure EventsKept (ins : ℕ → ObiReq) : Prop where
  /-- The cycle of an event leaves the bit of its flag set. -/
  sticky : ∀ f t, (stateAt ins t).event f = true → (stateAt ins (t + 1)).sticky f = true
  /-- A read of the status register shows every event that has not been cleared since. -/
  observable : ∀ f t u, (stateAt ins t).event f = true → t < u →
    (∀ v, t < v → v < u → clears f (ins v) = false) → readsStatus (ins u) = true →
    (stateAt ins (u + 1)).obiRsp.rvalid = true ∧
      (stateAt ins (u + 1)).obiRsp.rdata.getLsbD f.bit = true

variable {ins : ℕ → ObiReq} {f : Flag} {t : ℕ}

theorem sticky_stateAt_succ : (stateAt ins (t + 1)).sticky f =
    (((stateAt ins t).event f || (stateAt ins t).sticky f) && !clears f (ins t)) :=
  ObiTimer.sticky_next

/-- A flag stays set until it is cleared. -/
theorem sticky_of_not_cleared {u : ℕ} (h : (stateAt ins t).sticky f = true) (hu : t ≤ u)
    (hno : ∀ v, t ≤ v → v < u → clears f (ins v) = false) : (stateAt ins u).sticky f = true := by
  induction u, hu using Nat.le_induction with
  | base => exact h
  | succ u htu ih =>
    have hset := ih fun v htv hvu => hno v htv (hvu.trans u.lt_succ_self)
    rw [sticky_stateAt_succ, hset, hno u htu u.lt_succ_self, Bool.or_true]
    rfl

/-- **When no event is lost.** Every event leaves its sticky bit set, and shows in every read of the
status register up to the next clear, exactly if software clears no bit in the cycle of its
event. -/
theorem eventsKept_iff (ins : ℕ → ObiReq) :
    EventsKept ins ↔
      ∀ f t, (stateAt ins t).event f = true → clears f (ins t) = false := by
  constructor
  · intro h f t hevent
    have hset := h.sticky f t hevent
    rw [sticky_stateAt_succ, Bool.and_eq_true, Bool.not_eq_true'] at hset
    exact hset.2
  · intro h
    have hsticky : ∀ f t, (stateAt ins t).event f = true →
        (stateAt ins (t + 1)).sticky f = true := by
      intro f t hevent
      rw [sticky_stateAt_succ, hevent, h f t hevent]
      rfl
    refine ⟨hsticky, fun f t u hevent htu hno hread => ?_⟩
    have hset : (stateAt ins u).sticky f = true :=
      sticky_of_not_cleared (hsticky f t hevent) htu fun v hv hvu => hno v hv hvu
    obtain ⟨hvalid, hbit⟩ := ObiTimer.obiRsp_of_readsStatus (s := stateAt ins u) (f := f) hread
    exact ⟨hvalid, hbit.trans hset⟩

/-- A period of two cycles, counted from cycle 2 on. In the cycle in which it ends software clears
the expired bit. -/
def clearOnExpiry : ℕ → ObiReq
  | 0 => ⟨true, 0x04, true, 0b1111, 1, 0⟩
  | 1 => ⟨true, 0x08, true, 0b1111, 0b11, 0⟩
  | 3 => ⟨true, 0x0c, true, 0b1111, 0b01, 0⟩
  | _ => ⟨false, 0, false, 0, 0, 0⟩

/-- The end of the period leaves no trace: the bit was clear before, and it is clear after. -/
theorem clearOnExpiry_loses :
    (stateAt clearOnExpiry 3).event .expired = true ∧ (stateAt clearOnExpiry 3).autoreset = true ∧
      (stateAt clearOnExpiry 3).sticky .expired = false ∧
      (stateAt clearOnExpiry 4).sticky .expired = false ∧
      (stateAt clearOnExpiry 4).event .expired = false ∧ ¬EventsKept clearOnExpiry := by
  have hevent : (stateAt clearOnExpiry 3).event .expired = true := by decide
  have hclear : (stateAt clearOnExpiry 4).sticky .expired = false := by decide
  refine ⟨hevent, by decide, by decide, hclear, by decide, fun h => ?_⟩
  exact Bool.false_ne_true (hclear.symm.trans (h.sticky .expired 3 hevent))

end Timer

end Croc
