import Mathlib.Data.Nat.Log
import Croc.Lib.Ring
import Croc.Cells.Streams

/-!
# The FIFOs as rings

The other modules know a FIFO by the elements it holds. The FIFOs of the design are rings:
`fifo_v3`, which is behind `stream_fifo` and `fall_through_register`, has two pointers and a
counter, and `passthrough_stream_fifo` has two pointers with one more bit for the lap. Both hold
what the queue holds, at every depth.

## Main definitions

* `FifoV3`: the registers of a `fifo_v3`. The pointers point into the memory, the write pointer is
  behind the last element, and the counter does not exceed the depth.
* `FifoV3.toQueue`: what is held.
* `PassthroughRing`: the registers of a `passthrough_stream_fifo`.
* `PassthroughRing.Holds`: what is held, as long as the environment keeps to the handshake.

## Main results

* `FifoV3.toQueue_next`, `PassthroughRing.Holds.next`: one edge.
* `FifoV3.refines_queue`, `PassthroughRing.refines_passthrough`: the rings are queues, in every run.
* `FifoV3.streamFifo_next`, `FifoV3.fallThroughFifo_next`: the FIFOs of the other modules are such
  rings.
-/

namespace Croc

open Clocked

/-! ### Pointers -/

/-- `ADDR_DEPTH`. -/
def addrDepth (depth : ℕ) : ℕ := if 1 < depth then Nat.clog 2 depth else 1

theorem le_two_pow_addrDepth (depth : ℕ) : depth ≤ 2 ^ addrDepth depth := by
  rw [addrDepth]
  split
  · exact Nat.le_pow_clog (by decide) depth
  · omega

/-- The inputs of a `fifo_v3` in one cycle. -/
structure FifoIn (α : Type*) where
  /-- `flush_i`. -/
  flush : Bool
  /-- `push_i`. -/
  push : Bool
  /-- `data_i`. -/
  data : α
  /-- `pop_i`. -/
  pop : Bool

/-- The element that is pushed. -/
def FifoIn.offer {α : Type*} (i : FifoIn α) : Option α := if i.push then some i.data else none

/-- The registers of a `fifo_v3`. -/
structure FifoV3 (α : Type*) (depth : ℕ) [NeZero depth] where
  /-- `read_pointer_q`. -/
  readPointerQ : BitVec (addrDepth depth)
  /-- `write_pointer_q`. -/
  writePointerQ : BitVec (addrDepth depth)
  /-- `status_cnt_q`. -/
  statusCntQ : BitVec (addrDepth depth + 1)
  /-- `mem_q`. -/
  memQ : Fin depth → α
  /-- The read pointer points into the memory. -/
  readPointerQ_lt : readPointerQ.toNat < depth
  /-- The write pointer points behind the last element. -/
  writePointerQ_eq : writePointerQ.toNat = (readPointerQ.toNat + statusCntQ.toNat) % depth
  /-- No more is held than there is room. -/
  statusCntQ_le : statusCntQ.toNat ≤ depth

namespace FifoV3

variable {α : Type*} {depth : ℕ} [NeZero depth]

/-- The FIFO out of reset, with `zero` in its memory. -/
def init (zero : α) : FifoV3 α depth where
  readPointerQ := 0
  writePointerQ := 0
  statusCntQ := 0
  memQ := fun _ => zero
  readPointerQ_lt := by simpa using Nat.pos_of_neZero depth
  writePointerQ_eq := by simp
  statusCntQ_le := by simp

/-- A pointer to the next cell. At a depth that is a power of two `FifoDepth[ADDR_DEPTH-1:0]` is
zero, and the pointer wraps by itself. -/
def nextPointer (p : BitVec (addrDepth depth)) : BitVec (addrDepth depth) :=
  if p.toNat + 1 = depth % 2 ^ addrDepth depth then 0 else p + 1

omit [NeZero depth] in
/-- The next cell, past the end of the memory at its start. -/
theorem toNat_nextPointer {p : BitVec (addrDepth depth)} (h : p.toNat < depth) :
    (nextPointer p).toNat = (p.toNat + 1) % depth := by
  have hle := le_two_pow_addrDepth depth
  have hone : (1 : BitVec (addrDepth depth)).toNat % 2 ^ addrDepth depth =
      1 % 2 ^ addrDepth depth := by simp
  rw [nextPointer]
  rcases Nat.lt_or_eq_of_le hle with hlt | heq
  · rw [Nat.mod_eq_of_lt hlt]
    split
    · next hp => rw [hp, Nat.mod_self]; simp
    · next hp =>
      rw [Nat.mod_eq_of_lt (by omega : p.toNat + 1 < depth), BitVec.toNat_add, Nat.add_mod, hone,
        ← Nat.add_mod, Nat.mod_eq_of_lt (by omega)]
  · have hzero : depth % 2 ^ addrDepth depth = 0 := by rw [← heq, Nat.mod_self]
    rw [hzero, if_neg (Nat.succ_ne_zero _), BitVec.toNat_add, Nat.add_mod, hone, ← Nat.add_mod,
      ← heq]

variable (f : FifoV3 α depth) (fallThrough : Bool) (i : FifoIn α)

/-- `full_o`. -/
def fullO : Bool := f.statusCntQ == BitVec.ofNat _ depth

/-- `empty_o`. -/
def emptyO : Bool := f.statusCntQ == 0 && !(fallThrough && i.push)

/-- `data_o`. -/
def dataO : α :=
  if fallThrough && f.statusCntQ == 0 && i.push then i.data
  else f.memQ (Fin.ofNat depth f.readPointerQ.toNat)

/-- An element is written to the memory. -/
def pushes : Bool := i.push && !f.fullO

/-- An element leaves. -/
def pops : Bool := i.pop && !f.emptyO fallThrough i

/-- An element falls through: it leaves in the cycle in which it comes, and the pointers do not
change. -/
def passes : Bool := fallThrough && f.statusCntQ == 0 && i.push && i.pop

/-- `read_pointer_n`. -/
def readPointerN : BitVec (addrDepth depth) :=
  if f.passes fallThrough i then f.readPointerQ
  else if f.pops fallThrough i then nextPointer f.readPointerQ
  else f.readPointerQ

/-- `write_pointer_n`. -/
def writePointerN : BitVec (addrDepth depth) :=
  if f.passes fallThrough i then f.writePointerQ
  else if f.pushes i then nextPointer f.writePointerQ
  else f.writePointerQ

/-- `status_cnt_n`. -/
def statusCntN : BitVec (addrDepth depth + 1) :=
  if f.passes fallThrough i then f.statusCntQ
  else if i.push && i.pop && !f.fullO && !f.emptyO fallThrough i then f.statusCntQ
  else if f.pops fallThrough i then f.statusCntQ - 1
  else if f.pushes i then f.statusCntQ + 1
  else f.statusCntQ

/-- `mem_n`. -/
def memN : Fin depth → α :=
  if f.pushes i then Function.update f.memQ (Fin.ofNat depth f.writePointerQ.toNat) i.data
  else f.memQ

variable {f fallThrough i}

/-- The counter has a bit more than the pointers, so that it can be the depth. -/
theorem fullO_iff : f.fullO = true ↔ f.statusCntQ.toNat = depth := by
  have hlt : depth < 2 ^ (addrDepth depth + 1) := by
    have := le_two_pow_addrDepth depth
    have := Nat.pos_of_neZero depth
    rw [Nat.pow_succ]
    omega
  rw [fullO, beq_iff_eq, ← BitVec.toNat_inj, BitVec.toNat_ofNat, Nat.mod_eq_of_lt hlt]

theorem statusCntQ_beq_zero : (f.statusCntQ == 0) = decide (f.statusCntQ.toNat = 0) := by
  rw [Bool.eq_iff_iff, beq_iff_eq, decide_eq_true_iff, ← BitVec.toNat_inj]
  rfl

/-- An element goes to the memory to stay there. -/
theorem lt_of_pushes (h : f.pushes i = true) : f.statusCntQ.toNat < depth := by
  rw [pushes, Bool.and_eq_true, Bool.not_eq_true', ← Bool.not_eq_true, fullO_iff] at h
  exact Nat.lt_of_le_of_ne f.statusCntQ_le h.2

/-- An element that does not fall through leaves from the memory. -/
theorem pos_of_pops (h : f.pops fallThrough i = true) (hpass : f.passes fallThrough i = false) :
    0 < f.statusCntQ.toNat := by
  rw [Nat.pos_iff_ne_zero]
  intro hzero
  rw [pops, emptyO, statusCntQ_beq_zero, hzero] at h
  rw [passes, statusCntQ_beq_zero, hzero] at hpass
  cases fallThrough <;> cases hpush : i.push <;> cases hpop : i.pop <;>
    simp [hpush, hpop] at h hpass

/-- What is added to the memory. -/
def added (f : FifoV3 α depth) (fallThrough : Bool) (i : FifoIn α) : ℕ :=
  (f.pushes i && !f.passes fallThrough i).toNat

/-- What is taken from the memory. -/
def removed (f : FifoV3 α depth) (fallThrough : Bool) (i : FifoIn α) : ℕ :=
  (f.pops fallThrough i && !f.passes fallThrough i).toNat

/-- Nothing is added to a full memory. -/
theorem added_le : f.statusCntQ.toNat + f.added fallThrough i ≤ depth := by
  have hle := f.statusCntQ_le
  rw [added]
  cases hpush : f.pushes i with
  | false => simpa using hle
  | true =>
    have := lt_of_pushes hpush
    have := Bool.toNat_le (true && !f.passes fallThrough i)
    omega

/-- Nothing is taken from an empty memory. -/
theorem removed_le : f.removed fallThrough i ≤ f.statusCntQ.toNat := by
  rw [removed]
  cases hpass : f.passes fallThrough i with
  | true => simp
  | false =>
    cases hpop : f.pops fallThrough i with
    | false => simp
    | true => exact pos_of_pops hpop hpass

theorem toNat_readPointerN :
    (f.readPointerN fallThrough i).toNat =
      (f.readPointerQ.toNat + f.removed fallThrough i) % depth := by
  have hstay := Nat.mod_eq_of_lt f.readPointerQ_lt
  rw [readPointerN, removed]
  cases f.passes fallThrough i with
  | true => simpa using hstay.symm
  | false =>
    cases f.pops fallThrough i with
    | false => simpa using hstay.symm
    | true => simpa using toNat_nextPointer f.readPointerQ_lt

theorem writePointerQ_lt : f.writePointerQ.toNat < depth := by
  rw [f.writePointerQ_eq]
  exact Nat.mod_lt _ (Nat.pos_of_neZero depth)

theorem toNat_writePointerN :
    (f.writePointerN fallThrough i).toNat =
      (f.writePointerQ.toNat + f.added fallThrough i) % depth := by
  have hstay := Nat.mod_eq_of_lt f.writePointerQ_lt
  rw [writePointerN, added]
  cases f.passes fallThrough i with
  | true => simpa using hstay.symm
  | false =>
    cases f.pushes i with
    | false => simpa using hstay.symm
    | true => simpa using toNat_nextPointer f.writePointerQ_lt

/-- The counter neither overflows nor goes below zero. -/
theorem toNat_statusCntN : (f.statusCntN fallThrough i).toNat =
    f.statusCntQ.toNat + f.added fallThrough i - f.removed fallThrough i := by
  have hlt : depth < 2 ^ (addrDepth depth + 1) := by
    have := le_two_pow_addrDepth depth
    have := Nat.pos_of_neZero depth
    rw [Nat.pow_succ]
    omega
  have hadded := @added_le _ _ _ f fallThrough i
  have hremoved := @removed_le _ _ _ f fallThrough i
  have hboth : (i.push && i.pop && !f.fullO && !f.emptyO fallThrough i) =
      (f.pushes i && f.pops fallThrough i) := by
    rw [pushes, pops]
    cases i.push <;> cases i.pop <;> cases f.fullO <;> rfl
  have hone : (1 : BitVec (addrDepth depth + 1)).toNat = 1 := BitVec.toNat_one (Nat.succ_pos _)
  rw [statusCntN, hboth]
  rw [added] at hadded ⊢
  rw [removed] at hremoved ⊢
  generalize f.passes fallThrough i = pass at hadded hremoved ⊢
  generalize f.pushes i = push at hadded ⊢
  generalize f.pops fallThrough i = pop at hremoved ⊢
  cases pass with
  | true => simp
  | false =>
    cases push with
    | false =>
      cases pop with
      | false => simp
      | true =>
        have hle : (1 : BitVec (addrDepth depth + 1)) ≤ f.statusCntQ := by
          rw [BitVec.le_def, hone]
          exact hremoved
        rw [if_neg (by decide), if_neg (by decide), if_pos rfl, BitVec.toNat_sub_of_le hle, hone]
        rfl
    | true =>
      cases pop with
      | false =>
        rw [if_neg (by decide), if_neg (by decide), if_neg (by decide), if_pos rfl,
          BitVec.toNat_add, hone]
        exact Nat.mod_eq_of_lt (Nat.lt_of_le_of_lt hadded hlt)
      | true => simp

/-! ### One edge -/

/-- One clock edge. -/
def next (f : FifoV3 α depth) (fallThrough : Bool) (i : FifoIn α) : FifoV3 α depth where
  readPointerQ := if i.flush then 0 else f.readPointerN fallThrough i
  writePointerQ := if i.flush then 0 else f.writePointerN fallThrough i
  statusCntQ := if i.flush then 0 else f.statusCntN fallThrough i
  memQ := f.memN i
  readPointerQ_lt := by
    split
    · simpa using Nat.pos_of_neZero depth
    · rw [toNat_readPointerN]
      exact Nat.mod_lt _ (Nat.pos_of_neZero depth)
  writePointerQ_eq := by
    split
    · simp
    · rw [toNat_readPointerN, toNat_writePointerN, toNat_statusCntN, f.writePointerQ_eq,
        Nat.mod_add_mod, Nat.mod_add_mod]
      congr 1
      have := @removed_le _ _ _ f fallThrough i
      omega
  statusCntQ_le := by
    split
    · simp
    · rw [toNat_statusCntN]
      have := @added_le _ _ _ f fallThrough i
      omega

/-- The elements held, oldest first. -/
def toQueue (f : FifoV3 α depth) : Queue α depth where
  items := Ring.contents f.memQ f.readPointerQ.toNat f.statusCntQ.toNat
  length_le := by
    rw [Ring.length_contents]
    exact f.statusCntQ_le

theorem length_toQueue : f.toQueue.items.length = f.statusCntQ.toNat := Ring.length_contents _ _ _

theorem full_toQueue : f.toQueue.full = f.fullO := by
  rw [Bool.eq_iff_iff, Queue.full_iff, fullO_iff, length_toQueue]

theorem accepted_toQueue : f.toQueue.accepted i.offer = if f.pushes i then [i.data] else [] := by
  rw [Queue.accepted, full_toQueue, FifoIn.offer, pushes]
  cases f.fullO <;> cases i.push <;> rfl

/-- What is in the ring once an element was pushed. -/
theorem contents_memN :
    Ring.contents (f.memN i) f.readPointerQ.toNat (f.statusCntQ.toNat + (f.pushes i).toNat) =
    f.toQueue.items ++ f.toQueue.accepted i.offer := by
  rw [accepted_toQueue, memN]
  cases hpush : f.pushes i with
  | false => simp [toQueue]
  | true =>
    have hplace : Fin.ofNat depth f.writePointerQ.toNat =
        Fin.ofNat depth (f.readPointerQ.toNat + f.statusCntQ.toNat) := by
      rw [f.writePointerQ_eq, Fin.ext_iff, Fin.val_ofNat, Fin.val_ofNat, Nat.mod_mod]
    rw [if_pos rfl, if_pos rfl, hplace]
    exact Ring.contents_push _ _ (lt_of_pushes hpush) _

/-- One edge without a flush: what is pushed is taken in if there is room, and the oldest element
leaves. -/
theorem toQueue_next (hflush : i.flush = false) :
    (f.next fallThrough i).toQueue = f.toQueue.edge i.offer (f.pops fallThrough i) := by
  have hr : (f.next fallThrough i).readPointerQ.toNat =
      (f.readPointerQ.toNat + f.removed fallThrough i) % depth := by
    change BitVec.toNat (if i.flush then _ else _) = _
    rw [hflush]
    exact toNat_readPointerN
  have hc : (f.next fallThrough i).statusCntQ.toNat =
      f.statusCntQ.toNat + f.added fallThrough i - f.removed fallThrough i := by
    change BitVec.toNat (if i.flush then _ else _) = _
    rw [hflush]
    exact toNat_statusCntN
  ext1
  change Ring.contents (f.memN i) _ _ = _
  rw [Queue.items_edge, ← contents_memN, hr, hc, Ring.contents_mod]
  have hremoved := @removed_le _ _ _ f fallThrough i
  cases hpass : f.passes fallThrough i with
  | true =>
    -- an element that falls through is written to the memory and not counted
    have hadded : f.added fallThrough i = 0 := by
      rw [added, hpass, Bool.not_true, Bool.and_false]
      rfl
    rw [passes, statusCntQ_beq_zero] at hpass
    simp only [Bool.and_eq_true, decide_eq_true_eq] at hpass
    obtain ⟨⟨⟨hft, hzero⟩, hpush⟩, hpop⟩ := hpass
    have hleaves : f.pops fallThrough i = true := by
      rw [pops, emptyO, hpop, hpush, hft]
      simp
    rw [hzero, hadded, hleaves, Nat.zero_add, Nat.zero_sub, Ring.contents_zero, eq_comm,
      List.drop_eq_nil_iff, Ring.length_contents, Nat.zero_add]
    exact Bool.toNat_le _
  | false =>
    rw [removed, hpass, Bool.not_false, Bool.and_true] at hremoved
    rw [added, removed, hpass, Bool.not_false, Bool.and_true, Bool.and_true, ← Ring.drop_contents]
    congr 2
    omega

/-- A flush empties the queue. -/
theorem toQueue_flush (hflush : i.flush = true) : (f.next fallThrough i).toQueue = Queue.empty := by
  ext1
  have hc : (f.next fallThrough i).statusCntQ.toNat = 0 := by
    change BitVec.toNat (if i.flush then _ else _) = _
    rw [hflush]
    rfl
  change Ring.contents _ _ _ = []
  rw [hc, Ring.contents_zero]

/-- What can be popped in a cycle: the elements held, and with fall-through the element that is
pushed. -/
def visible (fallThrough : Bool) (q : Queue α depth) (i : FifoIn α) : List α :=
  q.items ++ if fallThrough then q.accepted i.offer else []

theorem isEmpty_toQueue : f.toQueue.items.isEmpty = (f.statusCntQ == 0) := by
  rw [statusCntQ_beq_zero, ← length_toQueue]
  cases f.toQueue.items <;> rfl

theorem pushes_of_zero (h : (f.statusCntQ == 0) = true) : f.pushes i = i.push := by
  have hfull : f.fullO = false := by
    rw [← Bool.not_eq_true, fullO_iff]
    rw [statusCntQ_beq_zero, decide_eq_true_iff] at h
    have := Nat.pos_of_neZero depth
    omega
  rw [pushes, hfull, Bool.not_false, Bool.and_true]

/-- The FIFO is empty if there is nothing to be seen. -/
theorem isEmpty_visible : (visible fallThrough f.toQueue i).isEmpty = f.emptyO fallThrough i := by
  rw [visible, emptyO, ← isEmpty_toQueue, accepted_toQueue]
  cases hi : f.toQueue.items with
  | cons a l => rfl
  | nil =>
    have hz : (f.statusCntQ == 0) = true := by rw [← isEmpty_toQueue, hi, List.isEmpty_nil]
    rw [pushes_of_zero hz]
    cases fallThrough <;> cases i.push <;> rfl

/-- The oldest element that can be popped is shown. -/
theorem head?_visible (h : f.emptyO fallThrough i = false) :
    (visible fallThrough f.toQueue i).head? = some (f.dataO fallThrough i) := by
  rw [visible, dataO, accepted_toQueue]
  cases hz : f.statusCntQ == 0 with
  | true =>
    rw [emptyO, hz, Bool.true_and, Bool.not_eq_false', Bool.and_eq_true] at h
    obtain ⟨hft, hpush⟩ := h
    have hnil : f.toQueue.items = [] := List.isEmpty_iff.mp (isEmpty_toQueue.trans hz)
    rw [pushes_of_zero hz, hft, hpush, hnil]
    rfl
  | false =>
    rw [statusCntQ_beq_zero, decide_eq_false_iff_not] at hz
    obtain ⟨c, hc⟩ := Nat.exists_eq_succ_of_ne_zero hz
    have hitems : f.toQueue.items = f.memQ (Fin.ofNat depth f.readPointerQ.toNat) ::
        Ring.contents f.memQ (f.readPointerQ.toNat + 1) c := by
      rw [← Ring.contents_cons, ← Nat.succ_eq_add_one, ← hc]
      rfl
    rw [hitems, Bool.and_false, Bool.false_and, if_neg Bool.false_ne_true]
    rfl

/-! ### Runs -/

/-- A `fifo_v3`, with `zero` in its memory out of reset. -/
def machine (depth : ℕ) [NeZero depth] (fallThrough : Bool) (zero : α) :
    Machine (FifoV3 α depth) (FifoIn α) where
  init := init zero
  step f i := f.next fallThrough i

/-- A queue that is pushed, popped and flushed. -/
def queueMachine (depth : ℕ) (fallThrough : Bool) : Machine (Queue α depth) (FifoIn α) where
  init := Queue.empty
  step q i := if i.flush then Queue.empty
    else q.edge i.offer (i.pop && !(visible fallThrough q i).isEmpty)

/-- The ring holds what the queue holds, in every cycle. -/
theorem toQueue_stateAt (fallThrough : Bool) (zero : α) (ins : ℕ → FifoIn α) (t : ℕ) :
    ((machine depth fallThrough zero).stateAt ins t).toQueue =
      (queueMachine depth fallThrough).stateAt ins t := by
  induction t with
  | zero => rfl
  | succ t ih =>
    rw [Machine.stateAt_succ, Machine.stateAt_succ, ← ih]
    change (next _ fallThrough (ins t)).toQueue = if (ins t).flush then Queue.empty else _
    cases hflush : (ins t).flush with
    | true => exact toQueue_flush hflush
    | false => rw [toQueue_next hflush, isEmpty_visible, if_neg Bool.false_ne_true, pops]

/-- **A `fifo_v3` is a queue.** At every depth, with and without fall-through, and whatever is
pushed, popped and flushed: the ring holds what the queue holds, it is full if the queue is, it is
empty if nothing is to be seen, and otherwise it shows the oldest element. -/
theorem refines_queue (fallThrough : Bool) (zero : α) (ins : ℕ → FifoIn α) (t : ℕ) :
    ((machine depth fallThrough zero).stateAt ins t).toQueue =
      (queueMachine depth fallThrough).stateAt ins t ∧
      ((machine depth fallThrough zero).stateAt ins t).fullO =
        ((queueMachine depth fallThrough).stateAt ins t).full ∧
      ((machine depth fallThrough zero).stateAt ins t).emptyO fallThrough (ins t) =
        (visible fallThrough ((queueMachine depth fallThrough).stateAt ins t) (ins t)).isEmpty ∧
      ∀ x, (visible fallThrough ((queueMachine depth fallThrough).stateAt ins t) (ins t)).head? =
        some x →
        ((machine depth fallThrough zero).stateAt ins t).dataO fallThrough (ins t) = x := by
  rw [← toQueue_stateAt fallThrough zero, full_toQueue, isEmpty_visible]
  refine ⟨rfl, rfl, rfl, fun x hx => ?_⟩
  cases hempty : ((machine depth fallThrough zero).stateAt ins t).emptyO fallThrough (ins t) with
  | true =>
    rw [← isEmpty_visible, List.isEmpty_iff] at hempty
    rw [hempty] at hx
    cases hx
  | false => exact Option.some.inj ((head?_visible hempty).symm.trans hx)

/-- A push in every cycle, a pop in every third one and a flush in cycle 9. -/
def stepping (t : ℕ) : FifoIn ℕ := ⟨t == 9, true, t, t % 3 == 2⟩

/-- In cycle 4 the ring of three cells is full and drops what is pushed; in cycle 9 its read pointer
has come round and the first cell has been written again; in cycle 10 it is empty. -/
theorem refines_queue_stepping :
    ((machine 3 false 0).stateAt stepping 4).fullO = true ∧
      ((machine 3 false 0).stateAt stepping 9).readPointerQ = 0 ∧
      ((machine 3 false 0).stateAt stepping 9).toQueue.items = [3, 6] ∧
      ((machine 3 false 0).stateAt stepping 9).dataO false (stepping 9) = 3 ∧
      ((machine 3 false 0).stateAt stepping 10).emptyO false (stepping 10) = true := by
  have hitems : ((machine 3 false 0).stateAt stepping 9).toQueue = _ :=
    (refines_queue false 0 stepping 9).1
  refine ⟨(refines_queue false 0 stepping 4).2.1.trans (by decide), by decide, ?_,
    (refines_queue false 0 stepping 9).2.2.2 3 (by decide),
    (refines_queue false 0 stepping 10).2.2.1.trans (by decide)⟩
  rw [hitems]
  decide

/-! ### `stream_fifo` -/

/-- The inputs that a `stream_fifo` gives to its `fifo_v3`. -/
def streamIn (f : FifoV3 α depth) (fallThrough : Bool) (offer : Option α) (data : α)
    (readyI : Bool) : FifoIn α where
  flush := false
  push := offer.isSome && !f.fullO
  data := offer.getD data
  pop := readyI && !(f.statusCntQ == 0 && !(fallThrough && (offer.isSome && !f.fullO)))

theorem accepted_streamIn {offer : Option α} {data : α} {readyI : Bool} :
    f.toQueue.accepted (f.streamIn fallThrough offer data readyI).offer =
      f.toQueue.accepted offer := by
  rw [Queue.accepted, Queue.accepted, full_toQueue, FifoIn.offer, streamIn]
  cases f.fullO <;> cases offer <;> rfl

theorem pops_streamIn {offer : Option α} {data : α} {readyI : Bool} :
    f.pops fallThrough (f.streamIn fallThrough offer data readyI) =
      (readyI &&
        !(visible fallThrough f.toQueue (f.streamIn fallThrough offer data readyI)).isEmpty) := by
  rw [isEmpty_visible, pops, emptyO, streamIn]
  cases f.statusCntQ == 0 <;> cases readyI <;> simp

/-- A `stream_fifo` without fall-through is the one that the other modules use. -/
theorem streamFifo_next (offer : Option α) (data : α) (readyI : Bool) :
    (⟨(f.next false (f.streamIn false offer data readyI)).toQueue⟩ : StreamFifo α depth) =
      StreamFifo.next ⟨f.toQueue⟩ offer.isSome (offer.getD data) readyI := by
  have hin : f.toQueue.accepted offer =
      if StreamFifo.push ⟨f.toQueue⟩ offer.isSome then [offer.getD data] else [] := by
    rw [Queue.accepted, StreamFifo.push, StreamFifo.readyO]
    cases f.toQueue.full <;> cases offer <;> rfl
  rw [toQueue_next rfl, pops_streamIn, StreamFifo.next]
  congr 1
  ext1
  rw [Queue.items_edge, Queue.items_edge, accepted_streamIn, StreamFifo.accepted_next, hin, visible,
    if_neg Bool.false_ne_true, List.append_nil]
  rfl

/-- A `stream_fifo` with fall-through, as a `fall_through_register`, is the one that the other
modules use. -/
theorem fallThroughFifo_next (offer : Option α) (data : α) (readyI : Bool) :
    (⟨(f.next true (f.streamIn true offer data readyI)).toQueue⟩ : FallThroughFifo α depth) =
      FallThroughFifo.next ⟨f.toQueue⟩ offer readyI := by
  rw [toQueue_next rfl, pops_streamIn, FallThroughFifo.next]
  congr 1
  ext1
  rw [Queue.items_edge, Queue.items_edge, accepted_streamIn, visible, if_pos rfl, accepted_streamIn,
    FallThroughFifo.pop, FallThroughFifo.out_eq_head?]
  cases f.toQueue.items ++ f.toQueue.accepted offer <;> rfl

end FifoV3

/-! ### `passthrough_stream_fifo` -/

/-- The registers of a `passthrough_stream_fifo`, for which the source asks for a depth of at least
two. -/
structure PassthroughRing (α : Type*) (depth : ℕ) where
  /-- `read_ptr_q`. -/
  readPtrQ : BitVec (Nat.clog 2 depth + 1)
  /-- `write_ptr_q`. -/
  writePtrQ : BitVec (Nat.clog 2 depth + 1)
  /-- `data_q`. -/
  dataQ : Fin depth → α

/-- The inputs of a `passthrough_stream_fifo` in one cycle. -/
structure PassthroughIn (α : Type*) where
  /-- `flush_i`. -/
  flush : Bool
  /-- `data_i`, where `valid_i` is set. -/
  offer : Option α
  /-- `ready_i`. -/
  readyI : Bool

namespace PassthroughRing

variable {α : Type*} {depth : ℕ}

/-- The place in the memory, `ptr[PointerWidth-2:0]`. -/
def place (p : BitVec (Nat.clog 2 depth + 1)) : ℕ := p.toNat % 2 ^ Nat.clog 2 depth

/-- The lap, `ptr[PointerWidth-1]`. -/
def lap (p : BitVec (Nat.clog 2 depth + 1)) : Bool := p.getLsbD (Nat.clog 2 depth)

/-- A pointer to the next cell. -/
def nextPtr (p : BitVec (Nat.clog 2 depth + 1)) : BitVec (Nat.clog 2 depth + 1) :=
  if place p = depth - 1 then BitVec.cons (!lap p) 0 else p + 1

/-- How far a pointer is in two laps. -/
def position (p : BitVec (Nat.clog 2 depth + 1)) : ℕ := place p + depth * (lap p).toNat

/-- A pointer is a place and a lap. -/
theorem toNat_eq (p : BitVec (Nat.clog 2 depth + 1)) :
    p.toNat = place p + 2 ^ Nat.clog 2 depth * (lap p).toNat := by
  have hlt : p.toNat / 2 ^ Nat.clog 2 depth < 2 := by
    rw [Nat.div_lt_iff_lt_mul (Nat.two_pow_pos _), Nat.mul_comm, ← Nat.pow_succ]
    exact p.isLt
  rw [place, lap, ← BitVec.testBit_toNat, Nat.toNat_testBit, Nat.mod_eq_of_lt hlt, Nat.mod_add_div]

theorem place_lap_of_toNat {p : BitVec (Nat.clog 2 depth + 1)} {k : ℕ} {b : Bool}
    (hk : k < 2 ^ Nat.clog 2 depth)
    (h : p.toNat = k + 2 ^ Nat.clog 2 depth * b.toNat) : place p = k ∧ lap p = b := by
  have hplace : place p = k := by rw [place, h, Nat.add_mul_mod_self_left, Nat.mod_eq_of_lt hk]
  refine ⟨hplace, ?_⟩
  have hlap := toNat_eq p
  rw [h, hplace, Nat.add_left_cancel_iff, Nat.mul_right_inj (Nat.two_pow_pos _).ne'] at hlap
  cases b <;> cases hl : lap p <;> simp [hl] at hlap ⊢

/-- A pointer goes round in two laps. -/
theorem nextPtr_spec {p : BitVec (Nat.clog 2 depth + 1)} (h : place p < depth) :
    place (nextPtr p) = (place p + 1) % depth ∧
      position (nextPtr p) = (position p + 1) % (2 * depth) := by
  have hdepth : depth ≤ 2 ^ Nat.clog 2 depth := Nat.le_pow_clog (by decide) depth
  have htoNat := toNat_eq p
  rw [nextPtr]
  split
  · next hlast =>
    obtain ⟨hplace, hlap⟩ : place (BitVec.cons (!lap p) (0 : BitVec (Nat.clog 2 depth))) = 0 ∧
        lap (BitVec.cons (!lap p) (0 : BitVec (Nat.clog 2 depth))) = !lap p := by
      refine place_lap_of_toNat (Nat.two_pow_pos _) ?_
      rw [BitVec.toNat_cons', Nat.shiftLeft_eq, Nat.mul_comm, Nat.add_comm]
      rfl
    have hsucc : place p + 1 = depth := by omega
    rw [position, position, hplace, hlap, Nat.add_right_comm, hsucc, Nat.mod_self]
    refine ⟨rfl, ?_⟩
    cases lap p with
    | false =>
      rw [Bool.toNat_false, Nat.mul_zero, Nat.add_zero, Nat.mod_eq_of_lt (by omega)]
      simp
    | true =>
      rw [Bool.toNat_true, Nat.mul_one, ← Nat.two_mul, Nat.mod_self]
      simp
  · next hlast =>
    obtain ⟨hplace, hlap⟩ : place (p + 1) = place p + 1 ∧ lap (p + 1) = lap p := by
      refine place_lap_of_toNat (by omega) ?_
      have hone : (1 : BitVec (Nat.clog 2 depth + 1)).toNat = 1 := BitVec.toNat_one (Nat.succ_pos _)
      have hbound : 2 ^ Nat.clog 2 depth * (lap p).toNat ≤ 2 ^ Nat.clog 2 depth :=
        (Nat.mul_le_mul_left _ (Bool.toNat_le _)).trans_eq (Nat.mul_one _)
      rw [BitVec.toNat_add, hone, htoNat, Nat.mod_eq_of_lt (by rw [Nat.pow_succ]; omega)]
      omega
    have hbound : depth * (lap p).toNat ≤ depth :=
      (Nat.mul_le_mul_left _ (Bool.toNat_le _)).trans_eq (Nat.mul_one _)
    rw [position, position, hplace, hlap, Nat.mod_eq_of_lt (by omega : place p + 1 < depth),
      Nat.mod_eq_of_lt (by omega), Nat.add_right_comm]
    exact ⟨rfl, rfl⟩

/-- A pointer that moves on, or stays. -/
theorem ite_nextPtr_spec {p : BitVec (Nat.clog 2 depth + 1)} (h : place p < depth) (b : Bool) :
    place (if b then nextPtr p else p) = (place p + b.toNat) % depth ∧
      position (if b then nextPtr p else p) = (position p + b.toNat) % (2 * depth) := by
  cases b with
  | true => exact nextPtr_spec h
  | false =>
    have hbound : depth * (lap p).toNat ≤ depth :=
      (Nat.mul_le_mul_left _ (Bool.toNat_le _)).trans_eq (Nat.mul_one _)
    have hposition : position p < 2 * depth := by
      rw [position]
      omega
    exact ⟨(Nat.mod_eq_of_lt h).symm, (Nat.mod_eq_of_lt hposition).symm⟩

section Wires

variable [NeZero depth] (f : PassthroughRing α depth) (i : PassthroughIn α)

/-- The FIFO out of reset. -/
def init (zero : α) : PassthroughRing α depth := ⟨0, 0, fun _ => zero⟩

/-- `data_o`. -/
def dataO : α := f.dataQ (Fin.ofNat depth (place f.readPtrQ))

/-- `valid_o`. -/
def validO : Bool :=
  !i.flush && if lap f.readPtrQ = lap f.writePtrQ then place f.readPtrQ != place f.writePtrQ
    else true

/-- `ready_o`, with `SameCycleRW`. -/
def readyO : Bool :=
  !i.flush &&
    ((if lap f.readPtrQ = lap f.writePtrQ then true else place f.writePtrQ != place f.readPtrQ) ||
    (i.readyI && f.validO i))

/-- One clock edge. -/
def next : PassthroughRing α depth where
  readPtrQ := if i.flush then 0 else if i.readyI then nextPtr f.readPtrQ else f.readPtrQ
  writePtrQ := if i.flush then 0 else if i.offer.isSome then nextPtr f.writePtrQ else f.writePtrQ
  dataQ :=
    match i.offer with
    | some a => if i.flush then f.dataQ
        else Function.update f.dataQ (Fin.ofNat depth (place f.writePtrQ)) a
    | none => f.dataQ

variable {f i}

/-- The ring holds what the queue holds. -/
structure Holds (f : PassthroughRing α depth) (q : Queue α depth) : Prop where
  /-- The read pointer points into the memory. -/
  read : place f.readPtrQ < depth
  /-- The write pointer points into the memory. -/
  write : place f.writePtrQ < depth
  /-- The write pointer is as far ahead as there are elements. -/
  ahead : position f.writePtrQ = (position f.readPtrQ + q.items.length) % (2 * depth)
  /-- The elements are in the memory. -/
  contents : Ring.contents f.dataQ (place f.readPtrQ) q.items.length = q.items

variable {q : Queue α depth}

/-- The two pointers are on the same lap, or the write pointer is on the next. -/
theorem Holds.laps (h : f.Holds q) :
    (place f.writePtrQ = place f.readPtrQ + q.items.length ∧ lap f.writePtrQ = lap f.readPtrQ) ∨
      (place f.writePtrQ + depth = place f.readPtrQ + q.items.length ∧
        lap f.writePtrQ = !lap f.readPtrQ) := by
  have hread := h.read
  have hwrite := h.write
  have hahead := h.ahead
  have hle := q.length_le
  rw [position, position] at hahead
  cases hr : lap f.readPtrQ with
  | false =>
    rw [hr, Bool.toNat_false, Nat.mul_zero, Nat.add_zero, Nat.mod_eq_of_lt (by omega)] at hahead
    cases hw : lap f.writePtrQ <;> simp [hw] at hahead ⊢ <;> omega
  | true =>
    rcases Nat.lt_or_ge (place f.readPtrQ + q.items.length) depth with hlt | hge
    · rw [hr, Bool.toNat_true, Nat.mul_one, Nat.mod_eq_of_lt (by omega)] at hahead
      cases hw : lap f.writePtrQ <;> simp [hw] at hahead ⊢ <;> omega
    · rw [hr, Bool.toNat_true, Nat.mul_one, Nat.mod_eq_sub_mod (by omega),
        Nat.mod_eq_of_lt (by omega)] at hahead
      cases hw : lap f.writePtrQ <;> simp [hw] at hahead ⊢ <;> omega

/-- The pointers differ if the queue is not empty. -/
theorem Holds.validO (h : f.Holds q) : f.validO i = (!i.flush && !q.items.isEmpty) := by
  have hread := h.read
  have hwrite := h.write
  have hempty : q.items.isEmpty = decide (q.items.length = 0) := by cases q.items <;> rfl
  rw [PassthroughRing.validO, hempty]
  congr 1
  rcases h.laps with ⟨hplace, hlap⟩ | ⟨hplace, hlap⟩
  · rw [if_pos hlap.symm, hplace, Bool.eq_iff_iff]
    simp
  · rw [if_neg (by rw [hlap]; cases lap f.readPtrQ <;> decide), decide_eq_false (by omega)]
    rfl

/-- The pointers differ in their lap only if the queue is full. -/
theorem Holds.readyO (h : f.Holds q) :
    f.readyO i = (!i.flush && (!q.full || (i.readyI && !q.items.isEmpty))) := by
  have hread := h.read
  have hwrite := h.write
  rw [PassthroughRing.readyO, h.validO]
  have hroom : (if lap f.readPtrQ = lap f.writePtrQ then true
      else place f.writePtrQ != place f.readPtrQ) =
      !q.full := by
    rw [Queue.full]
    rcases h.laps with ⟨hplace, hlap⟩ | ⟨hplace, hlap⟩
    · rw [if_pos hlap.symm, eq_comm, Bool.not_eq_true', beq_eq_false_iff_ne]
      omega
    · rw [if_neg (by rw [hlap]; cases lap f.readPtrQ <;> decide), Bool.eq_iff_iff, bne_iff_ne,
        Bool.not_eq_true', beq_eq_false_iff_ne]
      omega
  rw [hroom]
  cases i.flush <;> rfl

/-- The read pointer points to the oldest element. -/
theorem Holds.dataO (h : f.Holds q) {a : α} (ha : q.items.head? = some a) : f.dataO = a := by
  have hcontents := h.contents
  cases hi : q.items with
  | nil => rw [hi] at ha; cases ha
  | cons b l =>
    rw [hi, List.length_cons, Ring.contents_cons] at hcontents
    rw [hi, List.head?_cons, Option.some.injEq] at ha
    exact (List.cons.inj hcontents).1.trans ha

omit [NeZero depth] in
/-- What the queue holds after an edge, if the environment keeps to the handshake. -/
theorem items_next {offer : Option α} {readyI : Bool}
    (hpush : offer.isSome = true → (!q.full || (readyI && !q.items.isEmpty)) = true)
    (hpop : readyI = true → (!q.items.isEmpty) = true) :
    readyI.toNat ≤ q.items.length ∧ (offer.isSome = true → q.items.length - readyI.toNat < depth) ∧
      (PassthroughStreamFifo.next ⟨q⟩ offer readyI).store.items =
        q.items.drop readyI.toNat ++ offer.toList := by
  have hconserved := PassthroughStreamFifo.conserved (f := ⟨q⟩) hpush hpop
  have hle := (PassthroughStreamFifo.next ⟨q⟩ offer readyI).store.length_le
  cases readyI with
  | false =>
    rw [if_neg Bool.false_ne_true, List.nil_append] at hconserved
    rw [← hconserved] at hle ⊢
    refine ⟨Nat.zero_le _, fun hsome => ?_, rfl⟩
    rw [List.length_append, length_toList_eq, hsome] at hle
    exact hle
  | true =>
    cases hi : q.items with
    | nil =>
      have hsome := hpop rfl
      rw [hi] at hsome
      cases hsome
    | cons a l =>
      have hbound := q.length_le
      rw [hi, List.length_cons] at hbound
      rw [hi, if_pos rfl] at hconserved
      refine ⟨Nat.le_add_left _ _, fun _ => hbound, ?_⟩
      exact (List.cons.inj hconserved).2.symm

omit [NeZero depth] in
theorem place_zero : place (0 : BitVec (Nat.clog 2 depth + 1)) = 0 := Nat.zero_mod _

theorem holds_empty (mem : Fin depth → α) :
    (⟨0, 0, mem⟩ : PassthroughRing α depth).Holds Queue.empty where
  read := place_zero.trans_lt (Nat.pos_of_neZero depth)
  write := place_zero.trans_lt (Nat.pos_of_neZero depth)
  ahead := by
    have hzero : position (0 : BitVec (Nat.clog 2 depth + 1)) = 0 := by
      simp [position, place, lap]
    rw [hzero]
    exact (Nat.zero_mod _).symm
  contents := rfl

/-- The cell that the write pointer points to is the one behind the last. -/
theorem Holds.ofNat_place (h : f.Holds q) : Fin.ofNat depth (place f.writePtrQ) =
    Fin.ofNat depth (place f.readPtrQ + q.items.length) := by
  rw [Fin.ext_iff, Fin.val_ofNat, Fin.val_ofNat]
  rcases h.laps with ⟨hplace, -⟩ | ⟨hplace, -⟩
  · rw [hplace]
  · rw [← hplace, Nat.add_mod_right]

/-- One edge, for an environment that keeps to the handshake. -/
theorem Holds.next (h : f.Holds q) (hpush : i.offer.isSome = true → f.readyO i = true)
    (hpop : i.readyI = true → f.validO i = true) :
    (f.next i).Holds (if i.flush then Queue.empty
      else (PassthroughStreamFifo.next ⟨q⟩ i.offer i.readyI).store) := by
  cases hflush : i.flush with
  | true =>
    have hnext : f.next i = ⟨0, 0, (f.next i).dataQ⟩ := by
      rw [PassthroughRing.next, hflush]
      rfl
    rw [hnext]
    exact holds_empty _
  | false =>
    rw [h.readyO, hflush, Bool.not_false, Bool.true_and] at hpush
    rw [h.validO, hflush, Bool.not_false, Bool.true_and] at hpop
    obtain ⟨hle, hroom, hitems⟩ := items_next hpush hpop
    obtain ⟨hplaceR, hpositionR⟩ := ite_nextPtr_spec h.read i.readyI
    obtain ⟨hplaceW, hpositionW⟩ := ite_nextPtr_spec h.write i.offer.isSome
    have hread : (f.next i).readPtrQ = if i.readyI then nextPtr f.readPtrQ else f.readPtrQ := by
      rw [PassthroughRing.next, hflush]
      rfl
    have hwrite : (f.next i).writePtrQ = if i.offer.isSome then nextPtr f.writePtrQ
        else f.writePtrQ := by
      rw [PassthroughRing.next, hflush]
      rfl
    have hlength : (PassthroughStreamFifo.next ⟨q⟩ i.offer i.readyI).store.items.length =
        q.items.length - i.readyI.toNat + i.offer.isSome.toNat := by
      rw [hitems, List.length_append, List.length_drop, length_toList_eq]
    rw [if_neg Bool.false_ne_true]
    refine ⟨?_, ?_, ?_, ?_⟩
    · rw [hread, hplaceR]
      exact Nat.mod_lt _ (Nat.pos_of_neZero depth)
    · rw [hwrite, hplaceW]
      exact Nat.mod_lt _ (Nat.pos_of_neZero depth)
    · rw [hread, hwrite, hpositionR, hpositionW, h.ahead, Nat.mod_add_mod, Nat.mod_add_mod, hlength]
      congr 1
      omega
    · -- what is popped leaves first: the cell that is written may be its
      have hdrop : Ring.contents f.dataQ (place f.readPtrQ + i.readyI.toNat)
          (q.items.length - i.readyI.toNat) =
          q.items.drop i.readyI.toNat := by
        rw [← Ring.drop_contents, Nat.sub_add_cancel hle, h.contents]
      rw [hread, hplaceR, Ring.contents_mod, hlength, hitems]
      cases hoffer : i.offer with
      | none =>
        rw [PassthroughRing.next, hoffer]
        simpa using hdrop
      | some a =>
        have hlt := hroom (by rw [hoffer]; rfl)
        have hcell : (f.next i).dataQ = Function.update f.dataQ
            (Fin.ofNat depth (place f.readPtrQ + i.readyI.toNat +
              (q.items.length - i.readyI.toNat))) a := by
          have hsum : place f.readPtrQ + i.readyI.toNat + (q.items.length - i.readyI.toNat) =
              place f.readPtrQ + q.items.length := by omega
          rw [PassthroughRing.next, hoffer, hflush, h.ofNat_place, hsum]
          rfl
        rw [hcell, ← hdrop]
        exact Ring.contents_push _ _ hlt a

/-! ### Runs -/

/-- A `passthrough_stream_fifo`, with `zero` in its memory out of reset. -/
def machine (depth : ℕ) [NeZero depth] (zero : α) :
    Machine (PassthroughRing α depth) (PassthroughIn α) where
  init := init zero
  step f i := f.next i

/-- The queue, with a flush. -/
def queueMachine (depth : ℕ) : Machine (Queue α depth) (PassthroughIn α) where
  init := Queue.empty
  step q i :=
    if i.flush then Queue.empty else (PassthroughStreamFifo.next ⟨q⟩ i.offer i.readyI).store

/-- **A `passthrough_stream_fifo` is a queue**, at every depth and in every run in which it is
pushed only if it is ready and popped only if it is valid: its outputs are those of the queue. -/
theorem refines_passthrough (zero : α) (ins : ℕ → PassthroughIn α)
    (hpush : ∀ t, (ins t).offer.isSome = true →
      ((machine depth zero).stateAt ins t).readyO (ins t) = true)
    (hpop : ∀ t, (ins t).readyI = true → ((machine depth zero).stateAt ins t).validO (ins t) = true)
    (t : ℕ) :
    ((machine depth zero).stateAt ins t).validO (ins t) =
        (!(ins t).flush && !((queueMachine depth).stateAt ins t).items.isEmpty) ∧
      ((machine depth zero).stateAt ins t).readyO (ins t) =
        (!(ins t).flush && (!((queueMachine depth).stateAt ins t).full ||
          ((ins t).readyI && !((queueMachine depth).stateAt ins t).items.isEmpty))) ∧
      ∀ x, ((queueMachine depth).stateAt ins t).items.head? = some x →
        ((machine depth zero).stateAt ins t).dataO = x := by
  have hholds : ((machine depth zero).stateAt ins t).Holds
      ((queueMachine depth).stateAt ins t) := by
    induction t with
    | zero => exact holds_empty _
    | succ t ih => exact ih.next (hpush t) (hpop t)
  exact ⟨hholds.validO, hholds.readyO, fun x hx => hholds.dataO hx⟩

/-- Three pushes, then a push and a pop in every cycle while the FIFO is full, then nothing. -/
def overlapping (t : ℕ) : PassthroughIn ℕ :=
  if t < 10 then ⟨false, some t, decide (3 ≤ t)⟩ else ⟨false, none, false⟩

/-- The full ring takes an element in the cycle in which it gives one away, in the cell that it
frees. -/
theorem refines_passthrough_overlapping :
    ((queueMachine 3).stateAt overlapping 6).full = true ∧
      ((machine 3 0).stateAt overlapping 6).readyO (overlapping 6) = true ∧
      ((machine 3 0).stateAt overlapping 6).dataO = 3 ∧
      ((machine 3 0).stateAt overlapping 10).readyO (overlapping 10) = false ∧
      ((machine 3 0).stateAt overlapping 10).dataO = 7 := by
  have hidle : ∀ t, 10 ≤ t → overlapping t = ⟨false, none, false⟩ := fun t ht => if_neg (by omega)
  have hbusy : ∀ t < 10, ((machine 3 0).stateAt overlapping t).readyO (overlapping t) = true ∧
      ((overlapping t).readyI = true →
        ((machine 3 0).stateAt overlapping t).validO (overlapping t) = true) := by decide
  have hpush : ∀ t, (overlapping t).offer.isSome = true →
      ((machine 3 0).stateAt overlapping t).readyO (overlapping t) = true := by
    intro t hoffer
    by_cases ht : t < 10
    · exact (hbusy t ht).1
    · rw [hidle t (by omega)] at hoffer
      cases hoffer
  have hpop : ∀ t, (overlapping t).readyI = true →
      ((machine 3 0).stateAt overlapping t).validO (overlapping t) = true := by
    intro t hready
    by_cases ht : t < 10
    · exact (hbusy t ht).2 hready
    · rw [hidle t (by omega)] at hready
      cases hready
  obtain ⟨-, hready6, hdata6⟩ := refines_passthrough 0 overlapping hpush hpop 6
  obtain ⟨-, hready10, hdata10⟩ := refines_passthrough 0 overlapping hpush hpop 10
  exact ⟨by decide, hready6.trans (by decide), hdata6 3 (by decide), hready10.trans (by decide),
    hdata10 7 (by decide)⟩

end Wires

end PassthroughRing

end Croc
