import Mathlib.Data.Fintype.Basic
import Mathlib.Data.Fin.VecNotation
import Mathlib.Data.BitVec
import Croc.Lib.Clocked
import Croc.Lib.Queue

/-!
# Handshake cells

The small cells that the modelled blocks are wired from: the synchronous FIFO of the core
(`prim_fifo_sync`), the stream FIFO of the SoC (`stream_fifo` over `fifo_v3`), the fork and join of
ready/valid streams (`stream_fork`, `stream_join_dynamic`), and the synchroniser of a pin (`sync`).

The two FIFOs keep their elements in a ring of registers behind read and write pointers. Only the
order and the number of the elements are visible outside, so they are modelled by a `Queue`, whose
bound stands for the full flag.

## Main definitions

* `PrimFifoSync`: the FIFO with an under-reset flag, with and without pass-through.
* `StreamFifo`: the FIFO without pass-through.
* `StreamFork`: one stream to several, each taking its own time.
* `streamJoinDynamic`: several streams to one, over a selection.
* `Sync`: a pin sampled through a chain of flops.

## Main results

* `PrimFifoSync.rvalid_pass_iff`, `PrimFifoSync.rdata_pass`: the read port shows the oldest element
  of what is held and what arrives.
* `PrimFifoSync.items_next`: one edge moves the contents by what is accepted and what is read.
* `StreamFifo.items_next`, `StreamFifo.length_next`: the same for the stream FIFO.
* `Sync.serialO_stateAt`: the synchroniser delays the pin by its number of stages.
-/

namespace Croc

open Clocked

/-! ### `prim_fifo_sync` -/

/-- The state of a `prim_fifo_sync` of more than one element. -/
structure PrimFifoSync (α : Type*) (depth : ℕ) where
  /-- Set in the first cycle out of reset only. -/
  underRst : Bool
  /-- The elements held. -/
  store : Queue α depth
  deriving DecidableEq

namespace PrimFifoSync

variable {α : Type*} {depth : ℕ} (f : PrimFifoSync α depth)

/-- The FIFO out of reset. -/
def init : PrimFifoSync α depth := ⟨true, Queue.empty⟩

/-- `wready_o`. -/
def wready : Bool := !f.store.full && !f.underRst

/-- `empty`: nothing to read. With pass-through an element on the write port can be read at once. -/
def empty (pass wvalid : Bool) : Bool := f.store.items.isEmpty && !(pass && wvalid)

/-- `rvalid_o`. Only the pass-through variant masks it under reset. -/
def rvalid (pass wvalid : Bool) : Bool := !f.empty pass wvalid && !(pass && f.underRst)

/-- `rdata_o`, which is zero while there is nothing to read. -/
def rdata [Inhabited α] (pass wvalid : Bool) (wdata : α) : α :=
  if f.empty pass wvalid then default else f.store.items.headD wdata

/-- The element the write port offers to the store. -/
def offer (wvalid : Bool) (wdata : α) : Option α := if wvalid && f.wready then some wdata else none

/-- One clock edge. -/
def next (pass wvalid : Bool) (wdata : α) (rready : Bool) : PrimFifoSync α depth where
  underRst := false
  store := f.store.edge (f.offer wvalid wdata) (f.rvalid pass wvalid && rready && !f.underRst)

variable {f} {pass wvalid rready : Bool} {wdata : α}

@[simp] theorem underRst_next : (f.next pass wvalid wdata rready).underRst = false := rfl

/-- What the FIFO can show in a cycle: the elements held, then the one it accepts. -/
def visible (f : PrimFifoSync α depth) (wvalid : Bool) (wdata : α) : List α :=
  f.store.items ++ f.store.accepted (f.offer wvalid wdata)

theorem visible_of_not_wvalid : f.visible false wdata = f.store.items := by
  simp [visible, offer, Queue.accepted]

/-- The head of a nonempty store is what the FIFO shows first, whatever arrives. -/
theorem head?_visible {a : α} (h : f.store.items.head? = some a) :
    (f.visible wvalid wdata).head? = some a := by
  cases hi : f.store.items with
  | nil => simp [hi] at h
  | cons b l => simpa [visible, hi] using h

/-- **Conservation.** One edge lets out the oldest visible element when it is read. -/
theorem items_next :
    (f.next pass wvalid wdata rready).store.items =
      (f.visible wvalid wdata).drop (f.rvalid pass wvalid && rready && !f.underRst).toNat := rfl

theorem items_next_of_not_rready : (f.next pass wvalid wdata false).store.items =
    f.visible wvalid wdata := by
  simp [items_next]

/-- An empty store offers its visible element on the read port of a pass-through FIFO. -/
theorem rvalid_pass_iff (hd : 0 < depth) (hr : f.underRst = false) (wdata : α) :
    f.rvalid true wvalid = true ↔ f.visible wvalid wdata ≠ [] := by
  have hfull : f.store.items = [] → f.store.full = false := by
    intro h
    have : ¬ f.store.full = true := by rw [Queue.full_iff, h]; exact hd.ne
    simpa using this
  cases hi : f.store.items with
  | nil =>
    have := hfull hi
    cases wvalid <;>
      simp [rvalid, empty, visible, offer, wready, Queue.accepted, hi, hr, this]
  | cons a l => simp [rvalid, empty, visible, hi, hr]

/-- The read port of a pass-through FIFO shows the oldest visible element. -/
theorem rdata_pass [Inhabited α] (hd : 0 < depth) (hr : f.underRst = false) {a : α}
    (h : (f.visible wvalid wdata).head? = some a) : f.rdata true wvalid wdata = a := by
  cases hi : f.store.items with
  | nil =>
    have hfull : f.store.full = false := by
      have : ¬ f.store.full = true := by rw [Queue.full_iff, hi]; exact hd.ne
      simpa using this
    cases wvalid
    · simp [visible, offer, hi, Queue.accepted] at h
    · simp [visible, offer, hi, Queue.accepted, hfull, wready, hr] at h
      simp [rdata, empty, hi, h]
  | cons b l =>
    simp [visible, hi] at h
    simp [rdata, empty, hi, h]

theorem rvalid_noPass : f.rvalid false wvalid = !f.store.items.isEmpty := by
  simp [rvalid, empty]

theorem rdata_noPass [Inhabited α] {a : α} (h : f.store.items.head? = some a) :
    f.rdata false wvalid wdata = a := by
  cases hi : f.store.items with
  | nil => simp [hi] at h
  | cons b l =>
    simp [hi] at h
    simp [rdata, empty, hi, h]

end PrimFifoSync

/-! ### `stream_fifo` -/

/-- A `stream_fifo` without fall-through. -/
structure StreamFifo (α : Type*) (depth : ℕ) where
  /-- The elements held. -/
  store : Queue α depth
  deriving DecidableEq

namespace StreamFifo

variable {α : Type*} {depth : ℕ} (f : StreamFifo α depth)

/-- The FIFO out of reset. -/
def init : StreamFifo α depth := ⟨Queue.empty⟩

/-- `ready_o`: not full. -/
def readyO : Bool := !f.store.full

/-- `valid_o`: not empty. -/
def validO : Bool := !f.store.items.isEmpty

/-- `push`: an element is taken in. -/
def push (validI : Bool) : Bool := validI && f.readyO

/-- `pop`: the oldest element is taken out. -/
def pop (readyI : Bool) : Bool := readyI && f.validO

/-- One clock edge. -/
def next (validI : Bool) (dataI : α) (readyI : Bool) : StreamFifo α depth where
  store := f.store.edge (if f.push validI then some dataI else none) (f.pop readyI)

variable {f} {validI readyI : Bool} {dataI : α}

theorem accepted_next : f.store.accepted (if f.push validI then some dataI else none) =
    if f.push validI then [dataI] else [] := by
  cases hfull : f.store.full <;> cases validI <;> simp [Queue.accepted, push, readyO, hfull]

/-- The contents after an edge. -/
theorem items_next : (f.next validI dataI readyI).store.items =
    (f.store.items ++ if f.push validI then [dataI] else []).drop (f.pop readyI).toNat := by
  rw [next, Queue.items_edge, accepted_next]

/-- The number of elements after an edge. -/
theorem length_next : (f.next validI dataI readyI).store.items.length + (f.pop readyI).toNat =
    f.store.items.length + (f.push validI).toNat := by
  have hpop : (f.pop readyI).toNat ≤ f.store.items.length := by
    cases hi : f.store.items with
    | nil => simp [pop, validO, hi]
    | cons a l => cases f.pop readyI <;> simp
  have hpush : (if f.push validI then [dataI] else []).length = (f.push validI).toNat := by
    cases f.push validI <;> rfl
  have hcons := congrArg List.length
    (f.store.accepted_append (if f.push validI then some dataI else none) (f.pop readyI))
  rw [List.length_append, List.length_append, accepted_next, hpush,
    Queue.length_released hpop] at hcons
  rw [next, hcons, Nat.add_comm]

end StreamFifo

/-! ### `stream_fork` and `stream_join_dynamic` -/

/-- The state of the input side, and of each output side, of a fork. -/
inductive ForkState
  | ready
  | waiting
  deriving DecidableEq, Repr

/-- `stream_fork`: a stream to `n` streams. An output that has handshaken waits for the others. -/
structure StreamFork (n : ℕ) where
  /-- `inp_state_q`. -/
  inpState : ForkState
  /-- `oup_state_q` of each output. -/
  oupState : Fin n → ForkState

@[ext] theorem StreamFork.ext {n : ℕ} {f f' : StreamFork n} (hi : f.inpState = f'.inpState)
    (ho : ∀ i, f.oupState i = f'.oupState i) : f = f' := by
  obtain ⟨i, o⟩ := f
  obtain ⟨i', o'⟩ := f'
  obtain rfl : i = i' := hi
  obtain rfl : o = o' := funext ho
  rfl

instance {n : ℕ} : DecidableEq (StreamFork n) := fun f f' =>
  decidable_of_iff (f.inpState = f'.inpState ∧ ∀ i, f.oupState i = f'.oupState i)
    ⟨fun h => StreamFork.ext h.1 h.2, fun h => h ▸ ⟨rfl, fun _ => rfl⟩⟩

namespace StreamFork

variable {n : ℕ} (f : StreamFork n)

/-- The fork out of reset. -/
def init : StreamFork n := ⟨.ready, fun _ => .ready⟩

/-- `valid_o`. -/
def validO (validI : Bool) (i : Fin n) : Bool := validI && f.oupState i == .ready

/-- `oup_ready`: the output has handshaken or does so now. -/
def oupReady (validI : Bool) (readyI : Fin n → Bool) (i : Fin n) : Bool :=
  !(f.validO validI i && !readyI i)

/-- `ready_o`. -/
def readyO (validI : Bool) (readyI : Fin n → Bool) : Bool :=
  match f.inpState with
  | .ready => validI && decide (∀ i, f.validO validI i = true) && decide (∀ i, readyI i = true)
  | .waiting => validI && decide (∀ i, f.oupReady validI readyI i = true)

/-- One clock edge. -/
def next (validI : Bool) (readyI : Fin n → Bool) : StreamFork n where
  inpState :=
    match f.inpState with
    | .ready => if validI && !f.readyO validI readyI then .waiting else .ready
    | .waiting => if f.readyO validI readyI then .ready else .waiting
  oupState i :=
    match f.oupState i with
    | .ready => if validI && readyI i && !f.readyO validI readyI then .waiting else .ready
    | .waiting => if validI && f.readyO validI readyI then .ready else .waiting

/-- The fork of two outputs after output 1 has handshaken and output 0 has not. -/
def halfway : StreamFork 2 := ⟨.waiting, ![.ready, .waiting]⟩

@[simp] theorem validO_init (v : Bool) (i : Fin n) : init.validO v i = v := by
  simp [validO, init]

theorem readyO_init_of_not_valid (r : Fin n → Bool) : init.readyO false r = false := by
  simp [readyO, init]

theorem next_init_of_not_valid (r : Fin n → Bool) : init.next false r = init := by
  simp [next, init]

/-- While output 1 is always ready, the input handshakes exactly with output 0. -/
theorem readyO_init (g : Bool) : init.readyO true ![g, true] = g := by
  revert g
  decide

theorem next_init (g : Bool) : init.next true ![g, true] = if g then init else halfway := by
  revert g
  decide

theorem validO_halfway_zero : halfway.validO true 0 = true := by decide

theorem validO_halfway_one (v : Bool) : halfway.validO v 1 = false := by
  revert v
  decide

theorem readyO_halfway (g r : Bool) : halfway.readyO true ![g, r] = g := by
  revert g r
  decide

theorem next_halfway (g r : Bool) : halfway.next true ![g, r] = if g then init else halfway := by
  revert g r
  decide

end StreamFork

/-- `oup_valid_o` of `stream_join_dynamic`: every selected input is valid, and one is selected. -/
def streamJoinDynamic {n : ℕ} (inpValid sel : Fin n → Bool) : Bool :=
  decide (∀ i, (inpValid i || !sel i) = true) && decide (∃ i, sel i = true)

/-- `inp_ready_o` of `stream_join_dynamic`: the selected inputs leave with the output. -/
def streamJoinReady {n : ℕ} (inpValid sel : Fin n → Bool) (oupReady : Bool) (i : Fin n) : Bool :=
  streamJoinDynamic inpValid sel && oupReady && sel i

/-! ### `sync` -/

/-- The state of a `sync`: `reg_q`, with the newest sample in bit 0. -/
abbrev Sync (stages : ℕ) := BitVec stages

namespace Sync

variable {stages : ℕ}

/-- One clock edge: `{reg_q[STAGES-2:0], serial_i}`. -/
def next (reg : Sync stages) (serialI : Bool) : Sync stages := (reg.concat serialI).setWidth stages

/-- `serial_o`. -/
def serialO (reg : Sync stages) : Bool := reg.getLsbD (stages - 1)

/-- The synchroniser as a machine. -/
def machine : Machine (Sync stages) Bool := ⟨0, next⟩

/-- A signal as it was `d` cycles before cycle `t`, low before reset was left. -/
def delayed (pin : ℕ → Bool) (d t : ℕ) : Bool := if d ≤ t then pin (t - d) else false

theorem delayed_succ (pin : ℕ → Bool) (d t : ℕ) :
    delayed pin (d + 1) (t + 1) = delayed pin d t := by
  simp only [delayed, Nat.add_le_add_iff_right, Nat.add_sub_add_right]

/-- Bit `k` of the chain is the pin `k + 1` cycles ago. -/
theorem getLsbD_stateAt (pin : ℕ → Bool) (t : ℕ) {k : ℕ} (hk : k < stages) :
    (machine.stateAt pin t : Sync stages).getLsbD k = delayed pin (k + 1) t := by
  induction t generalizing k with
  | zero => exact BitVec.getLsbD_zero
  | succ t ih =>
    have hstep : (machine.stateAt pin (t + 1) : Sync stages) =
        next (machine.stateAt pin t) (pin t) := rfl
    rw [hstep, next, BitVec.getLsbD_setWidth, decide_eq_true hk, Bool.true_and, delayed_succ]
    cases k with
    | zero =>
      rw [BitVec.getLsbD_concat_zero]
      simp [delayed]
    | succ k =>
      rw [BitVec.getLsbD_concat_succ]
      exact ih (by omega)

/-- **The synchroniser** delays the pin by its number of stages. -/
theorem serialO_stateAt (pin : ℕ → Bool) (t : ℕ) (hpos : 0 < stages) :
    serialO (machine.stateAt pin t : Sync stages) = delayed pin stages t := by
  rw [serialO, getLsbD_stateAt pin t (by omega), Nat.sub_add_cancel hpos]

end Sync

end Croc
