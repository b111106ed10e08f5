import Croc.Clint.Time
import Croc.Ibex.Interrupts
import Croc.Lib.Interruptible

/-!
# Sleeping until the timer interrupt

`clint_sleep_ticks` sets the compare value of the CLINT, enables the timer interrupt, waits and
takes back what it has enabled. It enables `mie.MTIE` and `mstatus.MIE`, so the interrupt that ends
the wait is also taken: it goes through the wrapper of the boot ROM to `croc_interrupt_handler`,
which by default clears `mie.MTIE` because nothing else would turn the request off.

The routine only takes back an enable that it has set itself. If `mie.MTIE` was set on entry it
leaves the bit alone, and the bit stays cleared by the handler. `mstatus.MIE` is always as before.

## Main definitions

* `crocInterruptHandler`: the default handler.
* `serveTimer`: what a timer interrupt does to the registers of the core.
* `clintSleepTicks`: the routine, one step for each instruction.
* `atReturn`: the enables at the return if no more interrupts come.

## Main results

* `timerInterrupt_transparent`: an interrupt through the ROM and the handler does `serveTimer`, and
  the interrupted program goes on as before.
* `sleepTicks_restores_iff`: when the enables are restored.
-/

namespace Croc

namespace Sleep

open Bootrom Clock Ibex Interruptible

open Rv32 (Hart run sp loadWord Returns calleeSaved)

open Bits (Word)

/-! ### The default handler -/

/-- `ret`. -/
def ret (h : Hart) : Hart := Rv32.exec (.jalr 0 1 0) h

theorem ret_eq (h : Hart) : ret h = { h with pc := h.x 1 &&& ~~~1#32 } := by
  have hoff : h.get 1 + (0 : BitVec 12).signExtend 32 = h.x 1 := BitVec.add_zero _
  show { h with pc := (h.get 1 + _) &&& ~~~1#32 } = _
  rw [hoff]

/-- `croc_interrupt_handler`, called with the number of the interrupt in `a0`. Its own instructions
are followed without their addresses. -/
def crocInterruptHandler (h : Hart) (c : Csrs) : Option (Hart × Csrs) :=
  let h := h.set 5 7
  -- `bne a0, t0, 1f`
  if h.get 10 ≠ h.get 5 then some (ret h, c)
  else
    let h := h.set 5 (1#32 <<< 7)
    -- `csrc mie, t0`
    (c.access .clear .mie (h.get 5)).map fun p => (ret h, p.2)

/-- A timer interrupt: the trap, the default handler and `mret`. -/
def serveTimer (c : Csrs) : Csrs :=
  (c.saveCause.write (Csrs.wdataInt .clear (1#32 <<< 7) (c.saveCause.rdata .mie)) .mie).restoreMret

theorem irqTimer_serveTimer (c : Csrs) : (serveTimer c).mie.irqTimer = false :=
  Csrs.getLsbD_wdataInt (by decide) _ _ (by decide)

theorem mie_serveTimer (c : Csrs) : (serveTimer c).mstatus.mie = c.mstatus.mie := rfl

/-- The number of the interrupt that the wrapper passes on. -/
theorem timerIrq_number : timerIrq.mcause <<< 1 >>> 1 = (7 : Word) := by decide

/-- Called for the timer, the handler clears its enable and returns; it uses no register but
`t0`. -/
theorem crocInterruptHandler_timer {h : Hart} {c : Csrs} (ha0 : h.x 10 = 7) (hm : c.privLvl = .m) :
    crocInterruptHandler h c = some
      ({ h with pc := h.x 1 &&& ~~~1#32, x := Function.update h.x 5 (1#32 <<< 7) },
        c.write (Csrs.wdataInt .clear (1#32 <<< 7) (c.rdata .mie)) .mie) := by
  have hnum : ¬(h.set 5 7).get 10 ≠ (h.set 5 7).get 5 := by
    rw [not_not]
    exact ha0
  have hacc : c.access .clear .mie (1#32 <<< 7) =
      some (c.rdata .mie, c.write (Csrs.wdataInt .clear (1#32 <<< 7) (c.rdata .mie)) .mie) :=
        if_pos hm
  have hret : ret ((h.set 5 7).set 5 (1#32 <<< 7)) =
      { h with pc := h.x 1 &&& ~~~1#32, x := Function.update h.x 5 (1#32 <<< 7) } := by
    rw [ret_eq, Hart.set_of_ne _ (by decide), Hart.set_of_ne _ (by decide), Function.update_idem]
    rfl
  rw [crocInterruptHandler, if_neg hnum]
  show (c.access .clear .mie (1#32 <<< 7)).map
      (fun p => (ret ((h.set 5 7).set 5 (1#32 <<< 7)), p.2)) = _
  rw [hacc, hret]
  rfl

/-- **A timer interrupt is transparent and does `serveTimer`**: the wrapper reaches the handler, the
handler returns to the wrapper and the wrapper to the interrupted instruction, with the registers
and the stack of the program as they were. No interrupt is enabled on the way. -/
theorem timerInterrupt_transparent (s : Hart) (c : Csrs) (top : ℕ) (hs : ValidStack s top) :
    ∃ h r c' f, run fetch 19 (takeInterrupt s timerIrq) = some h ∧
      h.pc = loadWord s.mem handlerSlot &&& ~~~1#32 ∧
      crocInterruptHandler h c.saveCause = some (r, c') ∧ run fetch 13 r = some f ∧
      f.pc = s.pc ∧ (∀ k, k ≠ 0 → f.x k = s.x k) ∧
      (∀ a, s.x sp ≤ a → a.toNat < top → f.mem a = s.mem a) ∧
      c.saveCause.irqEnabled = false ∧ c'.irqEnabled = false ∧ c'.restoreMret = serveTimer c := by
  obtain ⟨h, hrun, hc, ha0⟩ := run_entry_number hs timerIrq (.inl rfl)
  have hhandler := crocInterruptHandler_timer (c := c.saveCause) (ha0.trans timerIrq_number) rfl
  have hreturns : Returns top h
      { h with pc := h.x 1 &&& ~~~1#32, x := Function.update h.x 5 (1#32 <<< 7) } := by
    refine ⟨?_, fun k hk => ?_, fun _ _ _ => rfl⟩
    · rw [hc.ra]
      rfl
    · have hne : ∀ k ∈ calleeSaved, k ≠ 5 := by decide
      exact Function.update_of_ne (hne k hk) _ _
  have hunsaved : ∀ k ∈ unsaved, Function.update h.x 5 (1#32 <<< 7) k = h.x k := by
    intro k hk
    have hne : ∀ k ∈ unsaved, k ≠ 5 := by decide
    exact Function.update_of_ne (hne k hk) _ _
  obtain ⟨f, hf, hpc, hregs, hmem⟩ := run_return_of_unsaved hs hc hreturns rfl hunsaved
  exact ⟨h, _, _, f, hrun, hc.pc, hhandler, hf, hpc, hregs, hmem, rfl, rfl, rfl⟩

/-! ### The routine -/

/-- `IRQ_TIMER`. -/
def irqTimer : ℤ := 7

/-- `get_mie`. -/
def getMie (c : Csrs) : Option (Word × Csrs) := c.access .read .mie 0

/-- `get_mstatus`. -/
def getMstatus (c : Csrs) : Option (Word × Csrs) := c.access .read .mstatus 0

/-- `set_interrupt_enable`. -/
def setInterruptEnable (enable irq : ℤ) (c : Csrs) : Option Csrs :=
  if irq ≤ 0 ∨ irq > 30 then some c
  else if enable ≠ 0 then (c.access .set .mie (1#32 <<< irq.toNat)).map Prod.snd
  else (c.access .clear .mie (1#32 <<< irq.toNat)).map Prod.snd

/-- `set_global_irq_enable`. -/
def setGlobalIrqEnable (enable : ℤ) (c : Csrs) : Option Csrs :=
  if enable ≠ 0 then (c.access .set .mstatus 8).map Prod.snd
  else (c.access .clear .mstatus 8).map Prod.snd

/-- `(w >> i) & 0x1`. -/
def flag (w : Word) (i : ℕ) : Word := w >>> i &&& 1

/-- Where `clint_sleep_ticks` stands: what comes next, with the variables that are still needed. -/
inductive SleepTicks
  | getMtime (ticks : Word) (p : GetMtime)
  | setMtimecmp (p : SetMtimecmp)
  | fence
  | getMie
  | getMstatus (mieBefore : Word)
  | enableTimer (timerIrqEnabled globalIrqEnabled : Word)
  | enableGlobal (timerIrqEnabled globalIrqEnabled : Word)
  | wfi (timerIrqEnabled globalIrqEnabled : Word)
  | restoreTimer (timerIrqEnabled globalIrqEnabled : Word)
  | restoreGlobal (globalIrqEnabled : Word)
  | done

/-- `clint_sleep_ticks`. -/
def clintSleepTicks : SleepTicks → Action SleepTicks Word Word Csrs Unit
  | .getMtime ticks p =>
    .ofRoutine (.getMtime ticks) (fun mtime => .setMtimecmp (.start (mtime + ticks.setWidth 64)))
      (clintGetMtime p)
  | .setMtimecmp p => .ofRoutine .setMtimecmp (fun _ => .fence) (clintSetMtimecmp p)
  | .fence => .instr fun c => some (.getMie, c)
  | .getMie => .instr fun c => (getMie c).map fun p => (.getMstatus p.1, p.2)
  | .getMstatus mieBefore => .instr fun c => (getMstatus c).map fun p =>
    (.enableTimer (flag mieBefore irqTimer.toNat) (flag p.1 3), p.2)
  | .enableTimer t g => .instr fun c => (setInterruptEnable 1 irqTimer c).map (.enableGlobal t g, ·)
  | .enableGlobal t g => .instr fun c => (setGlobalIrqEnable 1 c).map (.wfi t g, ·)
  | .wfi t g => .wait (.restoreTimer t g)
  | .restoreTimer t g => .instr fun c =>
    (if t = 0 then setInterruptEnable 0 irqTimer c else some c).map (.restoreGlobal g, ·)
  | .restoreGlobal g => .instr fun c =>
    (if g = 0 then setGlobalIrqEnable 0 c else some c).map (.done, ·)
  | .done => .ret ()

/-- The requests on the lines of the core in a cycle. That of the timer comes from the CLINT. -/
def mip (boot : Clint) (ins : ℕ → ClintIn) (lines : ℕ → Irqs) (t : ℕ) : Irqs :=
  { lines t with irqTimer := (stateAt boot ins t).timerIrq }

/-- The core. Any request that is enabled ends a wait. The interrupts that are taken are those of
the timer. -/
def core (boot : Clint) (ins : ℕ → ClintIn) (lines : ℕ → Irqs) : Core Csrs where
  wakes t c := ((mip boot ins lines t).and c.mie).pending = true
  takes t c := c.handleIrq (mip boot ins lines t) = true ∧
    ((mip boot ins lines t).and c.mie).excCause = timerIrq
  serve := serveTimer

/-! ### The enables at the return -/

/-- `mie.MTIE` and `mstatus.MIE` at the return if no more interrupts come. -/
def atReturn : SleepTicks → Csrs → Bool × Bool
  | .getMtime .., c | .setMtimecmp _, c | .fence, c | .getMie, c => (c.mie.irqTimer, c.mstatus.mie)
  | .getMstatus mieBefore, c => (mieBefore.getLsbD 7, c.mstatus.mie)
  -- the bits will be set, and cleared again if the flag is zero
  | .enableTimer t g, _ => (decide (t ≠ 0), decide (g ≠ 0))
  | .enableGlobal t g, c => (decide (t ≠ 0) && c.mie.irqTimer, decide (g ≠ 0))
  | .wfi t g, c | .restoreTimer t g, c =>
    (decide (t ≠ 0) && c.mie.irqTimer, decide (g ≠ 0) && c.mstatus.mie)
  | .restoreGlobal g, c => (c.mie.irqTimer, decide (g ≠ 0) && c.mstatus.mie)
  | .done, c => (c.mie.irqTimer, c.mstatus.mie)

/-- The places between the read of `mie` and the enabling of the timer interrupt. What the handler
does here is undone, because the bit is set again. -/
def SleepTicks.rearms : SleepTicks → Bool
  | .getMstatus _ | .enableTimer .. => true
  | _ => false

section

variable {boot : Clint} {ins : ℕ → ClintIn} {lines : ℕ → Irqs} {c c' : Csrs} {t u v : ℕ}

theorem decide_flag_ne_zero (w : Word) (i : ℕ) : decide (flag w i ≠ 0) = w.getLsbD i := by
  have hbit : w >>> i &&& 1#32 = BitVec.setWidth 32 (BitVec.ofBool (w.getLsbD i)) := by
    rw [BitVec.and_one_eq_setWidth_ofBool_getLsbD, BitVec.getLsbD_ushiftRight, Nat.add_zero]
  show decide (w >>> i &&& 1#32 ≠ 0) = _
  rw [hbit]
  cases w.getLsbD i <;> rfl

theorem setInterruptEnable_timer {e : ℤ} (h : setInterruptEnable e irqTimer c = some c') :
    c'.mstatus = c.mstatus ∧ c'.mie.irqTimer = decide (e ≠ 0) := by
  rw [setInterruptEnable, if_neg (by decide)] at h
  split at h
  case isTrue he =>
    obtain ⟨⟨r, d⟩, hacc, rfl⟩ := Option.map_eq_some_iff.mp h
    obtain ⟨-, hst, hbit⟩ := Csrs.access_mie hacc
    exact ⟨hst, hbit.trans (decide_eq_true he).symm⟩
  case isFalse he =>
    obtain ⟨⟨r, d⟩, hacc, rfl⟩ := Option.map_eq_some_iff.mp h
    obtain ⟨-, hst, hbit⟩ := Csrs.access_mie hacc
    exact ⟨hst, hbit.trans (decide_eq_false he).symm⟩

theorem setGlobalIrqEnable_mie {e : ℤ} (h : setGlobalIrqEnable e c = some c') :
    c'.mie = c.mie ∧ c'.mstatus.mie = decide (e ≠ 0) := by
  rw [setGlobalIrqEnable] at h
  split at h
  case isTrue he =>
    obtain ⟨⟨r, d⟩, hacc, rfl⟩ := Option.map_eq_some_iff.mp h
    obtain ⟨-, hmie, hbit⟩ := Csrs.access_mstatus hacc
    exact ⟨hmie, hbit.trans (decide_eq_true he).symm⟩
  case isFalse he =>
    obtain ⟨⟨r, d⟩, hacc, rfl⟩ := Option.map_eq_some_iff.mp h
    obtain ⟨-, hmie, hbit⟩ := Csrs.access_mstatus hacc
    exact ⟨hmie, hbit.trans (decide_eq_false he).symm⟩

/-- **An instruction of the routine** does not change what will be there at the return. -/
theorem atReturn_step {s s' : SleepTicks}
    (h : Step clintSleepTicks (port boot ins) (core boot ins lines) v s c s' c') :
    atReturn s' c' = atReturn s c := by
  cases s with
  | getMtime ticks p =>
    cases p with
    | start | gotHigh mtime =>
      obtain ⟨a, -, rfl, rfl⟩ := h.of_load rfl
      rfl
    | gotLow mtime =>
      cases h.of_instr rfl
      rfl
  | setMtimecmp p =>
    cases p with
    | start value | wroteHigh valueLow =>
      obtain ⟨-, rfl, rfl⟩ := h.of_store rfl
      rfl
    | wroteLow =>
      cases h.of_instr rfl
      rfl
  | fence =>
    cases h.of_instr rfl
    rfl
  | getMie =>
    obtain ⟨⟨w, d⟩, hget, heq⟩ := h.of_instr_map rfl
    cases heq
    obtain ⟨rfl, rfl⟩ := Csrs.access_eq hget
    exact Prod.ext (Irqs.getLsbD_rdata _) rfl
  | getMstatus mieBefore =>
    obtain ⟨⟨w, d⟩, hget, heq⟩ := h.of_instr_map rfl
    cases heq
    obtain ⟨rfl, rfl⟩ := Csrs.access_eq hget
    exact Prod.ext (decide_flag_ne_zero _ _)
      ((decide_flag_ne_zero _ _).trans (Status.getLsbD_rdata _))
  | enableTimer t g =>
    obtain ⟨d, hset, heq⟩ := h.of_instr_map rfl
    cases heq
    obtain ⟨-, hbit⟩ := setInterruptEnable_timer hset
    simp only [atReturn, hbit]
    exact Prod.ext (Bool.and_true _) rfl
  | enableGlobal t g =>
    obtain ⟨d, hset, heq⟩ := h.of_instr_map rfl
    cases heq
    obtain ⟨hmie, hbit⟩ := setGlobalIrqEnable_mie hset
    simp only [atReturn, hbit, hmie]
    exact Prod.ext rfl (Bool.and_true _)
  | wfi t g =>
    obtain ⟨-, rfl, rfl⟩ := h.of_wait rfl
    rfl
  | restoreTimer t g =>
    obtain ⟨d, hset, heq⟩ := h.of_instr_map rfl
    cases heq
    split at hset
    case isTrue ht =>
      obtain ⟨hst, hbit⟩ := setInterruptEnable_timer hset
      simp only [atReturn, hbit, hst, ht]
      rfl
    case isFalse ht =>
      cases hset
      simp only [atReturn, decide_eq_true ht, Bool.true_and, ne_eq]
  | restoreGlobal g =>
    obtain ⟨d, hset, heq⟩ := h.of_instr_map rfl
    cases heq
    split at hset
    case isTrue hg =>
      obtain ⟨hmie, hbit⟩ := setGlobalIrqEnable_mie hset
      simp only [atReturn, hbit, hmie, hg]
      rfl
    case isFalse hg =>
      cases hset
      simp only [atReturn, decide_eq_true hg, Bool.true_and, ne_eq]
  | done => exact absurd h (Step.not_of_ret rfl)

/-- **A timer interrupt** clears the first of them, if it is not rearmed. -/
theorem atReturn_serveTimer (s : SleepTicks) (c : Csrs) :
    atReturn s (serveTimer c) = ((atReturn s c).1 && s.rearms, (atReturn s c).2) := by
  cases s <;> simp [atReturn, SleepTicks.rearms, irqTimer_serveTimer, mie_serveTimer]

theorem foldl_rearms (l : List SleepTicks) (x : Bool × Bool) :
    l.foldl (fun (x : Bool × Bool) s => (x.1 && s.rearms, x.2)) x =
      (x.1 && l.all SleepTicks.rearms, x.2) := by
  induction l generalizing x with
  | nil => simp
  | cons s l ih => rw [List.foldl_cons, ih, List.all_cons, Bool.and_assoc]

theorem eq_done_of_ret {s : SleepTicks} (h : clintSleepTicks s = .ret ()) : s = .done := by
  cases s with
  | done => rfl
  | getMtime ticks p => cases p <;> cases h
  | setMtimecmp p => cases p <;> cases h
  | _ => cases h

/-- The enables at the return of a call. -/
theorem enables_at_return {ticks : Word} {l : List SleepTicks}
    (h : Run clintSleepTicks (port boot ins) (core boot ins lines) (.getMtime ticks .start) c t l ()
      c' u) :
    c'.mie.irqTimer = (c.mie.irqTimer && l.all SleepTicks.rearms) ∧
      c'.mstatus.mie = c.mstatus.mie := by
  obtain ⟨s', hret, hvalue⟩ := h.value (K := atReturn) (d := fun s x => (x.1 && s.rearms, x.2))
    atReturn_step atReturn_serveTimer
  rw [eq_done_of_ret hret, foldl_rearms] at hvalue
  exact Prod.ext_iff.mp hvalue

/-- **The enables after `clint_sleep_ticks`.** Whatever `mie` and `mstatus` are on entry, and for
every tick count: in a call during which only timer interrupts are taken, with the default handler,
`mie.MTIE` and `mstatus.MIE` are at the return what they were on entry if and only if `mie.MTIE` was
clear, or no interrupt has been taken but between the read of `mie` and the enabling. -/
theorem sleepTicks_restores_iff (boot : Clint) (ins : ℕ → ClintIn) (lines : ℕ → Irqs) (ticks : Word)
    (c c' : Csrs) (t u : ℕ) (l : List SleepTicks)
    (h : Run clintSleepTicks (port boot ins) (core boot ins lines) (.getMtime ticks .start) c t l ()
      c' u) :
    (c'.mie.irqTimer = c.mie.irqTimer ∧ c'.mstatus.mie = c.mstatus.mie) ↔
      c.mie.irqTimer = false ∨ ∀ s ∈ l, s.rearms = true := by
  obtain ⟨hmtie, hmie⟩ := enables_at_return h
  rw [hmtie, hmie, ← List.all_eq_true]
  cases c.mie.irqTimer <;> simp

end

/-! ### A nap -/

/-- Out of reset the core sleeps for one tick: two loads, two stores, and an edge of the reference
clock in cycle 5. -/
def nap : ℕ → ClintIn
  | 0 => ⟨false, ⟨true, mtimeHighReg, false, 0xf, 0, 0⟩⟩
  | 1 => ⟨false, ⟨true, mtimeLowReg, false, 0xf, 0, 0⟩⟩
  | 3 => ⟨false, ⟨true, mtimecmpHighReg, true, 0xf, 0, 0⟩⟩
  | 4 => ⟨false, ⟨true, mtimecmpLowReg, true, 0xf, 1, 0⟩⟩
  | n => ⟨decide (5 ≤ n), ⟨false, 0, false, 0, 0, 0⟩⟩

/-- No other request comes. -/
def noLines : ℕ → Irqs := fun _ => ⟨false, false, false, 0⟩

/-- The core in M-mode with interrupts globally disabled, and the timer interrupt enabled or not. -/
def awake (mtie : Bool) : Csrs := ⟨.m, ⟨false, true, .u, false, false⟩, ⟨false, mtie, false, 0⟩⟩

/-- The core in its sleep. -/
def asleep : Csrs := ⟨.m, ⟨true, true, .u, false, false⟩, ⟨false, true, false, 0⟩⟩

theorem nap_mip {t : ℕ} (ht : t = 11 ∨ t = 12) :
    mip .init nap noLines t = ⟨false, true, false, 0⟩ := by
  have hirq : (stateAt .init nap t).timerIrq = true := by
    rcases ht with rfl | rfl <;> decide
  rw [mip, hirq]
  rfl

/-- The interrupt ends the wait and is taken before the next instruction. Afterwards the timer
interrupt is disabled. -/
theorem nap_run (mtie : Bool) :
    Run clintSleepTicks (port .init nap) (core .init nap noLines) (.getMtime 1 .start)
      (awake mtie) 0
      [.restoreTimer ((BitVec.ofBool mtie).setWidth 32) 0] () (awake false) 15 := by
  have hwakes : (core .init nap noLines).wakes 11 asleep := by
    show ((mip .init nap noLines 11).and asleep.mie).pending = true
    rw [nap_mip (.inl rfl)]
    rfl
  have htakes : (core .init nap noLines).takes 12 asleep := by
    show asleep.handleIrq (mip .init nap noLines 12) = true ∧
      ((mip .init nap noLines 12).and asleep.mie).excCause = timerIrq
    rw [nap_mip (.inr rfl)]
    exact ⟨rfl, rfl⟩
  refine .step le_rfl (.load rfl (load_mtimeHigh.mpr ⟨rfl, rfl, rfl, rfl⟩)) ?_
  refine .step le_rfl (.load rfl (load_mtimeLow.mpr ⟨rfl, rfl, rfl, rfl⟩)) ?_
  refine .step le_rfl (.instr rfl rfl) ?_
  refine .step le_rfl (.store rfl ⟨rfl, rfl, rfl, rfl, by decide⟩) ?_
  refine .step le_rfl (.store rfl ⟨rfl, rfl, rfl, rfl, by decide⟩) ?_
  refine .step le_rfl (.instr rfl rfl) ?_
  refine .step le_rfl (.instr rfl rfl) ?_
  -- from here on the registers are read, and both values of the enable lead into the same sleep
  cases mtie
  all_goals
    refine .step le_rfl (.instr rfl rfl) ?_
    refine .step le_rfl (.instr rfl rfl) ?_
    refine .step le_rfl (.instr rfl rfl) ?_
    refine .step le_rfl (.instr rfl (show _ = some (_, asleep) from rfl)) ?_
    refine .step le_rfl (.wait rfl hwakes) ?_
    refine .interrupt le_rfl htakes ?_
    refine .step le_rfl (.instr rfl rfl) ?_
    refine .step le_rfl (.instr rfl rfl) ?_
    exact .ret rfl le_rfl

theorem sleepTicks_restores_nap :
    Run clintSleepTicks (port .init nap) (core .init nap noLines) (.getMtime 1 .start)
      (awake false) 0
        [.restoreTimer 0 0] () (awake false) 15 ∧
      ((awake false).mie.irqTimer = (awake false).mie.irqTimer ∧
        (awake false).mstatus.mie = (awake false).mstatus.mie) :=
  ⟨nap_run false, (sleepTicks_restores_iff _ _ _ _ _ _ _ _ _ (nap_run false)).mpr (.inl rfl)⟩

/-- **The enable is lost**: it was set on entry, one interrupt is taken between the wait and the
first restoring statement, and it is clear at the return. -/
theorem sleepTicks_loses_mtie :
    Run clintSleepTicks (port .init nap) (core .init nap noLines) (.getMtime 1 .start)
      (awake true) 0
        [.restoreTimer 1 0] () (awake false) 15 ∧
      (awake true).mie.irqTimer = true ∧ (awake false).mie.irqTimer = false :=
  ⟨nap_run true, rfl, rfl⟩

end Sleep

end Croc
