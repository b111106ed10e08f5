import Croc.Lib.WordOps
import Mathlib.Algebra.Order.Floor.Semifield
import Mathlib.Data.Rat.Floor

/-!
# Ticks and timer cycles

The scheduler counts ticks, the timer counts cycles, and the two rates need not divide each other.
`timer_cycles_for_ticks` rounds a timeout up to whole cycles, so that it does not expire early.
`timer_ticks_for_cycles` counts the ticks that have passed; it splits the time stamp into seconds
and a rest, because the product of a time stamp with the tick rate need not fit in 64 bits.

Both are written over `WordOps`, so that one proof gives the result of the machine and the absence
of overflow in every intermediate value. The divisions go through a precomputed divider, whose law
is exact division.

## Main definitions

* `Rates`: the two rates, as the build checks them.
* `Divider`: the division of 64-bit words.
* `timerCyclesForTicks`, `timerTicksForCycles`: the conversions.

## Main results

* `timerCyclesForTicks_eq`, `timerTicksForCycles_eq`: what they compute, in any reading.
* `tickConversion_exact`: nothing overflows, both roundings are exact, and a timeout of `t` ticks is
  the least number of cycles that makes `t` ticks.
-/

namespace Croc

namespace Rtos

open WordOps (toNat_ofNat_of_lt wrapping checked)

/-- The rates, with what the preprocessor and the assertion of the header check. -/
structure Rates where
  /-- `PLATFORM_TIMER_HZ`. -/
  timerHz : ℕ
  /-- `TICK_RATE_HZ`. -/
  tickRateHz : ℕ
  /-- The tick rate is positive. -/
  tickRate_pos : 0 < tickRateHz
  /-- The timer is at least as fast. -/
  tickRate_le : tickRateHz ≤ timerHz
  /-- The timer frequency fits in 32 bits. -/
  timer_lt : timerHz < 2 ^ 32

/-- `TIMERCYCLES_PER_TICK`. -/
def Rates.timercyclesPerTick (c : Rates) : ℕ :=
  c.timerHz / c.tickRateHz + if c.timerHz % c.tickRateHz ≠ 0 then 1 else 0

/-- `libdivide::divider<uint64_t>`: the quotient by a divisor that is fixed beforehand. -/
structure Divider where
  /-- The quotient. -/
  div : BitVec 64 → BitVec 64 → BitVec 64
  /-- It is that of unsigned division. -/
  exact : ∀ x d, d ≠ 0 → div x d = x / d

section Code

variable {m : Type → Type} [Monad m] (ops : WordOps m 64) (divider : Divider) (c : Rates)

/-- `timer_cycles_for_ticks`. -/
def timerCyclesForTicks (ticks : BitVec 32) : m (BitVec 64) :=
  if c.timerHz % c.tickRateHz = 0 then
    ops.mul (ticks.setWidth 64) (BitVec.ofNat 64 c.timercyclesPerTick)
  else do
    let cycles ← ops.mul (ticks.setWidth 64) (BitVec.ofNat 64 c.timerHz)
    let sum ← ops.add cycles (BitVec.ofNat 64 c.tickRateHz)
    let dividend ← ops.sub sum (BitVec.ofNat 64 1)
    pure (divider.div dividend (BitVec.ofNat 64 c.tickRateHz))

/-- `timer_ticks_for_cycles`. -/
def timerTicksForCycles (cycles : BitVec 64) : m (BitVec 64) :=
  if c.timerHz % c.tickRateHz = 0 then
    pure (divider.div cycles (BitVec.ofNat 64 c.timercyclesPerTick))
  else do
    let seconds := divider.div cycles (BitVec.ofNat 64 c.timerHz)
    let whole ← ops.mul seconds (BitVec.ofNat 64 c.timerHz)
    let remainder ← ops.sub cycles whole
    let wholeTicks ← ops.mul seconds (BitVec.ofNat 64 c.tickRateHz)
    let part ← ops.mul remainder (BitVec.ofNat 64 c.tickRateHz)
    ops.add wholeTicks (divider.div part (BitVec.ofNat 64 c.timerHz))

end Code

/-! ### The numbers behind the words -/

theorem Divider.div_ofNat (divider : Divider) {a b : ℕ} (ha : a < 2 ^ 64) (hb : b < 2 ^ 64)
    (hpos : 0 < b) :
    divider.div (BitVec.ofNat 64 a) (BitVec.ofNat 64 b) = BitVec.ofNat 64 (a / b) := by
  have hne : BitVec.ofNat 64 b ≠ 0 := by
    intro h
    have hzero := congrArg BitVec.toNat h
    rw [toNat_ofNat_of_lt hb] at hzero
    exact hpos.ne' hzero
  apply BitVec.eq_of_toNat_eq
  rw [divider.exact _ _ hne, BitVec.toNat_udiv, toNat_ofNat_of_lt ha,
    toNat_ofNat_of_lt hb, toNat_ofNat_of_lt ((Nat.div_le_self a b).trans_lt ha)]

namespace Rates

variable (c : Rates) {t n : ℕ}

/-- The cycles of `t` ticks, rounded up. -/
def cyclesFor (t : ℕ) : ℕ := (t * c.timerHz + c.tickRateHz - 1) / c.tickRateHz

/-- The ticks in `n` cycles, rounded down. -/
def ticksIn (n : ℕ) : ℕ := n * c.tickRateHz / c.timerHz

theorem timer_pos : 0 < c.timerHz := c.tickRate_pos.trans_le c.tickRate_le

/-- The whole seconds and the rest are converted apart. -/
theorem ticksIn_eq (n : ℕ) : c.ticksIn n =
    n / c.timerHz * c.tickRateHz + (n - n / c.timerHz * c.timerHz) * c.tickRateHz / c.timerHz := by
  have hsplit : n * c.tickRateHz =
      c.timerHz * (n / c.timerHz * c.tickRateHz) +
        (n - n / c.timerHz * c.timerHz) * c.tickRateHz := by
    have hle : n / c.timerHz * c.timerHz ≤ n := Nat.div_mul_le_self n c.timerHz
    calc n * c.tickRateHz
        = (n / c.timerHz * c.timerHz + (n - n / c.timerHz * c.timerHz)) * c.tickRateHz := by
          rw [Nat.add_sub_cancel' hle]
      _ = _ := by ring
  rw [ticksIn, hsplit, Nat.mul_add_div c.timer_pos]

theorem ticksIn_le (n : ℕ) : c.ticksIn n ≤ n :=
  Nat.div_le_of_le_mul (by
    rw [Nat.mul_comm c.timerHz]
    exact Nat.mul_le_mul_left n c.tickRate_le)

/-- The least number of cycles that is not less than `t` ticks. -/
theorem cyclesFor_le_iff : c.cyclesFor t ≤ n ↔ t * c.timerHz ≤ n * c.tickRateHz := by
  have hpos := c.tickRate_pos
  rw [cyclesFor, ← Nat.lt_succ_iff, Nat.div_lt_iff_lt_mul hpos, Nat.succ_mul]
  omega

/-- **The conversions are adjoint**: `n` cycles make `t` ticks exactly if they are enough for `t`
ticks. -/
theorem le_ticksIn_iff : t ≤ c.ticksIn n ↔ c.cyclesFor t ≤ n := by
  rw [ticksIn, Nat.le_div_iff_mul_le c.timer_pos, cyclesFor_le_iff]

/-- There are at least as many cycles as ticks, so no tick is lost in the rounding. -/
theorem ticksIn_cyclesFor (t : ℕ) : c.ticksIn (c.cyclesFor t) = t := by
  apply le_antisymm
  · by_contra h
    have hmore : c.cyclesFor (t + 1) ≤ c.cyclesFor t := c.le_ticksIn_iff.mp (not_le.mp h)
    have hdiv : c.cyclesFor t * c.tickRateHz ≤ t * c.timerHz + c.tickRateHz - 1 :=
      Nat.div_mul_le_self _ _
    have hle := c.tickRate_le
    have hpos := c.tickRate_pos
    rw [cyclesFor_le_iff, Nat.succ_mul] at hmore
    omega
  · exact c.le_ticksIn_iff.mpr le_rfl

/-- As a rounding of rationals. -/
theorem cyclesFor_eq_ceil (t : ℕ) : c.cyclesFor t = ⌈(t * c.timerHz : ℚ) / c.tickRateHz⌉₊ := by
  have hpos : (0 : ℚ) < c.tickRateHz := by exact_mod_cast c.tickRate_pos
  apply eq_of_forall_ge_iff
  intro n
  rw [cyclesFor_le_iff, Nat.ceil_le, div_le_iff₀ hpos]
  exact_mod_cast Iff.rfl

theorem ticksIn_eq_floor (n : ℕ) : c.ticksIn n = ⌊(n * c.tickRateHz : ℚ) / c.timerHz⌋₊ := by
  rw [ticksIn, ← Nat.cast_mul, Nat.floor_div_eq_div]

/-- If the rates divide, a tick has a fixed number of cycles. -/
theorem mul_timercyclesPerTick (h : c.timerHz % c.tickRateHz = 0) :
    c.tickRateHz * c.timercyclesPerTick = c.timerHz := by
  rw [timercyclesPerTick, if_neg (not_not_intro h), Nat.add_zero,
    Nat.mul_div_cancel' (Nat.dvd_of_mod_eq_zero h)]

theorem cyclesFor_of_dvd (h : c.timerHz % c.tickRateHz = 0) (t : ℕ) :
    c.cyclesFor t = t * c.timercyclesPerTick := by
  have hpos := c.tickRate_pos
  have hmul : t * c.timerHz = t * c.timercyclesPerTick * c.tickRateHz := by
    rw [← c.mul_timercyclesPerTick h]
    ring
  apply le_antisymm
  · rw [cyclesFor_le_iff, hmul]
  · exact Nat.le_of_mul_le_mul_right (hmul ▸ c.cyclesFor_le_iff.mp le_rfl) hpos

theorem ticksIn_of_dvd (h : c.timerHz % c.tickRateHz = 0) (n : ℕ) :
    c.ticksIn n = n / c.timercyclesPerTick := by
  rw [ticksIn, Nat.mul_comm n, ← Nat.mul_div_mul_left n c.timercyclesPerTick c.tickRate_pos,
    c.mul_timercyclesPerTick h]

end Rates

/-! ### What the conversions compute -/

section Spec

variable {m : Type → Type} [Monad m] [LawfulMonad m] (ops : WordOps m 64) (divider : Divider)
    (c : Rates)

theorem setWidth_eq_ofNat (ticks : BitVec 32) :
    ticks.setWidth 64 = BitVec.ofNat 64 ticks.toNat := by
  apply BitVec.eq_of_toNat_eq
  rw [BitVec.toNat_setWidth, BitVec.toNat_ofNat]

/-- The product that is divided fits with room for the rounding. -/
theorem mul_timerHz_add_lt (ticks : BitVec 32) :
    ticks.toNat * c.timerHz + c.tickRateHz < 2 ^ 64 := by
  have hticks := ticks.isLt
  have hH := c.timer_lt
  have hT := c.tickRate_le
  have hmul : ticks.toNat * c.timerHz ≤ (2 ^ 32 - 1) * (2 ^ 32 - 1) :=
    Nat.mul_le_mul (by omega) (by omega)
  omega

theorem cyclesFor_lt (ticks : BitVec 32) : c.cyclesFor ticks.toNat < 2 ^ 64 := by
  have hlt := mul_timerHz_add_lt c ticks
  rw [Rates.cyclesFor]
  exact (Nat.div_le_self _ _).trans_lt (by omega)

/-- **Ticks to cycles**, in any reading of the operations. -/
theorem timerCyclesForTicks_eq (ticks : BitVec 32) :
    timerCyclesForTicks ops divider c ticks = pure (BitVec.ofNat 64 (c.cyclesFor ticks.toNat)) := by
  have hpos := c.tickRate_pos
  have hlt := mul_timerHz_add_lt c ticks
  have hticks : ticks.toNat < 2 ^ 64 := ticks.isLt.trans (by norm_num)
  have hH : c.timerHz < 2 ^ 64 := c.timer_lt.trans (by norm_num)
  have hT : c.tickRateHz < 2 ^ 64 := c.tickRate_le.trans_lt hH
  rw [timerCyclesForTicks, setWidth_eq_ofNat]
  split_ifs with hdvd
  · have hfit := cyclesFor_lt c ticks
    have hper : c.timercyclesPerTick ≤ c.timerHz := by
      rw [← c.mul_timercyclesPerTick hdvd]
      exact Nat.le_mul_of_pos_left _ hpos
    rw [c.cyclesFor_of_dvd hdvd] at hfit ⊢
    exact ops.mul_ofNat hticks (hper.trans_lt hH) hfit
  · rw [ops.mul_ofNat hticks hH (by omega), pure_bind, ops.add_ofNat hlt, pure_bind,
      ops.sub_ofNat hlt (by omega), pure_bind, divider.div_ofNat (by omega) hT hpos]
    rfl

/-- **Cycles to ticks**, in any reading of the operations. -/
theorem timerTicksForCycles_eq (cycles : BitVec 64) :
    timerTicksForCycles ops divider c cycles = pure (BitVec.ofNat 64 (c.ticksIn cycles.toNat)) := by
  have hpos := c.timer_pos
  have hH : c.timerHz < 2 ^ 64 := c.timer_lt.trans (by norm_num)
  have hT : c.tickRateHz < 2 ^ 64 := c.tickRate_le.trans_lt hH
  obtain ⟨n, hn, rfl⟩ : ∃ n, n < 2 ^ 64 ∧ cycles = BitVec.ofNat 64 n :=
    ⟨cycles.toNat, cycles.isLt, (BitVec.ofNat_toNat 64 cycles).symm⟩
  rw [timerTicksForCycles, toNat_ofNat_of_lt hn]
  split_ifs with hdvd
  · have hmul := c.mul_timercyclesPerTick hdvd
    have hper : 0 < c.timercyclesPerTick := Nat.pos_of_mul_pos_left (hmul ▸ hpos)
    have hle : c.timercyclesPerTick ≤ c.timerHz := by
      rw [← hmul]
      exact Nat.le_mul_of_pos_left _ c.tickRate_pos
    rw [divider.div_ofNat hn (hle.trans_lt hH) hper, c.ticksIn_of_dvd hdvd]
  · -- the seconds, and the cycles of the last, incomplete one
    have hsec : n / c.timerHz < 2 ^ 64 := (Nat.div_le_self _ _).trans_lt hn
    have hwhole : n / c.timerHz * c.timerHz ≤ n := Nat.div_mul_le_self n c.timerHz
    have hrest : n - n / c.timerHz * c.timerHz < c.timerHz := by
      have := Nat.div_add_mod' n c.timerHz
      have := Nat.mod_lt n hpos
      omega
    have hticks : n / c.timerHz * c.tickRateHz ≤ n :=
      (Nat.mul_le_mul_left _ c.tickRate_le).trans hwhole
    have hpart : (n - n / c.timerHz * c.timerHz) * c.tickRateHz < 2 ^ 64 := by
      have hmul : (n - n / c.timerHz * c.timerHz) * c.tickRateHz ≤ (2 ^ 32 - 1) * (2 ^ 32 - 1) :=
        Nat.mul_le_mul (by have := c.timer_lt; omega)
          (by have := c.timer_lt; have := c.tickRate_le; omega)
      omega
    have hsum := c.ticksIn_le n
    rw [c.ticksIn_eq] at hsum
    simp only [divider.div_ofNat hn hH hpos]
    rw [ops.mul_ofNat hsec hH (hwhole.trans_lt hn), pure_bind,
      ops.sub_ofNat hn hwhole, pure_bind, ops.mul_ofNat hsec hT (hticks.trans_lt hn), pure_bind,
      ops.mul_ofNat (by omega) hT hpart, pure_bind, divider.div_ofNat hpart hH hpos,
      ops.add_ofNat (hsum.trans_lt hn), ← c.ticksIn_eq]

end Spec

/-- **Tick conversion is exact.** For every pair of rates and every argument, no intermediate value
of a conversion overflows and the results are the rounded quotients; the two conversions are inverse
on ticks, and no smaller number of cycles makes as many ticks. -/
theorem tickConversion_exact (divider : Divider) (c : Rates) :
    (∀ ticks, ∃ x, timerCyclesForTicks checked divider c ticks = some x ∧
      (timerCyclesForTicks wrapping divider c ticks).run = x ∧
      x.toNat = ⌈(ticks.toNat * c.timerHz : ℚ) / c.tickRateHz⌉₊) ∧
    (∀ cycles, ∃ x, timerTicksForCycles checked divider c cycles = some x ∧
      (timerTicksForCycles wrapping divider c cycles).run = x ∧
      x.toNat = ⌊(cycles.toNat * c.tickRateHz : ℚ) / c.timerHz⌋₊) ∧
    (∀ ticks : BitVec 32,
      (timerTicksForCycles wrapping divider c
        (timerCyclesForTicks wrapping divider c ticks).run).run =
        ticks.setWidth 64) ∧
    ∀ (ticks : BitVec 32) (cycles : BitVec 64),
      cycles < (timerCyclesForTicks wrapping divider c ticks).run →
      (timerTicksForCycles wrapping divider c cycles).run < ticks.setWidth 64 := by
  have hcycles : ∀ ticks : BitVec 32, (timerCyclesForTicks wrapping divider c ticks).run.toNat =
      c.cyclesFor ticks.toNat := by
    intro ticks
    rw [timerCyclesForTicks_eq]
    exact toNat_ofNat_of_lt (cyclesFor_lt c ticks)
  have hticks : ∀ cycles, (timerTicksForCycles wrapping divider c cycles).run.toNat =
      c.ticksIn cycles.toNat := by
    intro cycles
    rw [timerTicksForCycles_eq]
    exact toNat_ofNat_of_lt ((c.ticksIn_le _).trans_lt cycles.isLt)
  have hwidth : ∀ ticks : BitVec 32, (ticks.setWidth 64).toNat = ticks.toNat := by
    intro ticks
    rw [setWidth_eq_ofNat]
    exact toNat_ofNat_of_lt (ticks.isLt.trans (by norm_num))
  refine ⟨fun ticks => ?_, fun cycles => ?_, fun ticks => ?_, fun ticks cycles hlt => ?_⟩
  · refine ⟨_, timerCyclesForTicks_eq checked divider c ticks, ?_, ?_⟩
    · rw [timerCyclesForTicks_eq]
      rfl
    · rw [toNat_ofNat_of_lt (cyclesFor_lt c ticks), c.cyclesFor_eq_ceil]
  · refine ⟨_, timerTicksForCycles_eq checked divider c cycles, ?_, ?_⟩
    · rw [timerTicksForCycles_eq]
      rfl
    · rw [toNat_ofNat_of_lt ((c.ticksIn_le _).trans_lt cycles.isLt), c.ticksIn_eq_floor]
  · apply BitVec.eq_of_toNat_eq
    rw [hticks, hcycles, c.ticksIn_cyclesFor, hwidth]
  · rw [BitVec.lt_def, hcycles] at hlt
    rw [BitVec.lt_def, hticks, hwidth, ← not_le, c.le_ticksIn_iff, not_le]
    exact hlt

/-- Unsigned division. -/
def unsignedDivision : Divider := ⟨fun x d => x / d, fun _ _ _ => rfl⟩

/-- A clock of 32768 Hz and a hundred ticks a second, which do not divide. -/
def rtcRates : Rates := ⟨32768, 100, by decide, by decide, by decide⟩

/-- A tick takes 328 cycles, and 327 make none; the largest number of ticks comes back. -/
theorem tickConversion_exact_rtcRates :
    rtcRates.timerHz % rtcRates.tickRateHz ≠ 0 ∧
      timerCyclesForTicks checked unsignedDivision rtcRates 1 = some 328 ∧
      timerTicksForCycles checked unsignedDivision rtcRates 328 = some 1 ∧
      (timerTicksForCycles wrapping unsignedDivision rtcRates 327).run < 1 ∧
      (timerTicksForCycles wrapping unsignedDivision rtcRates
        (timerCyclesForTicks wrapping unsignedDivision rtcRates 0xffffffff).run).run =
        0xffffffff := by
  obtain ⟨-, -, hround, hleast⟩ := tickConversion_exact unsignedDivision rtcRates
  refine ⟨by decide, by decide +kernel, by decide +kernel, ?_, hround 0xffffffff⟩
  exact hleast 1 327 (by decide +kernel)

end Rtos

end Croc
