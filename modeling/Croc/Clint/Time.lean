import Croc.Clint.Registers
import Croc.Lib.SplitCounter

/-!
# Telling the time

Three routines access the registers of 64 bits in halves while the count goes on: `clint_get_mtime`
and `clint_set_mtimecmp` of the bare-metal library, and `platform_monotonic_time_read` of the RTOS.
They run against the block with the cycles of their accesses chosen by the environment.

The RTOS reads the upper half again and starts over if it has moved, and returns a value that the
count had. The library does not: a roll-over of the lower half between its two loads gives a value
of the past. It also writes the upper half of the compare value first, to avoid spurious interrupts.
That is enough if the new value has a larger upper half than the count; otherwise the old lower half
decides.

## Main definitions

* `GetMtime`, `SetMtimecmp`, `MonotonicTimeRead`: the control states of the routines.
* `Between`: a value is that of a time between two cycles.
* `Untorn`: the times at which the two loads of `clint_get_mtime` belong together.

## Main results

* `setMtimecmp_quiet_iff`: when no spurious interrupt is raised.
* `getMtime_between_iff`: when the library returns the time of its call.
* `monotonicTimeRead_exact`: the RTOS returns the time of its last load of the lower half.
-/

namespace Croc

namespace Clock

open Bits ObiPort

open Routine (Call)

/-! ### The routines -/

/-- `CLINT_BASE_ADDR`, and the start of the device `clint` on the board. -/
def clintBaseAddr : Word := 0x02040000

/-- `reg32`. -/
def reg32 (base offs : Word) : Word := base + offs

/-- `CLINT_MTIME_HIGH_REG_OFFSET`. -/
def mtimeHighReg : Word := reg32 clintBaseAddr 0xBFFC
/-- `CLINT_MTIME_LOW_REG_OFFSET`. -/
def mtimeLowReg : Word := reg32 clintBaseAddr 0xBFF8
/-- `CLINT_MTIMECMP_HIGH0_REG_OFFSET`. -/
def mtimecmpHighReg : Word := reg32 clintBaseAddr 0x4004
/-- `CLINT_MTIMECMP_LOW0_REG_OFFSET`. -/
def mtimecmpLowReg : Word := reg32 clintBaseAddr 0x4000

/-- Where `clint_get_mtime` stands, with its variable `mtime`. -/
inductive GetMtime
  | start
  | gotHigh (mtime : BitVec 64)
  | gotLow (mtime : BitVec 64)

/-- `clint_get_mtime`. -/
def clintGetMtime : GetMtime → Routine.Action GetMtime Word Word (BitVec 64)
  | .start => .load mtimeHighReg fun w => .gotHigh (w.setWidth 64 <<< 32)
  | .gotHigh mtime => .load mtimeLowReg fun w => .gotLow (mtime ||| w.setWidth 64)
  | .gotLow mtime => .ret mtime

/-- Where `clint_set_mtimecmp` stands. -/
inductive SetMtimecmp
  | start (value : BitVec 64)
  | wroteHigh (valueLow : Word)
  | wroteLow

/-- `clint_set_mtimecmp`. -/
def clintSetMtimecmp : SetMtimecmp → Routine.Action SetMtimecmp Word Word Unit
  | .start value =>
    .store mtimecmpHighReg ((value >>> 32).setWidth 32) (.wroteHigh (value.setWidth 32))
  | .wroteHigh valueLow => .store mtimecmpLowReg valueLow .wroteLow
  | .wroteLow => .ret ()

/-- `CROC_CLINT_MTIME_LOW_WORD`. -/
def mtimeLowWord : ℕ := 0x2ffe
/-- `CROC_CLINT_MTIME_HIGH_WORD`. -/
def mtimeHighWord : ℕ := 0x2fff

/-- The address of `clint[i]`. -/
def clintWord (i : ℕ) : Word := clintBaseAddr + BitVec.ofNat 32 (4 * i)

/-- Where `platform_monotonic_time_read` stands, with its variables. -/
inductive MonotonicTimeRead
  | start
  | gotBefore (mtimehBefore : Word)
  | gotLow (mtimehBefore mtime : Word)
  | gotAfter (mtimehBefore mtime mtimehAfter : Word)

/-- `platform_monotonic_time_read`. The loop goes on with its first load. -/
def platformMonotonicTimeRead :
    MonotonicTimeRead → Routine.Action MonotonicTimeRead Word Word (BitVec 64)
  | .start => .load (clintWord mtimeHighWord) .gotBefore
  | .gotBefore mtimehBefore => .load (clintWord mtimeLowWord) (.gotLow mtimehBefore)
  | .gotLow mtimehBefore mtime => .load (clintWord mtimeHighWord) (.gotAfter mtimehBefore mtime)
  | .gotAfter mtimehBefore mtime mtimehAfter =>
    if mtimehBefore ≠ mtimehAfter then .load (clintWord mtimeHighWord) .gotBefore
    else .ret (mtimehAfter.setWidth 64 <<< 32 ||| mtime.setWidth 64)

variable {boot : Clint} {ins : ℕ → ClintIn} {t u t₀ t₁ t₂ t₃ : ℕ} {a : Word} {r : BitVec 64}
  {l : List (ℕ × Word)}

/-! ### The halves of the count -/

theorem load_mtimeHigh : (port boot ins).load t mtimeHighReg a ↔
    (ins t).req.req = true ∧ (ins t).req.we = false ∧ (ins t).req.addr = mtimeHighReg ∧
      a = high (stateAt boot ins t).mtime :=
  load_iff rfl

theorem load_mtimeLow : (port boot ins).load t mtimeLowReg a ↔
    (ins t).req.req = true ∧ (ins t).req.we = false ∧ (ins t).req.addr = mtimeLowReg ∧
      a = low (stateAt boot ins t).mtime :=
  load_iff rfl

/-- Both pieces of software use the same registers. -/
theorem clintWord_high : clintWord mtimeHighWord = mtimeHighReg := by decide

theorem clintWord_low : clintWord mtimeLowWord = mtimeLowReg := by decide

theorem mtimeHighReg_ne_low : mtimeHighReg ≠ mtimeLowReg := by decide

/-- The value that a routine puts together from two words. -/
theorem shiftLeft_or_eq_append (h w : Word) :
    h.setWidth 64 <<< 32 ||| w.setWidth 64 = (h ++ w : BitVec 64) := by
  apply BitVec.eq_of_toNat_eq
  have hh := h.isLt
  have hw := w.isLt
  have hlt : h.toNat <<< 32 < 2 ^ 64 := by
    rw [Nat.shiftLeft_eq]
    omega
  rw [BitVec.toNat_append, BitVec.toNat_or, BitVec.toNat_shiftLeft, BitVec.toNat_setWidth,
    BitVec.toNat_setWidth, Nat.mod_eq_of_lt (hh.trans (by norm_num)), Nat.mod_eq_of_lt hlt,
    Nat.mod_eq_of_lt (hw.trans (by norm_num))]

/-- The upper half of the count at one time and the lower half at another. -/
theorem halves_eq_ofNat_join (m n : ℕ) :
    (high (BitVec.ofNat 64 m) ++ low (BitVec.ofNat 64 n) : BitVec 64) =
      BitVec.ofNat 64 (SplitCounter.join (2 ^ 32) m n) := by
  apply BitVec.eq_of_toNat_eq
  rw [toNat_halves, toNat_high, toNat_low, BitVec.toNat_ofNat, BitVec.toNat_ofNat,
    BitVec.toNat_ofNat, SplitCounter.join]
  omega

/-! ### Programming the compare register -/

section Mtimecmp

variable {value : BitVec 64}

/-- The two stores of a call. -/
theorem setMtimecmp_stores
    (h : Call clintSetMtimecmp (port boot ins) (.start value) t₀ l () t₃) :
    ∃ t₁ t₂, l = [(t₁, mtimecmpHighReg), (t₂, mtimecmpLowReg)] ∧ t₀ ≤ t₁ ∧ t₁ < t₂ ∧ t₂ < t₃ ∧
      (port boot ins).store t₁ mtimecmpHighReg (high value) ∧
      (port boot ins).store t₂ mtimecmpLowReg (low value) := by
  obtain ⟨t₁, l₁, rfl, h01, hhigh, h⟩ := h.of_store rfl
  obtain ⟨t₂, l₂, rfl, h12, hlow, h⟩ := h.of_store rfl
  obtain ⟨rfl, -, h23⟩ := h.of_ret rfl
  exact ⟨t₁, t₂, rfl, h01, h12, h23, hhigh, hlow⟩

theorem mtimecmp_of_storeHigh (h : (port boot ins).store t mtimecmpHighReg a) :
    (stateAt boot ins (t + 1)).mtimecmp = a ++ low (stateAt boot ins t).mtimecmp :=
  mtimecmp_of_store h

theorem mtimecmp_of_storeLow (h : (port boot ins).store t mtimecmpLowReg a) :
    (stateAt boot ins (t + 1)).mtimecmp = high (stateAt boot ins t).mtimecmp ++ a :=
  mtimecmp_of_store h

/-- While the count stays below some value it does not wrap around. -/
theorem mtime_mono_of_lt {x : BitVec 64}
    (hlt : ∀ t, t₀ ≤ t → t ≤ t₃ → (stateAt boot ins t).mtime < x) {v : ℕ} (hu : t₀ ≤ u)
    (huv : u ≤ v)
    (hv : v ≤ t₃) : (stateAt boot ins u).mtime ≤ (stateAt boot ins v).mtime := by
  induction v, huv using Nat.le_induction with
  | base => exact BitVec.le_refl _
  | succ v huv ih =>
    refine BitVec.le_trans (ih (by omega)) ?_
    have hmax : (stateAt boot ins v).mtime.toNat + 1 < 2 ^ 64 := by
      have := BitVec.lt_def.mp (hlt v (hu.trans huv) (by omega))
      have := x.isLt
      omega
    have hnext : (stateAt boot ins (v + 1)).mtime = (stateAt boot ins v).countTime := rfl
    rw [hnext, Clint.countTime, BitVec.le_def]
    split_ifs with hinc
    · have hone : (1 : BitVec 64).toNat = 1 := rfl
      rw [BitVec.toNat_add, hone, Nat.mod_eq_of_lt hmax]
      exact Nat.le_succ _
    · exact le_rfl

/-- The compare register in the cycles of a call. -/
theorem mtimecmp_of_call (hhigh : (port boot ins).store t₁ mtimecmpHighReg (high value))
    (hlow : (port boot ins).store t₂ mtimecmpLowReg (low value)) (h01 : t₀ ≤ t₁) (h12 : t₁ < t₂)
    (honly : ∀ t, t₀ ≤ t → t < t₃ → writesMtimecmp (ins t).req = true → t = t₁ ∨ t = t₂)
    (h0 : t₀ ≤ t) (h3 : t ≤ t₃) :
    (stateAt boot ins t).mtimecmp =
      if t ≤ t₁ then (stateAt boot ins t₀).mtimecmp
      else if t ≤ t₂ then high value ++ low (stateAt boot ins t₀).mtimecmp
      else value := by
  induction t, h0 using Nat.le_induction with
  | base => rw [if_pos h01]
  | succ t h0 ih =>
    have hold := ih (by omega)
    by_cases ht1 : t = t₁
    · subst ht1
      rw [mtimecmp_of_storeHigh hhigh, hold, if_pos le_rfl, if_neg (by omega), if_pos (by omega)]
    · by_cases ht2 : t = t₂
      · subst ht2
        rw [mtimecmp_of_storeLow hlow, hold, if_neg (by omega), if_pos le_rfl, if_neg (by omega),
          if_neg (by omega), high_append, high_append_low]
      · have hno : writesMtimecmp (ins t).req = false := by
          rw [← Bool.not_eq_true]
          intro hw
          rcases honly t h0 (by omega) hw with rfl | rfl
          · exact ht1 rfl
          · exact ht2 rfl
        rw [mtimecmp_of_not_writes hno, hold]
        refine if_congr (by omega) rfl (if_congr (by omega) rfl rfl)

/-- Below the new value, the count is below the mixed one if one of its halves is. -/
theorem lt_mixed_iff {x old : BitVec 64} (h : x < value) :
    x < high value ++ low old ↔ high x < high value ∨ low x < low old := by
  have hx := x.isLt
  have hl := (low old).isLt
  rw [BitVec.lt_def] at h
  rw [BitVec.lt_def, BitVec.lt_def, BitVec.lt_def, toNat_halves, toNat_high, toNat_high, toNat_low,
    toNat_low]
  omega

/-- **Spurious interrupts.** Let `clint_set_mtimecmp` replace the compare value while the count
stays below both the old value and the new one, and nobody else writes the register. Then the
interrupt stays low exactly if in the cycle of the second store the count is below the new value in
its upper half or below the old value in its lower half. -/
theorem setMtimecmp_quiet_iff
    (hcall : Call clintSetMtimecmp (port boot ins) (.start value) t₀
      [(t₁, mtimecmpHighReg), (t₂, mtimecmpLowReg)] () t₃)
    (honly : ∀ t, t₀ ≤ t → t < t₃ → writesMtimecmp (ins t).req = true → t = t₁ ∨ t = t₂)
    (hold : ∀ t, t₀ ≤ t → t ≤ t₃ → (stateAt boot ins t).mtime < (stateAt boot ins t₀).mtimecmp)
    (hnew : ∀ t, t₀ ≤ t → t ≤ t₃ → (stateAt boot ins t).mtime < value) :
    (∀ t, t₀ ≤ t → t ≤ t₃ → (stateAt boot ins t).timerIrq = false) ↔
      high (stateAt boot ins t₂).mtime < high value ∨
        low (stateAt boot ins t₂).mtime < low (stateAt boot ins t₀).mtimecmp := by
  obtain ⟨s₁, s₂, hl, h01, h12, h23, hhigh, hlow⟩ := setMtimecmp_stores hcall
  obtain ⟨rfl, rfl⟩ : t₁ = s₁ ∧ t₂ = s₂ := by simpa using hl
  rw [← lt_mixed_iff (hnew t₂ (by omega) (by omega))]
  have hirq : ∀ t, (stateAt boot ins t).timerIrq = false ↔
      (stateAt boot ins t).mtime < (stateAt boot ins t).mtimecmp := by
    intro t
    rw [Clint.timerIrq, decide_eq_false_iff_not, BitVec.not_le]
  constructor
  · intro h
    have hlt := (hirq t₂).mp (h t₂ (by omega) (by omega))
    rwa [mtimecmp_of_call hhigh hlow h01 h12 honly (by omega) h23.le, if_neg (by omega),
      if_pos le_rfl] at hlt
  · intro h t h0 h3
    rw [hirq, mtimecmp_of_call hhigh hlow h01 h12 honly h0 h3]
    split_ifs with ht1 ht2
    · exact hold t h0 h3
    · have hle := BitVec.le_def.mp (mtime_mono_of_lt hnew h0 ht2 h23.le)
      exact BitVec.lt_def.mpr (hle.trans_lt (BitVec.lt_def.mp h))
    · exact hnew t h0 h3

/-- Out of reset the compare value becomes 2^32, then a call sets it to ten. The count is still
zero. -/
def reprogram : ℕ → ClintIn
  | 0 => ⟨false, ⟨true, mtimecmpHighReg, true, 0xf, 1, 0⟩⟩
  | 1 => ⟨false, ⟨true, mtimecmpHighReg, true, 0xf, 0, 0⟩⟩
  | 2 => ⟨false, ⟨true, mtimecmpLowReg, true, 0xf, 10, 0⟩⟩
  | _ => ⟨false, ⟨false, 0, false, 0, 0, 0⟩⟩

/-- The count is below both values throughout, and the interrupt is raised between the two
stores. -/
theorem reprogram_spurious :
    Call clintSetMtimecmp (port .init reprogram) (.start 10) 1
        [(1, mtimecmpHighReg), (2, mtimecmpLowReg)] () 3 ∧
      (stateAt .init reprogram 1).mtimecmp = 0x100000000 ∧
      (∀ t ≤ 3, (stateAt .init reprogram t).mtime = 0) ∧
      (stateAt .init reprogram 1).timerIrq = false ∧ (stateAt .init reprogram 2).timerIrq = true ∧
      (stateAt .init reprogram 3).timerIrq = false := by
  refine ⟨?_, by decide, by decide, by decide, by decide, by decide⟩
  refine .store rfl le_rfl ⟨rfl, rfl, rfl, rfl, by decide⟩ ?_
  exact .store rfl le_rfl ⟨rfl, rfl, rfl, rfl, by decide⟩ (.ret rfl le_rfl)

/-- A call that moves the compare value up, from 2^32 to 2^33. -/
def postpone : ℕ → ClintIn
  | 0 => ⟨false, ⟨true, mtimecmpHighReg, true, 0xf, 1, 0⟩⟩
  | 1 => ⟨false, ⟨true, mtimecmpHighReg, true, 0xf, 2, 0⟩⟩
  | 2 => ⟨false, ⟨true, mtimecmpLowReg, true, 0xf, 0, 0⟩⟩
  | _ => ⟨false, ⟨false, 0, false, 0, 0, 0⟩⟩

theorem setMtimecmp_quiet_postpone :
    Call clintSetMtimecmp (port .init postpone) (.start 0x200000000) 1
        [(1, mtimecmpHighReg), (2, mtimecmpLowReg)] () 3 ∧
      ∀ t, 1 ≤ t → t ≤ 3 → (stateAt .init postpone t).timerIrq = false := by
  have hcall : Call clintSetMtimecmp (port .init postpone) (.start 0x200000000) 1
      [(1, mtimecmpHighReg), (2, mtimecmpLowReg)] () 3 := by
    refine .store rfl le_rfl ⟨rfl, rfl, rfl, rfl, by decide⟩ ?_
    exact .store rfl le_rfl ⟨rfl, rfl, rfl, rfl, by decide⟩ (.ret rfl le_rfl)
  refine ⟨hcall, ?_⟩
  refine (setMtimecmp_quiet_iff hcall ?_ (by decide) (by decide)).mpr (Or.inl (by decide))
  intro t h1 h3 _
  omega

end Mtimecmp

/-! ### Reading the count -/

section Mtime

/-- The value is that of a time between the cycles `t₀` and `t₃`. -/
def Between (boot : Clint) (ins : ℕ → ClintIn) (t₀ t₃ : ℕ) (r : BitVec 64) : Prop :=
  ∃ n, time boot ins t₀ ≤ n ∧ n ≤ time boot ins t₃ ∧ r = BitVec.ofNat 64 n

/-- As long as the count has not wrapped around, this is a matter of the values of the register. -/
theorem between_iff (h : time boot ins t₃ < 2 ^ 64) (h03 : t₀ ≤ t₃) :
    Between boot ins t₀ t₃ r ↔
      (stateAt boot ins t₀).mtime ≤ r ∧ r ≤ (stateAt boot ins t₃).mtime := by
  have hle := time_mono boot ins h03
  rw [BitVec.le_def, BitVec.le_def, toNat_mtime h, toNat_mtime (hle.trans_lt h)]
  constructor
  · rintro ⟨n, h0, h3, rfl⟩
    rw [BitVec.toNat_ofNat, Nat.mod_eq_of_lt (h3.trans_lt h)]
    exact ⟨h0, h3⟩
  · rintro ⟨h0, h3⟩
    exact ⟨r.toNat, h0, h3, (BitVec.ofNat_toNat 64 r).symm⟩

/-- Of two calls one after the other, the later one returns the later time. -/
theorem Between.le {s₀ s₃ : ℕ} {r' : BitVec 64} (h : Between boot ins t₀ t₃ r) (h30 : t₃ ≤ s₀)
    (h' : Between boot ins s₀ s₃ r') (hwrap : time boot ins s₃ < 2 ^ 64) : r ≤ r' := by
  obtain ⟨n, -, hn, rfl⟩ := h
  obtain ⟨n', hn', hlt, rfl⟩ := h'
  have hmid := time_mono boot ins h30
  rw [BitVec.le_def, BitVec.toNat_ofNat, BitVec.toNat_ofNat, Nat.mod_eq_of_lt (by omega),
    Nat.mod_eq_of_lt (by omega)]
  omega

/-- The upper half of the count is the same at both loads, or has moved since the call began, or the
lower half is at the second load not below what it was when the call began. (Or the call takes so
long that the count comes round to the value once more.) -/
def Untorn (boot : Clint) (ins : ℕ → ClintIn) (t₀ t₁ t₂ t₃ : ℕ) : Prop :=
  time boot ins t₁ / 2 ^ 32 = time boot ins t₂ / 2 ^ 32 ∨
    time boot ins t₀ / 2 ^ 32 < time boot ins t₁ / 2 ^ 32 ∨
    time boot ins t₀ % 2 ^ 32 ≤ time boot ins t₂ % 2 ^ 32 ∨
    time boot ins t₀ + 2 ^ 64 + time boot ins t₂ % 2 ^ 32 ≤
      time boot ins t₃ + time boot ins t₀ % 2 ^ 32

/-- The two loads of a call, and what it returns. -/
theorem getMtime_loads (h : Call clintGetMtime (port boot ins) .start t₀ l r t₃) :
    ∃ t₁ t₂, l = [(t₁, mtimeHighReg), (t₂, mtimeLowReg)] ∧ t₀ ≤ t₁ ∧ t₁ < t₂ ∧ t₂ < t₃ ∧
      r = BitVec.ofNat 64
        (SplitCounter.join (2 ^ 32) (time boot ins t₁) (time boot ins t₂)) := by
  obtain ⟨t₁, high, l₁, rfl, h01, hhigh, h⟩ := h.of_load rfl
  obtain ⟨t₂, low, l₂, rfl, h12, hlow, h⟩ := h.of_load rfl
  obtain ⟨rfl, rfl, h23⟩ := h.of_ret rfl
  obtain ⟨-, -, -, rfl⟩ := load_mtimeHigh.mp hhigh
  obtain ⟨-, -, -, rfl⟩ := load_mtimeLow.mp hlow
  refine ⟨t₁, t₂, rfl, h01, h12, h23, ?_⟩
  rw [shiftLeft_or_eq_append, mtime_stateAt, mtime_stateAt, halves_eq_ofNat_join]

/-- A value is taken between `a` and `d`, modulo 2^64, in one of two ways. -/
theorem exists_ofNat_eq_iff {a x d : ℕ} (hx : x ≤ d) (ha : a < x + 2 ^ 32) :
    (∃ n, a ≤ n ∧ n ≤ d ∧ BitVec.ofNat 64 x = BitVec.ofNat 64 n) ↔ a ≤ x ∨ x + 2 ^ 64 ≤ d := by
  constructor
  · rintro ⟨n, han, hnd, hn⟩
    have hmod := congrArg BitVec.toNat hn
    rw [BitVec.toNat_ofNat, BitVec.toNat_ofNat] at hmod
    omega
  · rintro (hax | hxd)
    · exact ⟨x, hax, hx, rfl⟩
    · refine ⟨x + 2 ^ 64, by omega, hxd, ?_⟩
      apply BitVec.eq_of_toNat_eq
      rw [BitVec.toNat_ofNat, BitVec.toNat_ofNat, Nat.add_mod_right]

theorem between_join_iff (h01 : t₀ ≤ t₁) (h12 : t₁ ≤ t₂) (h23 : t₂ ≤ t₃) :
    Between boot ins t₀ t₃
        (BitVec.ofNat 64 (SplitCounter.join (2 ^ 32) (time boot ins t₁) (time boot ins t₂))) ↔
      Untorn boot ins t₀ t₁ t₂ t₃ := by
  have hab := time_mono boot ins h01
  have hbc := time_mono boot ins h12
  have hcd := time_mono boot ins h23
  have hpos : 0 < 2 ^ 32 := by norm_num
  have hle := SplitCounter.join_le (B := 2 ^ 32) hbc
  have hlt := SplitCounter.lt_join_add (b := time boot ins t₁) (c := time boot ins t₂) hpos
  rw [Between, exists_ofNat_eq_iff (hle.trans hcd) (hab.trans_lt hlt),
    SplitCounter.le_join_iff hpos hab hbc, SplitCounter.join, Untorn, or_assoc, or_assoc]
  omega

/-- **When a reading is a time of the call.** What `clint_get_mtime` returns is a time between the
start of the call and its end exactly if the halves that it loads belong together, or the error does
not take it back before the start. Then successive calls do not go backwards. -/
theorem getMtime_between_iff (boot : Clint) (ins : ℕ → ClintIn) :
    (∀ t₀ l r t₃, Call clintGetMtime (port boot ins) .start t₀ l r t₃ →
      ∃ t₁ t₂, l = [(t₁, mtimeHighReg), (t₂, mtimeLowReg)] ∧
        (Between boot ins t₀ t₃ r ↔ Untorn boot ins t₀ t₁ t₂ t₃) ∧
        (time boot ins t₃ < 2 ^ 64 →
          ((stateAt boot ins t₀).mtime ≤ r ∧ r ≤ (stateAt boot ins t₃).mtime ↔
            Untorn boot ins t₀ t₁ t₂ t₃))) ∧
      ∀ t₀ t₁ t₂ r t₃ s₀ s₁ s₂ r' s₃,
        Call clintGetMtime (port boot ins) .start t₀
          [(t₁, mtimeHighReg), (t₂, mtimeLowReg)] r t₃ →
        Call clintGetMtime (port boot ins) .start s₀
          [(s₁, mtimeHighReg), (s₂, mtimeLowReg)] r' s₃ →
        t₃ ≤ s₀ → time boot ins s₃ < 2 ^ 64 → Untorn boot ins t₀ t₁ t₂ t₃ →
        Untorn boot ins s₀ s₁ s₂ s₃ → r ≤ r' := by
  have hiff : ∀ {t₀ t₁ t₂ r t₃}, Call clintGetMtime (port boot ins) .start t₀
      [(t₁, mtimeHighReg), (t₂, mtimeLowReg)] r t₃ →
      (Between boot ins t₀ t₃ r ↔ Untorn boot ins t₀ t₁ t₂ t₃) := by
    intro t₀ t₁ t₂ r t₃ hcall
    obtain ⟨s₁, s₂, hl, h01, h12, h23, rfl⟩ := getMtime_loads hcall
    obtain ⟨rfl, rfl⟩ : t₁ = s₁ ∧ t₂ = s₂ := by simpa using hl
    exact between_join_iff h01 h12.le h23.le
  constructor
  · intro t₀ l r t₃ hcall
    obtain ⟨t₁, t₂, rfl, -⟩ := getMtime_loads hcall
    refine ⟨t₁, t₂, rfl, hiff hcall, fun hwrap => ?_⟩
    rw [← between_iff hwrap hcall.le]
    exact hiff hcall
  · intro t₀ t₁ t₂ r t₃ s₀ s₁ s₂ r' s₃ hcall hcall' hord hwrap h h'
    exact ((hiff hcall).mpr h).le hord ((hiff hcall').mpr h') hwrap

/-- The reference clock rises every other cycle. A call loads the upper half of the count in cycle
2^33 and the lower half in the next one. -/
def rollover (t : ℕ) : ClintIn where
  rtc := t % 2 == 0
  req :=
    if t = 2 ^ 33 then ⟨true, mtimeHighReg, false, 0xf, 0, 0⟩
    else if t = 2 ^ 33 + 1 then ⟨true, mtimeLowReg, false, 0xf, 0, 0⟩
    else ⟨false, 0, false, 0, 0, 0⟩

/-- The rising edge that the synchroniser holds moves the count. -/
theorem increaseMtime_of_edge {s : Clint} (hreg : s.regQ = 0b10) (hsync : s.rtcSync = false) :
    s.increaseMtime = true := by
  rw [Clint.increaseMtime, Clint.rtcSyncD, hreg, hsync]
  decide

/-- The synchroniser and the count in every other cycle of the run. -/
theorem stateAt_rollover (n : ℕ) :
    (stateAt .init rollover (2 * n + 2)).regQ = 0b10 ∧
      (stateAt .init rollover (2 * n + 2)).rtcSync = false ∧
      time .init rollover (2 * n + 2) = n := by
  induction n with
  | zero => decide
  | succ n ih =>
    obtain ⟨hreg, hsync, htime⟩ := ih
    set s := stateAt .init rollover (2 * n + 2) with hs
    have heven : (rollover (2 * n + 2)).rtc = true := by
      have : (2 * n + 2) % 2 = 0 := by omega
      simp [rollover, this]
    have hodd : (rollover (2 * n + 3)).rtc = false := by
      have : (2 * n + 3) % 2 = 1 := by omega
      simp [rollover, this]
    have hreg' : (stateAt .init rollover (2 * n + 3)).regQ = 0b01 := by
      rw [regQ_stateAt_succ, ← hs, hreg, heven]
      decide
    have hsync' : (stateAt .init rollover (2 * n + 3)).rtcSync = true := by
      rw [rtcSync_stateAt_succ, ← hs, Clint.rtcSyncD, hreg]
      decide
    have hinc : s.increaseMtime = true := increaseMtime_of_edge hreg hsync
    have hinc' : (stateAt .init rollover (2 * n + 3)).increaseMtime = false := by
      rw [Clint.increaseMtime, hsync', Bool.not_true, Bool.and_false]
    have hcycle : 2 * (n + 1) + 2 = 2 * n + 3 + 1 := by omega
    rw [hcycle]
    refine ⟨?_, ?_, ?_⟩
    · rw [regQ_stateAt_succ, hreg', hodd]
      decide
    · rw [rtcSync_stateAt_succ, Clint.rtcSyncD, hreg']
      decide
    · have htime' : time .init rollover (2 * n + 3 + 1) =
          time .init rollover (2 * n + 2) + s.increaseMtime.toNat +
            (stateAt .init rollover (2 * n + 3)).increaseMtime.toNat := rfl
      rw [htime', htime, hinc, hinc']
      rfl

/-- Started at 2^32 - 1, the call returns zero. -/
theorem rollover_torn :
    (stateAt .init rollover (2 ^ 33)).mtime = 0xffffffff ∧
      (stateAt .init rollover (2 ^ 33 + 1)).mtime = 0x100000000 ∧
      Call clintGetMtime (port .init rollover) .start (2 ^ 33)
        [(2 ^ 33, mtimeHighReg), (2 ^ 33 + 1, mtimeLowReg)] 0 (2 ^ 33 + 2) ∧
      ¬Between .init rollover (2 ^ 33) (2 ^ 33 + 2) 0 := by
  obtain ⟨hreg, hsync, htime⟩ := stateAt_rollover (2 ^ 32 - 1)
  have hcycle : 2 * (2 ^ 32 - 1) + 2 = 2 ^ 33 := by norm_num
  rw [hcycle] at hreg hsync htime
  have hinc := increaseMtime_of_edge hreg hsync
  have htime' : time .init rollover (2 ^ 33 + 1) = 2 ^ 32 := by
    rw [time, htime, hinc]
    rfl
  have hfirst : (stateAt .init rollover (2 ^ 33)).mtime = 0xffffffff := by
    rw [mtime_stateAt, htime]
    rfl
  have hsecond : (stateAt .init rollover (2 ^ 33 + 1)).mtime = 0x100000000 := by
    rw [mtime_stateAt, htime']
    rfl
  have hreq : (rollover (2 ^ 33)).req = ⟨true, mtimeHighReg, false, 0xf, 0, 0⟩ := by
    rw [rollover, if_pos rfl]
  have hreq' : (rollover (2 ^ 33 + 1)).req = ⟨true, mtimeLowReg, false, 0xf, 0, 0⟩ := by
    rw [rollover, if_neg (Nat.succ_ne_self _), if_pos rfl]
  refine ⟨hfirst, hsecond, ?_, ?_⟩
  · have hhigh : (port .init rollover).load (2 ^ 33) mtimeHighReg 0 := by
      rw [load_mtimeHigh, hfirst, hreq]
      decide
    have hlow : (port .init rollover).load (2 ^ 33 + 1) mtimeLowReg 0 := by
      rw [load_mtimeLow, hsecond, hreq']
      decide
    exact .load rfl le_rfl hhigh (.load rfl le_rfl hlow (.ret rfl le_rfl))
  · rintro ⟨n, hn, hlt, h0⟩
    have hlast : time .init rollover (2 ^ 33 + 2) ≤ 2 ^ 32 + 1 := by
      rw [time, htime']
      exact Nat.add_le_add_left (Bool.toNat_le _) _
    have hmod := congrArg BitVec.toNat h0
    rw [BitVec.toNat_ofNat, Nat.mod_eq_of_lt (by omega)] at hmod
    have hzero : (0 : BitVec 64).toNat = 0 := rfl
    omega

end Mtime

/-! ### The clock of the RTOS -/

section Monotonic

/-- The cycle of the last load of the lower half. -/
def LastLow (l : List (ℕ × Word)) (v : ℕ) : Prop :=
  (v, mtimeLowReg) ∈ l ∧ ∀ w, (w, mtimeLowReg) ∈ l → w ≤ v

/-- **One round of the loop.** It returns the count at its load of the lower half, or starts over
after its three loads. -/
theorem monotonicTimeRead_round
    (h : Call platformMonotonicTimeRead (port boot ins) .start t l r u)
    (hwrap : time boot ins u < 2 ^ 64) :
    ∃ t₁ t₂ t₃ l', l = (t₁, mtimeHighReg) :: (t₂, mtimeLowReg) :: (t₃, mtimeHighReg) :: l' ∧
      t ≤ t₁ ∧ t₁ < t₂ ∧ t₂ < t₃ ∧ t₃ < u ∧
      ((l' = [] ∧ r = (stateAt boot ins t₂).mtime) ∨
        Call platformMonotonicTimeRead (port boot ins) .start (t₃ + 1) l' r u) := by
  obtain ⟨t₁, before, l₁, rfl, h01, hbefore, h⟩ := h.of_load rfl
  obtain ⟨t₂, w, l₂, rfl, h12, hlow, h⟩ := h.of_load rfl
  obtain ⟨t₃, after, l₃, rfl, h23, hafter, h⟩ := h.of_load rfl
  rw [clintWord_high, load_mtimeHigh] at hbefore hafter
  rw [clintWord_low, load_mtimeLow] at hlow
  obtain ⟨-, -, -, rfl⟩ := hbefore
  obtain ⟨-, -, -, rfl⟩ := hlow
  obtain ⟨-, -, -, rfl⟩ := hafter
  rw [clintWord_high, clintWord_low]
  refine ⟨t₁, t₂, t₃, l₃, rfl, h01, h12, h23, h.le, ?_⟩
  by_cases hne : high (stateAt boot ins t₁).mtime ≠ high (stateAt boot ins t₃).mtime
  · exact Or.inr (h.congr_state (if_pos hne).symm)
  · left
    obtain ⟨hnil, rfl, -⟩ := h.of_ret (if_neg hne)
    refine ⟨hnil, ?_⟩
    have hab := time_mono boot ins (Nat.le_of_lt h12)
    have hbc := time_mono boot ins (Nat.le_of_lt h23)
    have hcu := time_mono boot ins (Nat.le_of_lt h.le)
    have hdiv := congrArg BitVec.toNat (not_ne_iff.mp hne)
    rw [toNat_high, toNat_high, toNat_mtime (by omega), toNat_mtime (by omega)] at hdiv
    rw [shiftLeft_or_eq_append, mtime_stateAt, mtime_stateAt, halves_eq_ofNat_join,
      SplitCounter.join_eq_of_div_eq hab hbc hdiv]

/-- **A call.** It returns the count at its last load of the lower half, after however many
rounds. -/
theorem monotonicTimeRead_eq
    (h : Call platformMonotonicTimeRead (port boot ins) .start t l r u)
    (hwrap : time boot ins u < 2 ^ 64) :
    ∃ v, LastLow l v ∧ t ≤ v ∧ v < u ∧ r = (stateAt boot ins v).mtime := by
  -- the rounds that are left have fewer loads
  induction hn : l.length using Nat.strong_induction_on generalizing t l with
  | _ n ih =>
    obtain ⟨t₁, t₂, t₃, l', rfl, h01, h12, h23, h3u, hround⟩ := monotonicTimeRead_round h hwrap
    rcases hround with ⟨rfl, rfl⟩ | hagain
    · refine ⟨t₂, ⟨by simp, fun w hw => ?_⟩, by omega, by omega, rfl⟩
      have hw' : w = t₂ := by simpa [mtimeHighReg_ne_low.symm] using hw
      exact hw'.le
    · have hlen : l'.length < n := by
        rw [← hn, List.length_cons, List.length_cons, List.length_cons]
        omega
      obtain ⟨v, ⟨hmem, hlast⟩, hv, hvu, hr⟩ := ih l'.length hlen hagain rfl
      refine ⟨v, ⟨by simp [hmem], fun w hw => ?_⟩, by omega, hvu, hr⟩
      have hcases : w = t₂ ∨ (w, mtimeLowReg) ∈ l' := by simpa [mtimeHighReg_ne_low.symm] using hw
      rcases hcases with rfl | hw'
      · omega
      · exact hlast w hw'

/-- **The clock of the RTOS is exact.** In a run in which the count has not wrapped around by cycle
`T`, every call of `platform_monotonic_time_read` that has returned by then returns the count at its
last load of the lower half, and successive calls never return less. -/
theorem monotonicTimeRead_exact {T : ℕ} (hwrap : time boot ins T < 2 ^ 64) :
    (∀ t l r u, Call platformMonotonicTimeRead (port boot ins) .start t l r u → u ≤ T →
      ∃ v, LastLow l v ∧ t ≤ v ∧ v < u ∧ r = (stateAt boot ins v).mtime) ∧
      ∀ t l r u t' l' r' u', Call platformMonotonicTimeRead (port boot ins) .start t l r u →
        Call platformMonotonicTimeRead (port boot ins) .start t' l' r' u' → u ≤ t' → u' ≤ T →
        r ≤ r' := by
  have heq : ∀ t l r u, Call platformMonotonicTimeRead (port boot ins) .start t l r u → u ≤ T →
      ∃ v, LastLow l v ∧ t ≤ v ∧ v < u ∧ r = (stateAt boot ins v).mtime :=
    fun t l r u h hu => monotonicTimeRead_eq h ((time_mono boot ins hu).trans_lt hwrap)
  refine ⟨heq, fun t l r u t' l' r' u' h h' huu hT => ?_⟩
  obtain ⟨v, -, -, hvu, rfl⟩ := heq t l r u h (huu.trans (h'.le.trans hT))
  obtain ⟨v', -, hv', hvu', rfl⟩ := heq t' l' r' u' h' hT
  have hmono := time_mono boot ins (show v ≤ v' by omega)
  have hlast := time_mono boot ins (show v' ≤ T by omega)
  rw [BitVec.le_def, toNat_mtime (by omega), toNat_mtime (by omega)]
  exact hmono

/-- The count is about to leave 2^32 - 1. -/
def beforeRollover : Clint := { Clint.init with mtime := 0xffffffff, regQ := 0b10 }

/-- The six loads of a call of two rounds. -/
def twoRounds : ℕ → ClintIn
  | 0 | 2 | 3 | 5 => ⟨false, ⟨true, mtimeHighReg, false, 0xf, 0, 0⟩⟩
  | 1 | 4 => ⟨false, ⟨true, mtimeLowReg, false, 0xf, 0, 0⟩⟩
  | _ => ⟨false, ⟨false, 0, false, 0, 0, 0⟩⟩

/-- The lower half rolls over after the first load, so the call starts over and returns 2^32. -/
theorem monotonicTimeRead_exact_twoRounds :
    ∃ l, Call platformMonotonicTimeRead (port beforeRollover twoRounds) .start 0 l 0x100000000 6 ∧
      ∃ v, LastLow l v ∧ 0 ≤ v ∧ v < 6 ∧
        0x100000000 = (stateAt beforeRollover twoRounds v).mtime := by
  have hcall : Call platformMonotonicTimeRead (port beforeRollover twoRounds) .start 0
      [(0, mtimeHighReg), (1, mtimeLowReg), (2, mtimeHighReg), (3, mtimeHighReg), (4, mtimeLowReg),
        (5, mtimeHighReg)] 0x100000000 6 := by
    refine .load rfl le_rfl (load_mtimeHigh.mpr ⟨rfl, rfl, rfl, rfl⟩) ?_
    refine .load rfl le_rfl (load_mtimeLow.mpr ⟨rfl, rfl, rfl, rfl⟩) ?_
    refine .load rfl le_rfl (load_mtimeHigh.mpr ⟨rfl, rfl, rfl, rfl⟩) ?_
    refine .load rfl le_rfl (load_mtimeHigh.mpr ⟨rfl, rfl, rfl, rfl⟩) ?_
    refine .load rfl le_rfl (load_mtimeLow.mpr ⟨rfl, rfl, rfl, rfl⟩) ?_
    exact .load rfl le_rfl (load_mtimeHigh.mpr ⟨rfl, rfl, rfl, rfl⟩) (.ret rfl le_rfl)
  have hwrap : time beforeRollover twoRounds 6 < 2 ^ 64 := by decide
  exact ⟨_, hcall, (monotonicTimeRead_exact hwrap).1 _ _ _ _ hcall le_rfl⟩

end Monotonic

end Clock

end Croc
