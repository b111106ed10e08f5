import Croc.Lib.Clocked
import Croc.Sram.Bank

/-!
# The SRAM of the chip

The generic `tc_sram` is one array of words. On the chip a bank of 16384 words of 32 bits is made
from four macros of 2048 words of 64 bits: two bits of the address select the macro, eleven its row,
and the last one the half of the row. The selection is registered for the read path only, since a
macro answers a cycle later.

A macro is a memory of its own, `SRAM_1P_behavioral_bm_bist` of the design kit: a write is masked
bit by bit, a read loads the output register, and the output stays until the next read. With both
enables a macro writes through, to the row and to the output; `tc_sram_impl` never asks for that.

## Main definitions

* `SramReq`: a request to either memory.
* `TcSram`: the flat memory.
* `Macro`: a macro.
* `TcSramImpl`: four macros with the registers of the read path.
* `Packs`: the flat memory is what the macros hold.

## Main results

* `SramBank.tcSram_step`: the memory of a bank is the flat one.
* `Packs.step`: one request, on both sides.
* `tcSramImpl_refines`: the answer to every read is the same.
-/

namespace Croc

namespace Sram

open Cheriot Clocked

open Bits (Word high low)

/-- A request to the only port. -/
structure SramReq where
  /-- `req_i`. -/
  req : Bool
  /-- `we_i`. -/
  we : Bool
  /-- `addr_i`. -/
  addr : Index
  /-- `wdata_i`. -/
  wdata : Word
  /-- `be_i`. -/
  be : BitVec 4
  deriving DecidableEq, Repr

/-- The request is a read. -/
def SramReq.reads (q : SramReq) : Bool := q.req && !q.we

/-- The request is a write. -/
def SramReq.writes (q : SramReq) : Bool := q.req && q.we

/-! ### The flat memory -/

/-- `tc_sram` with one port and a latency of one cycle. -/
structure TcSram where
  /-- `sram`. -/
  sram : Index → Word
  /-- `r_addr_q`. -/
  rAddr : Index
  /-- `rdata_q`. -/
  rdata : Word

/-- One clock edge. -/
def TcSram.step (s : TcSram) (q : SramReq) : TcSram where
  sram a := if q.writes ∧ a = q.addr then Bits.mergeBytes (s.sram a) q.wdata q.be else s.sram a
  rAddr := if q.reads then q.addr else s.rAddr
  rdata := if q.reads then s.sram q.addr else s.sram s.rAddr

/-- The memory of a bank. -/
def SramBank.tcSram (s : SramBank) : TcSram := ⟨s.sram, s.rAddr, s.rdata⟩

/-- The request of the shim to the memory. -/
def sramReq : Option BankReq → SramReq
  | none => ⟨false, false, 0, 0, 0⟩
  | some q => ⟨true, q.we, wordAddr q.addr, q.wdata, q.be⟩

/-- **The memory of a bank is the flat one.** -/
theorem SramBank.tcSram_step (k : Fin 2) (s : SramBank) (o : Option BankReq) :
    (s.step k o).tcSram = s.tcSram.step (sramReq o) := by
  cases o with
  | none => simp [SramBank.step, tcSram, TcSram.step, sramReq, SramReq.reads, SramReq.writes]
  | some q =>
    cases hw : q.we <;>
      simp [SramBank.step, tcSram, TcSram.step, sramReq, SramReq.reads, SramReq.writes, hw]

/-! ### The macros -/

/-- `RM_IHPSG13_1P_2048x64_c2_bm_bist`, without its self-test. -/
structure Macro where
  /-- `memory`. -/
  mem : BitVec 11 → BitVec 64
  /-- `A_DOUT`. -/
  dout : BitVec 64

/-- One clock edge of a macro, with `A_MEN`, `A_WEN`, `A_REN`, `A_ADDR`, `A_BM` and `A_DIN`. -/
def Macro.step (m : Macro) (men wen ren : Bool) (addr : BitVec 11) (bm din : BitVec 64) :
    Macro where
  mem r := if men ∧ wen ∧ r = addr then (m.mem r &&& ~~~bm) ||| (din &&& bm) else m.mem r
  dout :=
    if men ∧ wen then if ren then (m.mem addr &&& ~~~bm) ||| (din &&& bm) else m.dout
    else if men ∧ ren then m.mem addr
    else m.dout

/-- `macro_sel`. -/
def macroSel (a : Index) : BitVec 2 := a.extractLsb' 12 2

/-- `macro_addr`. -/
def macroAddr (a : Index) : BitVec 11 := a.extractLsb' 1 11

/-- `word_upper`. -/
def wordUpper (a : Index) : Bool := a.getLsbD 0

/-- The half of a row. -/
def half (upper : Bool) (x : BitVec 64) : Word := if upper then high x else low x

/-- `gen_16384x32xBx1` of `tc_sram_impl`. -/
structure TcSramImpl where
  /-- The four `i_cut`. -/
  cut : BitVec 2 → Macro
  /-- `upper_q`. -/
  upper : Bool
  /-- `rdata_ready_q`. -/
  rdataReady : Bool
  /-- `macro_q`. -/
  sel : BitVec 2

/-- `wdata64`. -/
def wdata64 (q : SramReq) : BitVec 64 :=
  if q.writes then if wordUpper q.addr then q.wdata ++ 0#32 else 0#32 ++ q.wdata else 0

/-- `bm64`. -/
def bm64 (q : SramReq) : BitVec 64 :=
  if q.writes then
    if wordUpper q.addr then Bits.byteMask q.be ++ 0#32 else 0#32 ++ Bits.byteMask q.be
  else 0

namespace TcSramImpl

/-- Out of reset. The macros hold what they hold. -/
def init (cut : BitVec 2 → Macro) : TcSramImpl := ⟨cut, false, false, 0⟩

/-- `rdata32`. -/
def rdata (s : TcSramImpl) : Word :=
  if s.rdataReady then half s.upper (s.cut s.sel).dout else 0

/-- One clock edge. -/
def step (s : TcSramImpl) (q : SramReq) : TcSramImpl where
  cut i := (s.cut i).step (q.req && macroSel q.addr == i) q.we (!q.we) (macroAddr q.addr) (bm64 q)
    (wdata64 q)
  upper := if q.reads then wordUpper q.addr else s.upper
  rdataReady := q.reads
  sel := if q.reads then macroSel q.addr else s.sel

end TcSramImpl

/-! ### Both memories -/

/-- The flat memory is what the macros hold. -/
def Packs (s : TcSramImpl) (f : TcSram) : Prop :=
  ∀ a, f.sram a = half (wordUpper a) ((s.cut (macroSel a)).mem (macroAddr a))

/-- The parts of an address are the address. -/
theorem index_eq_iff {a b : Index} :
    a = b ↔ macroSel a = macroSel b ∧ macroAddr a = macroAddr b ∧ wordUpper a = wordUpper b := by
  constructor
  · rintro rfl
    exact ⟨rfl, rfl, rfl⟩
  · rintro ⟨hsel, haddr, hupper⟩
    have hsel' := congrArg BitVec.toNat hsel
    have haddr' := congrArg BitVec.toNat haddr
    have hupper' := congrArg Bool.toNat hupper
    rw [macroSel, macroSel, BitVec.extractLsb'_toNat, BitVec.extractLsb'_toNat] at hsel'
    rw [macroAddr, macroAddr, BitVec.extractLsb'_toNat, BitVec.extractLsb'_toNat] at haddr'
    rw [wordUpper, wordUpper, BitVec.getLsbD, BitVec.getLsbD, Nat.toNat_testBit,
      Nat.toNat_testBit] at hupper'
    apply BitVec.eq_of_toNat_eq
    have ha := a.isLt
    have hb := b.isLt
    rw [Nat.shiftRight_eq_div_pow, Nat.shiftRight_eq_div_pow] at hsel' haddr'
    omega

/-- A row after a write: the half of the address is merged, the other one stays. -/
theorem half_write {q : SramReq} (hw : q.writes = true) (x : BitVec 64) (upper : Bool) :
    half upper ((x &&& ~~~bm64 q) ||| (wdata64 q &&& bm64 q)) =
      if upper = wordUpper q.addr then Bits.mergeBytes (half upper x) q.wdata q.be
      else half upper x := by
  rw [← Bits.and_not_byteMask_or, bm64, wdata64, if_pos hw, if_pos hw]
  cases upper <;> cases wordUpper q.addr <;> simp [half]
  -- the half that is left out keeps all its bits
  all_goals exact BitVec.and_allOnes

/-- **One request.** -/
theorem Packs.step {s : TcSramImpl} {f : TcSram} (h : Packs s f) (q : SramReq) :
    Packs (s.step q) (f.step q) := by
  intro a
  have hcut : ((s.step q).cut (macroSel a)).mem (macroAddr a) =
      if (q.req && macroSel q.addr == macroSel a) = true ∧ q.we = true ∧
          macroAddr a = macroAddr q.addr then
        ((s.cut (macroSel a)).mem (macroAddr a) &&& ~~~bm64 q) ||| (wdata64 q &&& bm64 q)
      else (s.cut (macroSel a)).mem (macroAddr a) := rfl
  have hflat : (f.step q).sram a =
      if q.writes = true ∧ a = q.addr then Bits.mergeBytes (f.sram a) q.wdata q.be
      else f.sram a := rfl
  by_cases hrow : (q.req && macroSel q.addr == macroSel a) = true ∧ q.we = true ∧
      macroAddr a = macroAddr q.addr
  · -- the row of the address is written, and `a` may be its other half
    rw [if_pos hrow] at hcut
    obtain ⟨hsel, hwe, haddr⟩ := hrow
    rw [Bool.and_eq_true, beq_iff_eq] at hsel
    have hw : q.writes = true := by rw [SramReq.writes, hsel.1, hwe, Bool.and_true]
    rw [hcut, hflat, h a, half_write hw]
    refine if_congr ?_ rfl rfl
    rw [index_eq_iff]
    exact ⟨fun hc => hc.2.2.2, fun hc => ⟨hw, hsel.2.symm, haddr, hc⟩⟩
  · rw [hcut, if_neg hrow, hflat, if_neg, h a]
    rintro ⟨hw, rfl⟩
    rw [SramReq.writes, Bool.and_eq_true] at hw
    exact hrow ⟨by rw [hw.1, beq_self_eq_true, Bool.and_true], hw.2, rfl⟩

/-- A read is answered alike. -/
theorem Packs.rdata_step {s : TcSramImpl} {f : TcSram} (h : Packs s f) {q : SramReq}
    (hq : q.reads = true) : (s.step q).rdata = (f.step q).rdata := by
  obtain ⟨hreq, hwe⟩ : q.req = true ∧ q.we = false := by simpa [SramReq.reads] using hq
  have hflat : (f.step q).rdata = if q.reads then f.sram q.addr else f.sram f.rAddr := rfl
  -- a read does not write, so the macro does not write through
  have hrow : ((s.step q).cut (macroSel q.addr)).dout =
      (s.cut (macroSel q.addr)).mem (macroAddr q.addr) := by
    simp [TcSramImpl.step, Macro.step, hreq, hwe]
  have hsel : (s.step q).sel = if q.reads then macroSel q.addr else s.sel := rfl
  have hupper : (s.step q).upper = if q.reads then wordUpper q.addr else s.upper := rfl
  have hready : (s.step q).rdataReady = q.reads := rfl
  rw [if_pos hq] at hflat hsel hupper
  rw [TcSramImpl.rdata, hready, if_pos hq, hsel, hupper, hrow, hflat, h]

/-! ### Runs -/

/-- The flat memory at the start of cycle `t`. -/
def flatAt (f : TcSram) (ins : ℕ → SramReq) (t : ℕ) : TcSram :=
  (⟨f, TcSram.step⟩ : Machine TcSram SramReq).stateAt ins t

/-- The macros at the start of cycle `t`. -/
def implAt (s : TcSramImpl) (ins : ℕ → SramReq) (t : ℕ) : TcSramImpl :=
  (⟨s, TcSramImpl.step⟩ : Machine TcSramImpl SramReq).stateAt ins t

/-- The content of the macros that stands for an array of words. -/
def pack (boot : Index → Word) (dout : BitVec 2 → BitVec 64) (i : BitVec 2) : Macro where
  mem r := boot (i ++ r ++ 1#1) ++ boot (i ++ r ++ 0#1)
  dout := dout i

/-- An address is put together from its parts. -/
theorem append_parts (a : Index) :
    macroSel a ++ macroAddr a ++ BitVec.ofBool (wordUpper a) = a := by
  refine BitVec.eq_of_getLsbD_eq fun i hi => ?_
  simp only [BitVec.getLsbD_append, BitVec.getLsbD_ofBool, macroSel, macroAddr, wordUpper,
    BitVec.getLsbD_extractLsb']
  by_cases h0 : i < 1
  · obtain rfl : i = 0 := by omega
    simp
  · have h1 : 1 + (i - 1) = i := by omega
    by_cases h12 : i - 1 < 11
    · simp [h0, h1, h12]
    · have h2 : i - 1 - 11 < 2 := by omega
      have h3 : 12 + (i - 1 - 11) = i := by omega
      simp [h0, h12, h2, h3]

theorem packs_pack (boot : Index → Word) (dout : BitVec 2 → BitVec 64) (rAddr : Index)
    (rdata : Word) : Packs (.init (pack boot dout)) ⟨boot, rAddr, rdata⟩ := by
  intro a
  have hparts := append_parts a
  have hrow : ((TcSramImpl.init (pack boot dout)).cut (macroSel a)).mem (macroAddr a) =
      boot (macroSel a ++ macroAddr a ++ 1#1) ++ boot (macroSel a ++ macroAddr a ++ 0#1) := rfl
  rw [hrow]
  cases hupper : wordUpper a with
  | false =>
    rw [hupper] at hparts
    exact (congrArg boot hparts.symm).trans (Bits.low_append _ _).symm
  | true =>
    rw [hupper] at hparts
    exact (congrArg boot hparts.symm).trans (Bits.high_append _ _).symm

theorem packs_stateAt {s : TcSramImpl} {f : TcSram} (h : Packs s f) (ins : ℕ → SramReq) (t : ℕ) :
    Packs (implAt s ins t) (flatAt f ins t) := by
  induction t with
  | zero => exact h
  | succ t ih => exact ih.step (ins t)

/-- **The chip's SRAM is the flat one.** Whatever the content, whatever the output registers hold
out of reset and whatever the requests, a read is answered in the next cycle with the same word. -/
theorem tcSramImpl_refines (boot : Index → Word) (dout : BitVec 2 → BitVec 64) (rAddr : Index)
    (rdata : Word) (ins : ℕ → SramReq) {t : ℕ} (hq : (ins t).reads = true) :
    (implAt (.init (pack boot dout)) ins (t + 1)).rdata =
      (flatAt ⟨boot, rAddr, rdata⟩ ins (t + 1)).rdata :=
  (packs_stateAt (packs_pack boot dout rAddr rdata) ins t).rdata_step hq

/-- Two bytes of the last word of the second macro are written, then the word is read. -/
def writeThenRead : ℕ → SramReq
  | 0 => ⟨true, true, 0x1fff, 0xaabbccdd, 0b0110⟩
  | 1 => ⟨true, false, 0x1fff, 0, 0⟩
  | _ => ⟨false, false, 0, 0, 0⟩

theorem tcSramImpl_refines_writeThenRead :
    (implAt (.init (pack (fun _ => 0x11223344) fun _ => 0)) writeThenRead 2).rdata = 0x11bbcc44 ∧
      (flatAt ⟨fun _ => 0x11223344, 0, 0⟩ writeThenRead 2).rdata = 0x11bbcc44 := by
  have hflat : (flatAt ⟨fun _ => 0x11223344, 0, 0⟩ writeThenRead 2).rdata = 0x11bbcc44 := by
    decide
  exact ⟨(tcSramImpl_refines _ _ _ _ _ rfl).trans hflat, hflat⟩

end Sram

end Croc
