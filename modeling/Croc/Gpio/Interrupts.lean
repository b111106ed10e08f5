import Croc.Cells
import Croc.Gpio.Registers

/-!
# GPIO interrupts

`gpio` samples every pin through a synchroniser and compares the sample with the one before. The
edge that is selected for the pin sets its bit of the interrupt status, if the pin is an enabled
input and its interrupt is enabled. The interrupt line is the disjunction of the bits.

The registers and the pins run side by side: software may read the status in any cycle, also in the
one in which an edge arrives, and may change the registers that decide which edges count. What a
read returns is told here from the waveforms of the pins and the requests on the bus alone, not from
the registers of the block: the direction, the enables and the edge of a pin are what the writes on
the bus have left.

## Main definitions

* `Config`: the number of pins and of synchroniser stages.
* `Gpio`, `Gpio.next`: the block.
* `Gpio.lastWritten`: a bit of a setting as the writes on the bus leave it.
* `Gpio.Detects`: the selected edge of a pin is detected in a cycle, on the waveform.
* `Gpio.statusRsp`: a read of the interrupt status is answered in a cycle, on the bus.

## Main results

* `Gpio.serialD_stateAt`, `Gpio.serialQ_stateAt`: the samples as delays of the waveform.
* `Gpio.setting_stateAt`: a setting holds what was last written to it.
* `Gpio.intrpt_iff_unread`: a bit of the status says that an edge is unread.
* `Gpio.interruptStatus_exact`: what a read of the status returns, and when the line is high.
-/

namespace Croc

namespace Pins

open Clocked ObiPort

/-! ### The block -/

/-- The parameters of the block. -/
structure Config where
  /-- `GpioCount`. -/
  gpioCount : ℕ
  /-- `NrSyncStages`. -/
  nrSyncStages : ℕ
  /-- The registers fit the bus. -/
  gpioCount_le : gpioCount ≤ 32
  /-- There is at least one stage. -/
  nrSyncStages_pos : 0 < nrSyncStages

/-- The state of `gpio`. -/
structure Gpio (cfg : Config) where
  /-- `i_reg_file`. -/
  regFile : RegTop cfg.gpioCount
  /-- `i_sync` of each pin. -/
  sync : ℕ → Sync cfg.nrSyncStages
  /-- `serial_q` of each pin. -/
  serialQ : ℕ → Bool

/-- The inputs of the block in one cycle. -/
structure GpioIn (cfg : Config) where
  /-- `gpio_i`. -/
  gpioI : BitVec cfg.gpioCount
  /-- `obi_req_i`. -/
  obi : ObiReq
  deriving DecidableEq, Repr, Inhabited

namespace Gpio

variable {cfg : Config} (s : Gpio cfg) (idx : ℕ)

/-- The block out of reset. -/
def init : Gpio cfg := ⟨RegTop.init, fun _ => 0, fun _ => false⟩

/-- `serial_d`. -/
def serialD : Bool := (s.sync idx).serialO

/-- `f_edge`. -/
def fEdge : Bool := !s.serialD idx && s.serialQ idx

/-- `r_edge`. -/
def rEdge : Bool := s.serialD idx && !s.serialQ idx

/-- `gpio_edge`. -/
def gpioEdge : Bool := if s.regFile.reg.intrptEdge.getLsbD idx then s.rEdge idx else s.fEdge idx

/-- `is_input`. -/
def isInput : Bool := s.regFile.reg.en.getLsbD idx && !s.regFile.reg.dir.getLsbD idx

/-- `is_output`. -/
def isOutput : Bool := s.regFile.reg.en.getLsbD idx && s.regFile.reg.dir.getLsbD idx

/-- `gpio_intrpt`. -/
def gpioIntrpt : Bool := s.gpioEdge idx && s.regFile.reg.intrptEn.getLsbD idx && s.isInput idx

/-- A pin whose output is toggled by the request. -/
def toggles (q : ObiReq) : Bool :=
  s.isOutput idx && (toggleOut q : BitVec cfg.gpioCount).getLsbD idx

/-- `hw2reg`. -/
def hw2reg (q : ObiReq) : Hw2reg cfg.gpioCount where
  syncIn := Bits.ofFn fun idx => s.serialQ idx && s.isInput idx
  out := Bits.ofFn fun idx => if s.toggles idx q then !s.regFile.reg.out.getLsbD idx else false
  outValid := Bits.ofFn fun idx => s.toggles idx q
  intrpt := Bits.ofFn s.gpioIntrpt
  intrptValid := Bits.ofFn s.gpioIntrpt

/-- `gpio_o`. -/
def gpioO : BitVec cfg.gpioCount :=
  Bits.ofFn fun idx => s.regFile.reg.out.getLsbD idx && s.isOutput idx

/-- `gpio_out_en_o`. -/
def gpioOutEn : BitVec cfg.gpioCount := Bits.ofFn s.isOutput

/-- `gpio_in_sync_o`. -/
def gpioInSync : BitVec cfg.gpioCount := Bits.ofFn s.serialQ

/-- `interrupt_o`. -/
def interruptO : Bool :=
  (List.range cfg.gpioCount).foldl
    (fun pending idx => pending || s.regFile.reg.intrpt.getLsbD idx) false

/-- One clock edge. -/
def next (i : GpioIn cfg) : Gpio cfg where
  regFile := s.regFile.next i.obi (s.hw2reg i.obi)
  sync := fun idx => (s.sync idx).next (i.gpioI.getLsbD idx)
  serialQ := s.serialD

/-- The block as a machine. -/
def machine : Machine (Gpio cfg) (GpioIn cfg) := ⟨init, next⟩

/-! ### Edges and reads, as seen from outside -/

section Outside

variable (ins : ℕ → GpioIn cfg)

/-- The waveform of a pin. -/
def pin (t : ℕ) : Bool := (ins t).gpioI.getLsbD idx

/-- The bit of a pin in a setting at the start of cycle `t`, as the bus tells it: what the last
write that enables its byte has brought, or zero from reset on. -/
def lastWritten (c : Setting) : ℕ → Bool
  | 0 => false
  | t + 1 =>
    if writesSetting (ins t).obi c && (ins t).obi.be.getLsbD (idx / 8) then
      (ins t).obi.wdata.getLsbD idx
    else lastWritten c t

/-- The selected edge of a pin is detected in cycle `t` while the pin is an enabled input with its
interrupt enabled: through the synchroniser the pin now has the selected level, and had the other
one a cycle before. -/
def Detects (t : ℕ) : Prop :=
  lastWritten idx ins .en t = true ∧ lastWritten idx ins .dir t = false ∧
    lastWritten idx ins .intrptEn t = true ∧
    Sync.delayed (pin idx ins) cfg.nrSyncStages t = lastWritten idx ins .intrptEdge t ∧
    Sync.delayed (pin idx ins) (cfg.nrSyncStages + 1) t = !lastWritten idx ins .intrptEdge t

/-- The request reads the interrupt status. -/
def readsStatus (q : ObiReq) : Bool :=
  q.req && !q.we && offsetOf (wordAddr q) == intrptStatusOffset

/-- A read of the interrupt status is answered in cycle `t`: it was requested the cycle before. -/
def statusRsp : ℕ → Prop
  | 0 => False
  | t + 1 => readsStatus (ins t).obi = true

end Outside

/-! ### The samples -/

variable {s idx} {ins : ℕ → GpioIn cfg}

theorem sync_stateAt (t : ℕ) :
    (machine.stateAt ins t).sync idx = Sync.machine.stateAt (pin idx ins) t := by
  induction t with
  | zero => rfl
  | succ t ih =>
    have hstep : (machine.stateAt ins (t + 1)).sync idx =
        ((machine.stateAt ins t).sync idx).next (pin idx ins t) := rfl
    rw [hstep, ih]
    rfl

theorem serialD_stateAt (t : ℕ) :
    (machine.stateAt ins t).serialD idx = Sync.delayed (pin idx ins) cfg.nrSyncStages t := by
  rw [serialD, sync_stateAt]
  exact Sync.serialO_stateAt _ t cfg.nrSyncStages_pos

theorem serialQ_stateAt (t : ℕ) :
    (machine.stateAt ins t).serialQ idx = Sync.delayed (pin idx ins) (cfg.nrSyncStages + 1) t := by
  cases t with
  | zero => rfl
  | succ t =>
    rw [Sync.delayed_succ, ← serialD_stateAt]
    rfl

/-- **A setting holds what was last written to it.** -/
theorem setting_stateAt (hidx : idx < cfg.gpioCount) (c : Setting) (t : ℕ) :
    ((machine.stateAt ins t).regFile.reg.setting c).getLsbD idx = lastWritten idx ins c t := by
  induction t with
  | zero => cases c <;> exact BitVec.getLsbD_zero
  | succ t ih =>
    have hstep : (machine.stateAt ins (t + 1)).regFile = (machine.stateAt ins t).regFile.next
        (ins t).obi ((machine.stateAt ins t).hw2reg (ins t).obi) := rfl
    rw [hstep, RegTop.setting_next c hidx (Nat.lt_of_lt_of_le hidx cfg.gpioCount_le), ih,
      lastWritten]

/-- The selected edge: the sample has the selected level, the one before has the other. -/
theorem gpioEdge_iff : s.gpioEdge idx = true ↔
    s.serialD idx = s.regFile.reg.intrptEdge.getLsbD idx ∧
      s.serialQ idx = !s.regFile.reg.intrptEdge.getLsbD idx := by
  rw [gpioEdge, rEdge, fEdge]
  cases s.regFile.reg.intrptEdge.getLsbD idx <;> simp

/-- A pin reports an interrupt exactly if its edge is detected. -/
theorem gpioIntrpt_iff (hidx : idx < cfg.gpioCount) (t : ℕ) :
    (machine.stateAt ins t).gpioIntrpt idx = true ↔ Detects idx ins t := by
  rw [Detects, ← setting_stateAt hidx .en, ← setting_stateAt hidx .dir,
    ← setting_stateAt hidx .intrptEn, ← setting_stateAt hidx .intrptEdge, gpioIntrpt, isInput,
    Bool.and_eq_true, Bool.and_eq_true, Bool.and_eq_true, Bool.not_eq_true', gpioEdge_iff,
    serialD_stateAt, serialQ_stateAt]
  constructor
  · rintro ⟨⟨⟨hnow, hbefore⟩, hintrptEn⟩, hen, hdir⟩
    exact ⟨hen, hdir, hintrptEn, hnow, hbefore⟩
  · rintro ⟨hen, hdir, hintrptEn, hnow, hbefore⟩
    exact ⟨⟨⟨hnow, hbefore⟩, hintrptEn⟩, hen, hdir⟩

theorem statusRead_iff (t : ℕ) :
    (machine.stateAt ins t).regFile.statusRead = true ↔ statusRsp ins t := by
  cases t with
  | zero => exact iff_of_false Bool.false_ne_true id
  | succ t => exact Iff.rfl

/-! ### The status -/

/-- **One step** of a bit of the status. -/
theorem intrpt_succ (hidx : idx < cfg.gpioCount) (t : ℕ) :
    (machine.stateAt ins (t + 1)).regFile.reg.intrpt.getLsbD idx = true ↔
      Detects idx ins t ∨
        (machine.stateAt ins t).regFile.reg.intrpt.getLsbD idx = true ∧ ¬statusRsp ins t := by
  have hstep : (machine.stateAt ins (t + 1)).regFile =
      (machine.stateAt ins t).regFile.next (ins t).obi
      ((machine.stateAt ins t).hw2reg (ins t).obi) := rfl
  have hhw : ((machine.stateAt ins t).hw2reg (ins t).obi).intrpt.getLsbD idx =
      (machine.stateAt ins t).gpioIntrpt idx := by
    simp only [hw2reg, Bits.getLsbD_ofFn, decide_eq_true hidx, Bool.true_and]
  rw [hstep, RegTop.intrpt_next rfl hidx, hhw, Bool.or_eq_true, gpioIntrpt_iff hidx,
    Bool.and_eq_true, Bool.not_eq_true', ← Bool.not_eq_true, statusRead_iff]

/-- **A bit of the status** says that an edge of its pin has not been read. -/
theorem intrpt_iff_unread (hidx : idx < cfg.gpioCount) (t : ℕ) :
    (machine.stateAt ins t).regFile.reg.intrpt.getLsbD idx = true ↔
      Unread (Detects idx ins) (statusRsp ins) t := by
  let flag : ℕ → Prop := fun t => (machine.stateAt ins t).regFile.reg.intrpt.getLsbD idx = true
  have hinit : (machine.stateAt ins 0).regFile.reg.intrpt.getLsbD idx = false := BitVec.getLsbD_zero
  have hclear : ¬flag 0 := fun h => Bool.false_ne_true (hinit.symm.trans h)
  exact iff_unread hclear (intrpt_succ hidx) t

theorem interruptO_iff (s : Gpio cfg) :
    s.interruptO = true ↔ ∃ idx, idx < cfg.gpioCount ∧ s.regFile.reg.intrpt.getLsbD idx = true := by
  have hfold : ∀ (l : List ℕ) (b : Bool),
      l.foldl (fun pending idx => pending || s.regFile.reg.intrpt.getLsbD idx) b =
        (b || l.any fun idx => s.regFile.reg.intrpt.getLsbD idx) := by
    intro l
    induction l with
    | nil => simp
    | cons idx l ih =>
      intro b
      rw [List.foldl_cons, ih, List.any_cons, Bool.or_assoc]
  rw [interruptO, hfold, Bool.false_or, List.any_eq_true]
  simp only [List.mem_range]

/-- **The interrupt status is exact.** For any waveforms of the pins and any requests on the bus,
the response to a read of the interrupt status has the bit of a pin set exactly if the selected edge
of the pin was detected since the response to the read before, in whose own cycle it counts, or
since reset. The line is high exactly while such an edge has not been read. -/
theorem interruptStatus_exact (ins : ℕ → GpioIn cfg) (t : ℕ) :
    (statusRsp ins t →
      let rsp := (machine.stateAt ins t).regFile.obiRsp
      rsp.rvalid = true ∧ rsp.err = false ∧
        ∀ idx, rsp.rdata.getLsbD idx = true ↔
          idx < cfg.gpioCount ∧ Unread (Detects idx ins) (statusRsp ins) t) ∧
    ((machine.stateAt ins t).interruptO = true ↔
      ∃ idx, idx < cfg.gpioCount ∧ Unread (Detects idx ins) (statusRsp ins) t) := by
  constructor
  · intro hrsp rsp
    have hread : rsp.rdata = (machine.stateAt ins t).regFile.reg.intrpt.setWidth 32 ∧
        rsp.err = false :=
      Prod.mk.inj (RegTop.read_status ((statusRead_iff t).mpr hrsp))
    refine ⟨?_, hread.2, fun idx => ?_⟩
    · cases t with
      | zero => exact hrsp.elim
      | succ t =>
        simp only [statusRsp, readsStatus, Bool.and_eq_true] at hrsp
        exact hrsp.1.1
    · rw [hread.1, BitVec.getLsbD_setWidth]
      by_cases hidx : idx < cfg.gpioCount
      · have h32 : idx < 32 := Nat.lt_of_lt_of_le hidx cfg.gpioCount_le
        simp only [decide_eq_true h32, Bool.true_and, hidx, true_and]
        exact intrpt_iff_unread hidx t
      · rw [BitVec.getLsbD_of_ge _ idx (Nat.le_of_not_lt hidx), Bool.and_false]
        exact iff_of_false Bool.false_ne_true fun h => hidx h.1
  · rw [interruptO_iff]
    refine exists_congr fun idx => and_congr_right fun hidx => intrpt_iff_unread hidx t

/-- The block on the chip. -/
def chip : Config := ⟨32, 2, by decide, by decide⟩

/-- Pin 0 is enabled as an input, with its interrupt on a rising edge. It rises in cycle 3, and the
status is read in cycle 6 and again in cycle 8. -/
def risingEdge (t : ℕ) : GpioIn chip where
  gpioI := if 3 ≤ t then 1 else 0
  obi :=
    match t with
    | 0 => ⟨true, 0x080, true, 0b1111, 1, 0⟩
    | 1 => ⟨true, 0x280, true, 0b0001, 1, 0⟩
    | 2 => ⟨true, 0x380, true, 0b1111, 1, 0⟩
    | 6 | 8 => ⟨true, 0x300, false, 0b1111, 0, 0⟩
    | _ => default

/-- The edge is detected when it has gone through the synchroniser, raises the line, is reported by
the first read and not by the second. -/
theorem interruptStatus_exact_risingEdge :
    Detects 0 risingEdge 5 ∧
      (machine.stateAt risingEdge 5).interruptO = false ∧
      (machine.stateAt risingEdge 6).interruptO = true ∧
      statusRsp risingEdge 7 ∧ (machine.stateAt risingEdge 7).regFile.obiRsp.rdata = 1 ∧
      Unread (Detects 0 risingEdge) (statusRsp risingEdge) 7 ∧
      (machine.stateAt risingEdge 8).interruptO = false ∧
      statusRsp risingEdge 9 ∧ (machine.stateAt risingEdge 9).regFile.obiRsp.rdata = 0 ∧
      ¬Unread (Detects 0 risingEdge) (statusRsp risingEdge) 9 := by
  have hdetects : Detects 0 risingEdge 5 :=
    ⟨by decide, by decide, by decide, by decide, by decide⟩
  have hread7 : statusRsp risingEdge 7 := show readsStatus (risingEdge 6).obi = true by decide
  have hread9 : statusRsp risingEdge 9 := show readsStatus (risingEdge 8).obi = true by decide
  have hdata7 : (machine.stateAt risingEdge 7).regFile.obiRsp.rdata = 1 := by decide +kernel
  have hdata9 : (machine.stateAt risingEdge 9).regFile.obiRsp.rdata = 0 := by decide +kernel
  have h7 := (((interruptStatus_exact risingEdge 7).1 hread7).2.2 0).mp (by rw [hdata7]; decide)
  have h9 : ¬Unread (Detects 0 risingEdge) (statusRsp risingEdge) 9 := by
    intro hunread
    have hbit := (((interruptStatus_exact risingEdge 9).1 hread9).2.2 0).mpr ⟨by decide, hunread⟩
    rw [hdata9] at hbit
    exact absurd hbit (by decide)
  exact ⟨hdetects, by decide +kernel, by decide +kernel, hread7, hdata7, h7.2, by decide +kernel,
    hread9, hdata9, h9⟩

end Gpio

end Pins

end Croc
