import Mathlib.Logic.Function.Basic
import Croc.Lib.Bits
import Croc.Lib.Clocked
import Croc.Cheriot.Capability

/-!
# The revocation bitmap memory

`revc_bitmap_memory` holds the revocation bitmap. It has two ports: the data port of the crossbar,
through which software paints the bitmap, and the lookup port of the load filter. Both ports are
granted in every cycle. Only one of them is served: a data access that falls into the window takes
the memory, and a lookup is served in the cycles that are left.

## Main definitions

* `BitmapParams`: where the bitmap lies.
* `BitmapMemory`, `BitmapMemory.step`: the state and one clock edge.
* `BitmapIn.dataHit`, `BitmapIn.lookup`: the requests of a cycle that fall into the window.

## Main results

* `BitmapMemory.trvkRvalid_step`: a lookup is answered exactly if no data access takes the memory.
* `BitmapMemory.trvkRdata_step`: the answer is the addressed word.
* `BitmapMemory.bitmap_step`: the bitmap changes by a data write only.
-/

namespace Croc

namespace Revocation

open Cheriot Clocked

open Bits (Word)

/-- Where the bitmap lies. The window does not wrap around the address space. -/
structure BitmapParams where
  /-- `BitmapBase`. -/
  base : Word
  /-- `BitmapNumbWords`. -/
  numbWords : ℕ
  /-- `BitmapEnd` is a 32-bit address. -/
  fits : base.toNat + 4 * numbWords < 2 ^ 32

namespace BitmapParams

variable (P : BitmapParams)

/-- `BitmapEnd`. -/
def bitmapEnd : Word := P.base + BitVec.ofNat 32 (P.numbWords * 4)

/-- The range check on an address. -/
def inRange (addr : Word) : Bool := P.base ≤ addr && addr < P.bitmapEnd

/-- `word_index`. -/
def wordIndex (addr : Word) : ℕ := ((addr - P.base) >>> 2).toNat

theorem toNat_bitmapEnd : P.bitmapEnd.toNat = P.base.toNat + 4 * P.numbWords := by
  have := P.fits
  rw [bitmapEnd, BitVec.toNat_add, BitVec.toNat_ofNat]
  omega

theorem inRange_iff {addr : Word} : P.inRange addr = true ↔
    P.base.toNat ≤ addr.toNat ∧ addr.toNat < P.base.toNat + 4 * P.numbWords := by
  simp [inRange, BitVec.le_def, BitVec.lt_def, toNat_bitmapEnd]

theorem wordIndex_eq {addr : Word} (h : P.inRange addr = true) :
    P.wordIndex addr = (addr.toNat - P.base.toNat) / 4 := by
  have hr := P.inRange_iff.mp h
  have := addr.isLt
  rw [wordIndex, BitVec.toNat_ushiftRight, BitVec.toNat_sub, Nat.shiftRight_eq_div_pow]
  congr 1
  omega

end BitmapParams

/-- The bitmap of the SoC: 256 words at `0x1002_0000`. -/
def crocBitmap : BitmapParams := ⟨0x10020000, 256, by decide⟩

/-- A request on the data port. -/
structure DataReq where
  /-- `data_req_i`. -/
  req : Bool
  /-- `data_we_i`. -/
  we : Bool
  /-- `data_addr_i`. -/
  addr : Word
  /-- `data_wdata_i`. -/
  wdata : Word
  /-- `data_be_i`. -/
  be : BitVec 4
  deriving DecidableEq, Repr, Inhabited

/-- The inputs of one cycle. -/
structure BitmapIn where
  /-- The data port. -/
  data : DataReq
  /-- `trvk_revbm_req_i`. -/
  trvkReq : Bool
  /-- `trvk_revbm_addr_i`. -/
  trvkAddr : Word
  deriving DecidableEq, Repr, Inhabited

/-- `mode_t`. -/
inductive Mode
  | idle
  | trvkRead
  | read
  | write
  deriving DecidableEq, Repr

/-- The registers of the memory. -/
structure BitmapMemory where
  /-- `rev_bitmap_q`, by word. -/
  bitmap : ℕ → Word
  /-- `trvk_rdata_q`. -/
  trvkRdata : Word
  /-- `trvk_rvalid_q`. -/
  trvkRvalid : Bool
  /-- `rdata_q`. -/
  rdata : Word
  /-- `rvalid_q`. -/
  rvalid : Bool

namespace BitmapIn

variable (P : BitmapParams) (i : BitmapIn)

/-- The data port accesses the bitmap. -/
def dataHit : Bool := P.inRange i.data.addr && i.data.req

/-- The lookup port asks for a word of the bitmap. -/
def lookup : Bool := P.inRange i.trvkAddr && i.trvkReq

/-- `mode`. -/
def mode : Mode :=
  if i.dataHit P then
    if i.data.we then .write else .read
  else if i.lookup P then .trvkRead
  else .idle

end BitmapIn

namespace BitmapMemory

variable (P : BitmapParams)

/-- The memory out of reset. -/
def init : BitmapMemory := ⟨fun _ => 0, 0, false, 0, false⟩

/-- `trvk_revbm_gnt_o`, tied high. -/
def trvkGnt (_ : BitmapMemory) : Bool := true

/-- `trvk_revbm_err_o`, tied low. -/
def trvkErr (_ : BitmapMemory) : Bool := false

/-- `data_gnt_o`, tied high. -/
def dataGnt (_ : BitmapMemory) : Bool := true

/-- One clock edge. -/
def step (m : BitmapMemory) (i : BitmapIn) : BitmapMemory :=
  let held := { m with trvkRvalid := false, rvalid := false }
  match i.mode P with
  | .write =>
    let wordIndex := P.wordIndex i.data.addr
    { held with
      bitmap := Function.update m.bitmap wordIndex
        (Bits.mergeBytes (m.bitmap wordIndex) i.data.wdata i.data.be)
      rvalid := true }
  | .trvkRead => { held with trvkRdata := m.bitmap (P.wordIndex i.trvkAddr), trvkRvalid := true }
  | .read => { held with rdata := m.bitmap (P.wordIndex i.data.addr), rvalid := true }
  | .idle => held

/-- The memory as a clocked machine. -/
def machine : Machine BitmapMemory BitmapIn := ⟨init, step P⟩

variable {P} (m : BitmapMemory) (i : BitmapIn)

/-- **Arbitration.** A lookup is answered in the next cycle exactly if the data port leaves the
memory free. -/
theorem trvkRvalid_step : (m.step P i).trvkRvalid = (i.lookup P && !i.dataHit P) := by
  cases hd : i.dataHit P
  · cases hl : i.lookup P <;> simp [step, BitmapIn.mode, hd, hl]
  · cases hw : i.data.we <;> simp [step, BitmapIn.mode, hd, hw]

variable {m i}

/-- A lookup that is served is answered with the addressed word, as it was in the lookup's cycle. -/
theorem trvkRdata_step (hl : i.lookup P = true) (hd : i.dataHit P = false) :
    (m.step P i).trvkRdata = m.bitmap (P.wordIndex i.trvkAddr) := by
  simp [step, BitmapIn.mode, hd, hl]

/-- A data write replaces the enabled bytes of the addressed word and nothing else. -/
theorem bitmap_step (hd : i.dataHit P = true) (hw : i.data.we = true) :
    (m.step P i).bitmap = Function.update m.bitmap (P.wordIndex i.data.addr)
      (Bits.mergeBytes (m.bitmap (P.wordIndex i.data.addr)) i.data.wdata i.data.be) := by
  simp [step, BitmapIn.mode, hd, hw]

/-- Whatever is not a data write leaves the bitmap as it is. -/
theorem bitmap_step_of_not_write (h : (i.dataHit P && i.data.we) = false) :
    (m.step P i).bitmap = m.bitmap := by
  cases hd : i.dataHit P
  · cases hl : i.lookup P <;> simp [step, BitmapIn.mode, hd, hl]
  · have hw : i.data.we = false := by simpa [hd] using h
    simp [step, BitmapIn.mode, hd, hw]

/-- A data read is answered in the next cycle with the addressed word. -/
theorem rdata_step (hd : i.dataHit P = true) (hw : i.data.we = false) :
    (m.step P i).rvalid = true ∧ (m.step P i).rdata = m.bitmap (P.wordIndex i.data.addr) := by
  simp [step, BitmapIn.mode, hd, hw]

end BitmapMemory

end Revocation

end Croc
