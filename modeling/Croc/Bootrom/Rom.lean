import Croc.Lib.Rv32

/-!
# The boot ROM

The words of `bootrom.sv` and its address decoding. The ROM is divided into blocks of up to 64
words: bits 11 to 8 of the address select the block, bits 7 to 2 the word in it, and a read past
the words of a block is an error.

## Main definitions

* `Bootrom.read`: the word that a read of the ROM returns.
* `Bootrom.fetch`: instruction fetch from the address range of the ROM.
-/

namespace Croc

namespace Bootrom

open Bits (Word)

/-- `_start`, and the reset entry behind it. -/
def startRom : List Word :=
  [0x30445073, 0x10500073, 0x020402B7, 0x0002A023, 0x30405073, 0x00000193, 0x00000213,
    0x00000313, 0x00000393, 0x00000413, 0x00000493, 0x00000513, 0x00000593, 0x00000613,
    0x00000693, 0x00000713, 0x00000793, 0x00000297, 0x1BC28293, 0x30529073, 0x030002B7,
    0x0002A283, 0x00000097, 0x0A808093, 0x00028067, 0x00000000, 0x00000000, 0x00000000,
    0x00000000, 0x00000000, 0x00000000, 0x00000000, 0xF81FF06F]

/-- `_eoc`, the end of computation. -/
def eocRom : List Word :=
  [0x00151293, 0x0012E293, 0x03000337, 0x00532423, 0x10500073]

/-- `_trap_vector_base`: a jump to the wrapper for each of the 32 vectors. -/
def trapVectorRom : List Word :=
  [0x1000006F, 0x0FC0006F, 0x0F80006F, 0x0F40006F, 0x0F00006F, 0x0EC0006F, 0x0E80006F,
    0x0E40006F, 0x0E00006F, 0x0DC0006F, 0x0D80006F, 0x0D40006F, 0x0D00006F, 0x0CC0006F,
    0x0C80006F, 0x0C40006F, 0x0C00006F, 0x0BC0006F, 0x0B80006F, 0x0B40006F, 0x0B00006F,
    0x0AC0006F, 0x0A80006F, 0x0A40006F, 0x0A00006F, 0x09C0006F, 0x0980006F, 0x0940006F,
    0x0900006F, 0x08C0006F, 0x0880006F, 0x0840006F, 0x00000000, 0x00000000, 0x00000000,
    0x00000000, 0x00000000, 0x00000000, 0x00000000, 0x00000000, 0x00000000, 0x00000000,
    0x00000000, 0x00000000, 0x00000000, 0x00000000, 0x00000000, 0x00000000, 0x00000000,
    0x00000000, 0x00000000, 0x00000000, 0x00000000, 0x00000000, 0x00000000, 0x00000000,
    0x00000000, 0x00000000, 0x00000000, 0x00000000, 0x00000000, 0x00000000, 0x00000000,
    0x00000000]

/-- `_trap_handler_wrapper`: saves registers and calls the handler from the table in SRAM. -/
def trapHandlerRom : List Word :=
  [0xFB010113, 0x04112423, 0x04512023, 0x02612C23, 0x02712823, 0x02A12423, 0x02B12023,
    0x00C12C23, 0x00D12823, 0x00E12423, 0x00F12023, 0x100002B7, 0x34202573, 0x00054863,
    0x0042A303, 0x000300E7, 0x0C00006F, 0x00151513, 0x00155513, 0x0082A303, 0x000300E7,
    0x0AC0006F]

/-- `_trap_exit`: restores registers and returns. -/
def trapExitRom : List Word :=
  [0x04812083, 0x04012283, 0x03812303, 0x03012383, 0x02812503, 0x02012583, 0x01812603,
    0x01012683, 0x00812703, 0x00012783, 0x05010113, 0x30200073]

/-- `_cheriot_trap_vector_base`. -/
def cheriotTrapVectorRom : List Word :=
  [0x1000006F]

/-- `_cheriot_trap_handler`. -/
def cheriotTrapHandlerRom : List Word :=
  [0x03D0025B, 0x100002B7, 0x2052025B, 0x00422303, 0x03C002DB, 0x206282DB, 0x00028067]

/-- The block that a value of `rom_select` names. -/
def block (romSelect : BitVec 4) : List Word :=
  match romSelect.toNat with
  | 0 => startRom
  | 1 => eocRom
  | 2 => trapVectorRom
  | 3 => trapHandlerRom
  | 4 => trapExitRom
  | 5 => cheriotTrapVectorRom
  | 6 => cheriotTrapHandlerRom
  | _ => []

/-- The response to a read, `none` for an error. Only the lower 12 bits of the address count. -/
def read (addr : Word) : Option Word :=
  (block (addr.extractLsb' 8 4))[(addr.extractLsb' 2 6).toNat]?

/-- Instruction fetch. The address map gives the ROM the addresses from `0x02000000` up to
`0x02004000`; code that is elsewhere is not run here. -/
def fetch (addr : Word) : Option Word :=
  if 0x02000000 ≤ addr ∧ addr < 0x02004000 then read addr else none

end Bootrom

end Croc
