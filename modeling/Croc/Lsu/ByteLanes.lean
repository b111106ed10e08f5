import Croc.Lsu.Issue
import Croc.Lib.ByteMemory

/-!
# Byte lanes

A load or store of the base instruction set is an access of a byte memory: a word, a halfword or a
byte at any address, in little-endian order, with what is loaded extended by its sign or by zeros.
The load/store unit makes it out of one or two accesses of a word memory. Here is what its byte
enables, the rotation of the store data and the merging of the load data come to.

## Main definitions

* `Rv32Access.stored`, `Rv32Access.loaded`: what an instruction does to a byte memory.
* `Rv32Access.first`, `Rv32Access.second`: what its accesses do to the word memory.

## Main results

* `Rv32Access.bytes_first`, `Rv32Access.bytes_second`: the accesses of a store make up the store.
* `LoadStoreUnit.dataRdataExt_eq`: the responses of a load make up the load.
-/

namespace Croc

namespace Lsu

open Cheriot Revocation ByteMemory

open Bits (Word)

/-! ### What the instructions are for -/

/-- The number of bytes of an access. -/
def accessSize (lsuType : BitVec 2) : ℕ :=
  match lsuType.toNat with
  | 0 => 4
  | 1 => 2
  | _ => 1

/-- Extension to a word, by the sign or by zeros. -/
def extend {w : ℕ} (signExt : Bool) (v : BitVec w) : Word :=
  if signExt then v.signExtend 32 else v.setWidth 32

namespace Rv32Access

variable (a : Rv32Access)

/-- The memory after a store. -/
def stored (M : ByteMem) : ByteMem := M.store a.addr (accessSize a.lsuType) a.wdata

/-- What a load returns. -/
def loaded (M : ByteMem) : Word :=
  match a.lsuType.toNat with
  | 0 => M.word a.addr
  | 1 => extend a.signExt (M.half a.addr)
  | _ => extend a.signExt (M a.addr)

/-! ### The accesses of the word memory -/

/-- The offset in the word. -/
def offset : BitVec 2 := a.addr.extractLsb' 0 2

/-- The data of a store, rotated to its lanes. -/
def rotated : Word := ((Access.rv32 a).request false true false 0).wdataInt false

/-- The word memory after the first access. -/
def first (m : WordMem) : WordMem :=
  if a.we then m.write (wordIndex a.addr) a.rotated (byteEnable a.lsuType false a.offset) else m

/-- The word memory after the second access. -/
def second (m : WordMem) : WordMem :=
  if a.we then m.write (wordIndex a.addr + 1) a.rotated (byteEnable a.lsuType true a.offset) else m

end Rv32Access

/-! ### Stores -/

theorem byteEnable_first (ty off : BitVec 2) : ∀ k < 4, (byteEnable ty false off).getLsbD k = true ↔
    off.toNat ≤ k ∧ k < off.toNat + accessSize ty := by
  revert ty off
  decide

/-- The second access is for a word that is not aligned, or for a halfword at the end of a word. -/
theorem byteEnable_second {ty off : BitVec 2} (h : (ty = 0 ∧ off ≠ 0) ∨ (ty = 1 ∧ off = 3)) :
    ∀ k < 4, (byteEnable ty true off).getLsbD k = true ↔ k + 4 < off.toNat + accessSize ty := by
  revert ty off
  decide

theorem accessSize_le (ty : BitVec 2) : accessSize ty ≤ 4 := by
  revert ty
  decide

/-- Any other access stays in its word. -/
theorem offset_add_size_le {ty off : BitVec 2} (h : ¬ ((ty = 0 ∧ off ≠ 0) ∨ (ty = 1 ∧ off = 3))) :
    off.toNat + accessSize ty ≤ 4 := by
  revert ty off
  decide

/-- **Rotation.** Each lane has the byte that belongs there. -/
theorem byteOf_wdataInt (q : Request) (enable : Bool) {k : ℕ} (hk : k < 4) :
    byteOf (q.wdataInt enable) k = byteOf q.wdata ((k + 4 - (q.dataOffset enable).toNat) % 4) := by
  have hoff := (q.dataOffset enable).isLt
  apply BitVec.eq_of_getLsbD_eq
  intro i hi
  rw [Request.wdataInt, byteOf, byteOf, BitVec.getLsbD_extractLsb', BitVec.getLsbD_extractLsb']
  split
  next h => rw [h, Nat.sub_zero, Nat.add_mod_right, Nat.mod_eq_of_lt hk]
  all_goals
    rw [BitVec.getLsbD_append, BitVec.getLsbD_extractLsb', BitVec.getLsbD_extractLsb']
    grind

namespace Rv32Access

variable {a : Rv32Access} {m : WordMem}

theorem byteOf_rotated (k : ℕ) (hk : k < 4) :
    byteOf a.rotated k = byteOf a.wdata ((k + 4 - lane a.addr) % 4) :=
  byteOf_wdataInt _ _ hk

/-- **A store within one word.** -/
theorem bytes_first (hwe : a.we = true) (h : ¬ (Access.rv32 a).Splits) :
    (a.first m).bytes = a.stored m.bytes := by
  rw [first, if_pos hwe]
  exact m.bytes_write_one a.addr (offset_add_size_le h) (byteEnable_first _ _) byteOf_rotated

/-- **A store that crosses into the next word.** -/
theorem bytes_second (hwe : a.we = true) (h : (Access.rv32 a).Splits) :
    (a.second (a.first m)).bytes = a.stored m.bytes := by
  rw [first, if_pos hwe, second, if_pos hwe]
  exact m.bytes_write_write a.addr (accessSize_le _) (byteEnable_first _ _) (byteEnable_second h)
    byteOf_rotated

end Rv32Access

/-! ### Loads -/

theorem eq_of_width_two (x : BitVec 2) : x = 0 ∨ x = 1 ∨ x = 2 ∨ x = 3 := by
  revert x
  decide

namespace LoadStoreUnit

variable {s : LoadStoreUnit} {b : BusIn} {a : Rv32Access} {m : WordMem}

/-- The first word has what a load within one word returns. -/
theorem extract_double_of_le {start len : ℕ} (h : start + len ≤ 32) :
    (m.double a.addr).extractLsb' start len = (m (wordIndex a.addr)).extractLsb' start len := by
  apply BitVec.eq_of_getLsbD_eq
  intro i hi
  rw [BitVec.getLsbD_extractLsb', BitVec.getLsbD_extractLsb', WordMem.double, BitVec.getLsbD_append,
    if_pos (by omega)]

/-- The second word is on the port and the first one has been kept. -/
def Merging (s : LoadStoreUnit) (b : BusIn) (a : Rv32Access) (m : WordMem) : Prop :=
  b.rsp.data = m (wordIndex a.addr + 1) ∧ s.rdataQ = (m (wordIndex a.addr)).extractLsb' 8 24

/-- A value that starts in the first word and ends in the second. -/
theorem Merging.append_eq (h : s.Merging b a m) {start k len : ℕ} (hstart : 8 + start + k = 32) :
    b.rsp.data.extractLsb' 0 len ++ s.rdataQ.extractLsb' start k =
      (m.double a.addr).extractLsb' (8 + start) (len + k) := by
  apply BitVec.eq_of_getLsbD_eq
  intro i hi
  rw [BitVec.getLsbD_append, BitVec.getLsbD_extractLsb', BitVec.getLsbD_extractLsb',
    BitVec.getLsbD_extractLsb', h.1, h.2, WordMem.double, BitVec.getLsbD_append,
    BitVec.getLsbD_extractLsb']
  grind

section Parts

variable (hoff : s.rdataOffset = a.offset)
include hoff

theorem rdataWExt_eq (hone : a.offset = 0 → b.rsp.data = m (wordIndex a.addr))
    (htwo : a.offset ≠ 0 → s.Merging b a m) :
    s.rdataWExt b = (m.double a.addr).extractLsb' (8 * lane a.addr) 32 := by
  have hlane : lane a.addr = a.offset.toNat := rfl
  rw [rdataWExt, hoff, hlane]
  rcases eq_of_width_two a.offset with h | h | h | h
  · rw [h, extract_double_of_le (by decide), ← hone h]
    exact BitVec.extractLsb'_eq_self.symm
  · have hq : s.rdataQ = s.rdataQ.extractLsb' 0 24 := BitVec.extractLsb'_eq_self.symm
    rw [h, hq]
    exact (htwo (by rw [h]; decide)).append_eq rfl
  · rw [h]
    exact (htwo (by rw [h]; decide)).append_eq rfl
  · rw [h]
    exact (htwo (by rw [h]; decide)).append_eq rfl

theorem rdataHalf_eq (hone : a.offset ≠ 3 → b.rsp.data = m (wordIndex a.addr))
    (htwo : a.offset = 3 → s.Merging b a m) :
    s.rdataHalf b = (m.double a.addr).extractLsb' (8 * lane a.addr) 16 := by
  have hlane : lane a.addr = a.offset.toNat := rfl
  rw [rdataHalf, hoff, hlane]
  rcases eq_of_width_two a.offset with h | h | h | h
  · rw [extract_double_of_le (by rw [h]; decide), ← hone (by rw [h]; decide), h]
    rfl
  · rw [extract_double_of_le (by rw [h]; decide), ← hone (by rw [h]; decide), h]
    rfl
  · rw [extract_double_of_le (by rw [h]; decide), ← hone (by rw [h]; decide), h]
    rfl
  · rw [h]
    exact (htwo h).append_eq rfl

theorem rdataByte_eq (hone : b.rsp.data = m (wordIndex a.addr)) :
    s.rdataByte b = (m.double a.addr).extractLsb' (8 * lane a.addr) 8 := by
  have hlane := lane_lt a.addr
  rw [rdataByte, hoff, hone, extract_double_of_le (by omega)]
  rfl

/-- **What a load returns.** The unit puts it together from the last response and from what it has
kept of the first one. -/
theorem dataRdataExt_eq (htype : s.dataType = a.lsuType) (hsign : s.dataSignExt = a.signExt)
    (hone : ¬ (Access.rv32 a).Splits → b.rsp.data = m (wordIndex a.addr))
    (htwo : (Access.rv32 a).Splits → s.Merging b a m) :
    s.dataRdataExt b = a.loaded m.bytes := by
  rw [dataRdataExt, Rv32Access.loaded, htype, hsign, WordMem.word_eq, WordMem.half_eq,
    WordMem.bytes_eq]
  have hsplits : (Access.rv32 a).Splits ↔
      (a.lsuType = 0 ∧ a.offset ≠ 0) ∨ (a.lsuType = 1 ∧ a.offset = 3) := Iff.rfl
  rcases eq_of_width_two a.lsuType with h | h | h | h
  · have hword := rdataWExt_eq hoff (fun h0 => hone (by simp [hsplits, h, h0]))
      fun h0 => htwo (hsplits.mpr (.inl ⟨h, h0⟩))
    rw [h]
    exact hword
  · have hhalf := rdataHalf_eq hoff (fun h3 => hone (by simpa [hsplits, h] using h3))
      fun h3 => htwo (hsplits.mpr (.inr ⟨h, h3⟩))
    rw [h, hhalf]
    rfl
  · have hbyte := rdataByte_eq hoff (hone (by simp [hsplits, h]))
    rw [h, hbyte]
    rfl
  · have hbyte := rdataByte_eq hoff (hone (by simp [hsplits, h]))
    rw [h, hbyte]
    rfl

end Parts

end LoadStoreUnit

end Lsu

end Croc
