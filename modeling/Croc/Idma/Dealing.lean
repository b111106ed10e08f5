import Croc.Idma.Backend

/-!
# Bytes and lanes

Byte `k` of a transfer is read at some position of a word, passes through lane `k mod 4` and is
written at some position of another word. The read shifter undoes the offset of the source, the
write shifter makes that of the destination, so between them a byte only knows its place in the
transfer.

## Main definitions

* `DpReq.positions`: the positions of the bytes of a beat, in order.
* `DpReq.readLanes`, `DpReq.writeLanes`: the lanes they are dealt to and taken from.
* `laneSeq`: the lanes in turn.

## Main results

* `maskBit_rotateMask`, `byteOf_rotateBytes`: the shifters rotate.
* `Shifted.positions_dpReq`: offset and tailer give the bytes of a legal beat.
* `readLanes_readBeats`, `writeLanes_writeBeats`: both sides go through the lanes in turn.
-/

namespace Croc

namespace Idma

open Clocked ByteMemory

open Bits (Word)

/-! ### Masks, shifters and lanes -/

/-- The mask shifter moves position `p + s` to `p`, -/
theorem maskBit_rotateMask : ∀ (m : BitVec 4) (s p : Offset),
    maskBit (rotateMask m s) p = maskBit m (p + s) := by
  decide

/-- and the data shifter does the same. -/
theorem byteOf_rotateBytes (d : Word) (s p : Offset) :
    byteOf (rotateBytes d s) p.toNat = byteOf d (p + s).toNat := by
  refine BitVec.eq_of_getLsbD_eq fun k hk => ?_
  have hp := p.isLt
  have hs := s.isLt
  rw [byteOf, byteOf, BitVec.getLsbD_extractLsb', BitVec.getLsbD_extractLsb', rotateBytes,
    BitVec.getLsbD_setWidth, BitVec.getLsbD_ushiftRight, BitVec.getLsbD_append, BitVec.toNat_add]
  have hin : 8 * p.toNat + k < 32 := by omega
  rw [decide_eq_true hk, decide_eq_true hin, Bool.true_and, Bool.true_and]
  have hmod : (p.toNat + s.toNat) % 2 ^ 2 = p.toNat + s.toNat ∨
      (p.toNat + s.toNat) % 2 ^ 2 + 4 = p.toNat + s.toNat := by omega
  rcases hmod with h | h
  · rw [if_pos (by omega)]
    congr 1
    omega
  · rw [if_neg (by omega)]
    congr 1
    omega

/-- The positions that a mask selects, in order. -/
def enabled (m : BitVec 4) : List Offset := [0, 1, 2, 3].filter (maskBit m)

/-- The byte positions of a beat, in order. -/
def DpReq.positions (q : DpReq) : List Offset := enabled q.mask

theorem DpReq.mem_positions {q : DpReq} {p : Offset} :
    p ∈ q.positions ↔ maskBit q.mask p = true := by
  have hall : ∀ p : Offset, p ∈ [(0 : Offset), 1, 2, 3] := by decide
  rw [positions, enabled, List.mem_filter]
  exact and_iff_right (hall p)

theorem DpReq.nodup_positions (q : DpReq) : q.positions.Nodup := List.Nodup.filter _ (by decide)

/-- The lanes that the bytes of a beat are dealt to. -/
def DpReq.readLanes (q : DpReq) : List Offset := q.positions.map (· - q.shift)

/-- The lanes that the bytes of a beat are taken from. -/
def DpReq.writeLanes (q : DpReq) : List Offset := q.positions.map (· + q.shift)

theorem offset_add_ofNat (addr : Word) (k : ℕ) :
    offset (addr + BitVec.ofNat 32 k) = offset addr + BitVec.ofNat 2 k := by
  rw [offset, BitVec.setWidth_add _ _ (by omega), offset]
  congr 1
  apply BitVec.eq_of_toNat_eq
  simp only [BitVec.toNat_setWidth, BitVec.toNat_ofNat]
  omega

/-- The positions of a beat are those of its bytes. -/
theorem Shifted.positions_dpReq {b : Shifted} (h : b.beat.Legal) :
    b.dpReq.positions = b.beat.bytes.map offset := by
  have hcases : ∀ (o : Offset) (n : Fin 5), 0 < n.val → o.toNat + n.val ≤ 4 →
      enabled (DpReq.mask ⟨o, BitVec.ofNat 2 n.val + o, 0⟩) =
        (List.range n.val).map fun k => o + BitVec.ofNat 2 k := by
    decide
  obtain ⟨hpos, hle⟩ := h
  have hb :=
    hcases (offset b.beat.addr) ⟨b.beat.num, by omega⟩ hpos (by rw [toNat_offset]; exact hle)
  rw [DpReq.positions, Beat.bytes, byteAddrs, List.map_map]
  refine hb.trans (List.map_congr_left fun k _ => (offset_add_ofNat _ k).symm)

/-- The lanes of `n` bytes that are dealt in turn. -/
def laneSeq (n : ℕ) : List Offset := (List.range n).map (BitVec.ofNat 2)

/-- Consecutive bytes go to consecutive lanes, from lane zero on. -/
theorem map_offset_sub_byteAddrs (addr : Word) (n : ℕ) :
    (byteAddrs addr n).map (fun a => offset a - offset addr) = laneSeq n := by
  rw [byteAddrs, List.map_map]
  refine List.map_congr_left fun k _ => ?_
  rw [Function.comp_apply, offset_add_ofNat, BitVec.add_comm, BitVec.add_sub_cancel]

/-- The bytes that are read for a transfer are dealt to the lanes in turn. -/
theorem readLanes_readBeats {q : BurstReq} (h : q.length ≠ 0) :
    q.readBeats.flatMap (fun b => b.dpReq.readLanes) = laneSeq q.length.toNat := by
  rw [BurstReq.readBeats, List.flatMap_map, ← map_offset_sub_byteAddrs q.srcAddr]
  refine flatMap_beats (BurstReq.length_pos h) fun b hb => ?_
  rw [DpReq.readLanes, Shifted.positions_dpReq hb, List.map_map]
  rfl

/-- The bytes that are written for a transfer are taken from the lanes in turn. -/
theorem writeLanes_writeBeats {q : BurstReq} (h : q.length ≠ 0) :
    q.writeBeats.flatMap (fun b => b.dpReq.writeLanes) = laneSeq q.length.toNat := by
  rw [BurstReq.writeBeats, List.flatMap_map, ← map_offset_sub_byteAddrs q.dstAddr]
  refine flatMap_beats (BurstReq.length_pos h) fun b hb => ?_
  rw [DpReq.writeLanes, Shifted.positions_dpReq hb, List.map_map]
  exact List.map_congr_left fun a _ => (BitVec.sub_eq_add_neg _ _).symm

/-- A byte of a word that belongs to a beat has the address of the word and its position. -/
theorem wordOf_add_offset {b : Beat} (h : b.Legal) {a : Word} (ha : a ∈ b.bytes) :
    wordOf b.addr + (offset a).setWidth 32 = a := by
  obtain ⟨k, hk, rfl⟩ := List.mem_map.mp ha
  have hk' := List.mem_range.mp hk
  have hlt := b.addr.isLt
  obtain ⟨-, hle⟩ := h
  apply BitVec.eq_of_toNat_eq
  rw [BitVec.toNat_add, toNat_wordOf, BitVec.toNat_setWidth, toNat_offset, BitVec.toNat_add,
    BitVec.toNat_ofNat]
  omega

end Idma

end Croc
