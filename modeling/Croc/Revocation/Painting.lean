import Croc.Lib.StoreProg
import Croc.Revocation.BitmapMemory
import Croc.Revocation.Trvk

/-!
# Painting the bitmap

The allocator revokes an object by setting the bits of its granules in the shadow bitmap, and clears
them again when the memory can be reused. `BitmapDirect::mark_range` does so a word at a time, from
the top of the range down to its base, with read-modify-write accesses at both ends. Here the
routine runs against the bitmap memory: its accesses reach the data port one after the other with
arbitrary pauses, while the load filter looks words up and other accesses that do not write the
bitmap use the port.

Two index computations have to agree. The software subtracts, shifts and masks addresses; the
hardware slices the decoded base of a capability. Both meet in `shadowBit`, one bit for every eight
bytes of heap.

## Main definitions

* `markRange`: the routine, as a program of loads and stores.
* `Painting`, `PaintIn`, `Painting.step`: the routine running on the bitmap memory.
* `shadowBit`, `lookupBit`: the bit of an address; the bit that the filter consults.
* `PaintedDownTo`: the bitmap while a range is painted from the top.

## Main results

* `lookupBit_eq_shadowBit`: the filter consults the bit of the base.
* `wp_markRange`: the bits at and above a frontier are painted, and the frontier moves down.
* `markRange_agrees`: painting and lookup agree, and the range is painted downwards.
-/

namespace Croc

namespace Revocation

open Cheriot Clocked

open Bits (Word)

/-! ### The routine -/

/-- `TCMBaseAddr`: the start of the revocable memory. -/
def tcmBaseAddr : Word := 0x10010000

/-- `ShadowWordShift`: a word of the bitmap has 32 bits. -/
def shadowWordShift : ℕ := 5

/-- `ShadowWordMask`. -/
def shadowWordMask : Word := (1#32 <<< shadowWordShift) - 1#32

/-- `shadow_offset_bits`: one bit for every capability-sized granule. -/
def shadowOffsetBits (addr : Word) : Word := (addr - tcmBaseAddr) >>> 3

/-- `shadow_word_index`. -/
def shadowWordIndex (offsetBits : Word) : ℕ := (offsetBits >>> shadowWordShift).toNat

/-- `shadow_mask_bits_below_address`. -/
def shadowMaskBitsBelowAddress (addr : Word) : Word :=
  let capoffset := shadowOffsetBits addr
  (1#32 <<< (capoffset &&& shadowWordMask).toNat) - 1#32

/-- `shadow_mask_bits_above_address`. -/
def shadowMaskBitsAboveAddress (addr : Word) : Word := ~~~shadowMaskBitsBelowAddress addr

/-- What the routine does to a word: `|= mask` to fill, `&= ~mask` to clear. -/
def fillWord (fill : Bool) (mask word : Word) : Word :=
  if fill then word ||| mask else word &&& ~~~mask

/-- The loop of `mark_range` over the words strictly between the two ends, downwards from
`shadowWordIx`. -/
def markWords (midWord : Word) (baseWordIx : ℕ) :
    ℕ → StoreProg ℕ Word → StoreProg ℕ Word
  | 0, next => next
  | ix + 1, next =>
    if baseWordIx < ix + 1 then .store (ix + 1) midWord (markWords midWord baseWordIx ix next)
    else next

/-- `mark_range<Fill>(base, top)`. -/
def markRange (fill : Bool) (base top : Word) : StoreProg ℕ Word :=
  let baseCapOffset := shadowOffsetBits base
  let topCapOffset := shadowOffsetBits top
  let baseWordIx := shadowWordIndex baseCapOffset
  let topWordIx := shadowWordIndex topCapOffset
  let maskHi := shadowMaskBitsBelowAddress top
  let maskLo := shadowMaskBitsAboveAddress base
  if baseWordIx = topWordIx then
    .modify baseWordIx (fillWord fill (maskHi &&& maskLo)) .done
  else
    let midWord : Word := if fill then ~~~0 else 0
    .modify topWordIx (fillWord fill maskHi) <|
    markWords midWord baseWordIx (topWordIx - 1) <|
    .modify baseWordIx (fillWord fill maskLo) .done

/-! ### The routine on the bitmap memory -/

/-- Where the software stands: at an access that it has not issued yet, or waiting for the word it
has asked for. -/
inductive Software
  | running (p : StoreProg ℕ Word)
  | waiting (k : Word → StoreProg ℕ Word)

/-- The bitmap memory and the software that paints it. -/
structure Painting where
  /-- `revc_bitmap_memory`. -/
  mem : BitmapMemory
  /-- The painting routine. -/
  sw : Software

/-- What the environment does in a cycle. -/
structure PaintIn where
  /-- The next access of the routine reaches the data port. -/
  go : Bool
  /-- The access on the data port otherwise. -/
  other : DataReq
  /-- `trvk_revbm_req_i`. -/
  trvkReq : Bool
  /-- `trvk_revbm_addr_i`. -/
  trvkAddr : Word
  deriving DecidableEq, Repr, Inhabited

namespace Painting

variable (s : Painting) (i : PaintIn)

/-- The address of a word of `shadowCap`. -/
def shadowAddr (ix : ℕ) : Word := revBitmapBaseAddr + BitVec.ofNat 32 (4 * ix)

/-- The access on the data port of the bitmap memory. -/
def dataReq : DataReq :=
  if i.go then
    match s.sw with
    | .running (.load ix _) => ⟨true, false, shadowAddr ix, 0, 0xf⟩
    | .running (.store ix word _) => ⟨true, true, shadowAddr ix, word, 0xf⟩
    | _ => i.other
  else i.other

/-- The inputs of the bitmap memory. -/
def bitmapIn : BitmapIn := ⟨s.dataReq i, i.trvkReq, i.trvkAddr⟩

/-- The software after a cycle: a store is posted, a load waits for its response. -/
def nextSw : Software :=
  match s.sw with
  | .running (.load _ k) => if i.go then .waiting k else s.sw
  | .running (.store _ _ p) => if i.go then .running p else s.sw
  | .running .done => s.sw
  | .waiting k => if s.mem.rvalid then .running (k s.mem.rdata) else s.sw

/-- One clock edge. -/
def step : Painting := ⟨s.mem.step crocBitmap (s.bitmapIn i), s.nextSw i⟩

/-- The routine starts on the memory `m`. -/
def machine (m : BitmapMemory) (p : StoreProg ℕ Word) : Machine Painting PaintIn :=
  ⟨⟨m, .running p⟩, step⟩

/-- The routine has returned. -/
def Finished : Prop := s.sw = .running .done

end Painting

/-! ### The bits of the bitmap -/

/-- Bit `n` of a bitmap: bit `n mod 32` of word `n / 32`. -/
def bitAt (bitmap : ℕ → Word) (n : ℕ) : Bool := (bitmap (n / 32)).getLsbD (n % 32)

/-- The bit of a heap address. -/
def shadowBit (bitmap : ℕ → Word) (addr : Word) : Bool := bitAt bitmap (heapBit addr.toNat)

/-- The bit that the load filter selects for the capability with the words `ptr` and `data`: the
word at the lookup address, and in it the selected bit. -/
def lookupBit (bitmap : ℕ → Word) (ptr data : Word) : Bool :=
  (bitmap (crocBitmap.wordIndex (revbmAddr ptr data))).getLsbD (revbmBitSelect ptr data).toNat

theorem wordIndex_of_toNat {addr : Word} {ix : ℕ} (hix : ix < 256)
    (h : addr.toNat = 0x10020000 + 4 * ix) :
    crocBitmap.inRange addr = true ∧ crocBitmap.wordIndex addr = ix := by
  have hbase : crocBitmap.base.toNat = 0x10020000 := rfl
  have hwords : crocBitmap.numbWords = 256 := rfl
  have hr : crocBitmap.inRange addr = true := by
    rw [BitmapParams.inRange_iff, hbase, hwords]
    omega
  refine ⟨hr, ?_⟩
  rw [BitmapParams.wordIndex_eq _ hr, hbase]
  omega

/-- **Hardware side.** For a capability based in the heap, the filter consults the bit of its
base. -/
theorem lookupBit_eq_shadowBit (bitmap : ℕ → Word) {ptr data : Word}
    (h : revbmOutOfRange ptr data = false) :
    lookupBit bitmap ptr data = shadowBit bitmap (capBase ptr data) := by
  have hr := revbmOutOfRange_eq_false_iff.mp h
  have hbit := toNat_revbmBitAddr_of_inRange h
  have hlt : heapBit (capBase ptr data).toNat / 32 < 256 := by
    unfold heapBit
    omega
  have haddr := toNat_revbmAddr ptr data
  rw [hbit, Nat.mod_eq_of_lt hlt] at haddr
  rw [lookupBit, (wordIndex_of_toNat hlt haddr).2, toNat_revbmBitSelect, hbit, shadowBit, bitAt]

theorem bitAt_update (bitmap : ℕ → Word) (ix n : ℕ) (word : Word) :
    bitAt (Function.update bitmap ix word) n =
      if n / 32 = ix then word.getLsbD (n % 32) else bitAt bitmap n := by
  rw [bitAt, Function.update_apply]
  split_ifs <;> rfl

/-! ### The indices and masks of the routine -/

section Masks

variable {addr : Word}

/-- **Software side.** In the heap, the offset is the number of the bit. At the end of the heap it
is still the number of bits. -/
theorem toNat_shadowOffsetBits (h : 0x10010000 ≤ addr.toNat) :
    (shadowOffsetBits addr).toNat = heapBit addr.toNat := by
  have hbase : tcmBaseAddr.toNat = 0x10010000 := rfl
  have := addr.isLt
  rw [shadowOffsetBits, BitVec.toNat_ushiftRight, BitVec.toNat_sub, Nat.shiftRight_eq_div_pow,
    hbase, heapBit]
  omega

theorem shadowWordIndex_eq (h : 0x10010000 ≤ addr.toNat) :
    shadowWordIndex (shadowOffsetBits addr) = heapBit addr.toNat / 32 := by
  rw [shadowWordIndex, BitVec.toNat_ushiftRight, Nat.shiftRight_eq_div_pow,
    toNat_shadowOffsetBits h]
  rfl

/-- The mask below an address has ones below the bit of the address. -/
theorem getLsbD_shadowMaskBitsBelowAddress (h : 0x10010000 ≤ addr.toNat) (j : ℕ) :
    (shadowMaskBitsBelowAddress addr).getLsbD j = decide (j < heapBit addr.toNat % 32) := by
  have hlow : (shadowOffsetBits addr &&& shadowWordMask).toNat = heapBit addr.toNat % 32 := by
    have hmask : shadowWordMask.toNat = 2 ^ 5 - 1 := rfl
    rw [BitVec.toNat_and, hmask, Nat.and_two_pow_sub_one_eq_mod, toNat_shadowOffsetBits h]
  have hpow : (2 : ℕ) ^ (heapBit addr.toNat % 32) < 2 ^ 32 :=
    Nat.pow_lt_pow_right (by norm_num) (Nat.mod_lt _ (by norm_num))
  have hpos : 0 < (2 : ℕ) ^ (heapBit addr.toNat % 32) := Nat.two_pow_pos _
  have hval : (shadowMaskBitsBelowAddress addr).toNat = 2 ^ (heapBit addr.toNat % 32) - 1 := by
    have hone : (1#32).toNat = 1 := rfl
    rw [shadowMaskBitsBelowAddress, hlow, BitVec.toNat_sub, BitVec.toNat_shiftLeft,
      Nat.shiftLeft_eq, hone, Nat.one_mul, Nat.mod_eq_of_lt hpow]
    omega
  rw [BitVec.getLsbD, hval, Nat.testBit_two_pow_sub_one]

theorem getLsbD_shadowMaskBitsAboveAddress (h : 0x10010000 ≤ addr.toNat) {j : ℕ} (hj : j < 32) :
    (shadowMaskBitsAboveAddress addr).getLsbD j = decide (heapBit addr.toNat % 32 ≤ j) := by
  rw [shadowMaskBitsAboveAddress, BitVec.getLsbD_not,
    getLsbD_shadowMaskBitsBelowAddress h, ← decide_not]
  simp [hj]

end Masks

theorem getLsbD_fillWord (fill : Bool) (mask word : Word) {j : ℕ} (hj : j < 32) :
    (fillWord fill mask word).getLsbD j = if mask.getLsbD j then fill else word.getLsbD j := by
  cases fill
  · rw [fillWord, if_neg Bool.false_ne_true, BitVec.getLsbD_and, BitVec.getLsbD_not]
    cases mask.getLsbD j <;> simp [hj]
  · rw [fillWord, if_pos rfl, BitVec.getLsbD_or]
    cases mask.getLsbD j <;> simp

/-! ### Painting downwards -/

section Range

variable {old bitmap : ℕ → Word} {fill : Bool} {lo mid hi : ℕ}

/-- The bits from `mid` up to `hi` have been painted, and nothing else has changed. -/
def PaintedDownTo (old : ℕ → Word) (fill : Bool) (mid hi : ℕ) (bitmap : ℕ → Word) : Prop :=
  ∀ n, bitAt bitmap n = if mid ≤ n ∧ n < hi then fill else bitAt old n

/-- Before the first store, nothing is painted. -/
theorem paintedDownTo_self : PaintedDownTo old fill hi hi old := by
  intro n
  rw [if_neg (by omega)]

/-- **One store.** Painting the bits from `lo` up to `mid` in the word that holds them moves the
frontier from `mid` down to `lo`. -/
theorem PaintedDownTo.update (h : PaintedDownTo old fill mid hi bitmap) {ix : ℕ} {word : Word}
    (hlo : 32 * ix ≤ lo) (hmid : mid ≤ 32 * ix + 32) (hle : lo ≤ mid) (hhi : mid ≤ hi)
    (hword : ∀ j < 32, word.getLsbD j =
      if lo ≤ 32 * ix + j ∧ 32 * ix + j < mid then fill else (bitmap ix).getLsbD j) :
    PaintedDownTo old fill lo hi (Function.update bitmap ix word) := by
  intro n
  have hn := h n
  rw [bitAt_update]
  by_cases hix : n / 32 = ix
  · have hdm : 32 * ix + n % 32 = n := by omega
    have hbit : bitAt bitmap n = (bitmap ix).getLsbD (n % 32) := by rw [bitAt, hix]
    rw [if_pos hix, hword _ (Nat.mod_lt _ (by norm_num)), hdm, ← hbit, hn]
    by_cases h1 : lo ≤ n ∧ n < mid
    · rw [if_pos h1, if_pos (by omega)]
    · rw [if_neg h1]
      by_cases h2 : mid ≤ n ∧ n < hi
      · rw [if_pos h2, if_pos (by omega)]
      · rw [if_neg h2, if_neg (by omega)]
  · rw [if_neg hix, hn]
    by_cases h2 : mid ≤ n ∧ n < hi
    · rw [if_pos h2, if_pos (by omega)]
    · rw [if_neg h2, if_neg (by omega)]

/-- At every point of the painting there is a frontier. -/
def PaintFrontier (old : ℕ → Word) (fill : Bool) (lo hi : ℕ) (bitmap : ℕ → Word) : Prop :=
  ∃ mid, lo ≤ mid ∧ mid ≤ hi ∧ PaintedDownTo old fill mid hi bitmap

variable {Q : (ℕ → Word) → Prop}

/-- **The loop.** With the frontier above word `ix`, the loop paints every word down to, but not
including, the word of the base. -/
theorem wp_markWords {baseWordIx ix : ℕ} {next : StoreProg ℕ Word} (hix : baseWordIx ≤ ix)
    (hlt : ix < 256) (hlo : lo < 32 * (baseWordIx + 1)) (hhi : 32 * (ix + 1) ≤ hi)
    (h : PaintedDownTo old fill (32 * (ix + 1)) hi bitmap)
    (hnext : ∀ bitmap', PaintedDownTo old fill (32 * (baseWordIx + 1)) hi bitmap' →
      next.wp (· < 256) (PaintFrontier old fill lo hi) Q bitmap') :
    (markWords (if fill then ~~~0 else 0) baseWordIx ix next).wp (· < 256)
      (PaintFrontier old fill lo hi) Q bitmap := by
  induction ix generalizing bitmap with
  | zero =>
    obtain rfl : baseWordIx = 0 := by omega
    exact hnext bitmap h
  | succ ix ih =>
    by_cases hgo : baseWordIx < ix + 1
    · rw [markWords, if_pos hgo]
      refine ⟨⟨_, by omega, hhi, h⟩, hlt, ih (by omega) (by omega) (by omega) ?_⟩
      refine h.update (by omega) (by omega) (by omega) (by omega) ?_
      intro j hj
      have hall : (if fill then ~~~0 else 0 : Word).getLsbD j = fill := by
        cases fill
        · exact BitVec.getLsbD_zero
        · rw [if_pos rfl, BitVec.getLsbD_not]
          simp [hj]
      rw [hall, if_pos (by omega)]
    · obtain rfl : baseWordIx = ix + 1 := by omega
      rw [markWords, if_neg hgo]
      exact hnext bitmap h

/-- **The routine.** From a base to a top in the heap, `mark_range` paints the bits of the range,
and at every point the bits above some frontier. -/
theorem wp_markRange {base top : Word} (hbase : 0x10010000 ≤ base.toNat)
    (hle : base.toNat ≤ top.toNat) (htop : top.toNat < 0x10020000) :
    (markRange fill base top).wp (· < 256)
      (PaintFrontier old fill (heapBit base.toNat) (heapBit top.toNat))
      (PaintedDownTo old fill (heapBit base.toNat) (heapBit top.toNat)) old := by
  have htop' : 0x10010000 ≤ top.toNat := by omega
  set lo := heapBit base.toNat with hlo
  set hi := heapBit top.toNat with hhi
  have hlohi : lo ≤ hi := Nat.div_le_div_right (by omega)
  have hlt : hi / 32 < 256 := by
    rw [hhi, heapBit]
    omega
  rw [markRange, shadowWordIndex_eq hbase, shadowWordIndex_eq htop', ← hlo, ← hhi]
  by_cases hword : lo / 32 = hi / 32
  · -- one word holds the whole range
    rw [if_pos hword]
    have hdone : PaintedDownTo old fill lo hi (Function.update old (lo / 32)
        (fillWord fill (shadowMaskBitsBelowAddress top &&& shadowMaskBitsAboveAddress base)
          (old (lo / 32)))) := by
      refine paintedDownTo_self.update (by omega) (by omega) hlohi le_rfl ?_
      intro j hj
      rw [getLsbD_fillWord _ _ _ hj, BitVec.getLsbD_and, getLsbD_shadowMaskBitsBelowAddress htop',
        getLsbD_shadowMaskBitsAboveAddress hbase hj, ← Bool.decide_and, ← hlo, ← hhi]
      refine if_congr ?_ rfl rfl
      rw [decide_eq_true_iff]
      omega
    exact StoreProg.wp_modify ⟨hi, hlohi, le_rfl, paintedDownTo_self⟩ (by omega)
      ⟨⟨lo, le_rfl, hlohi, hdone⟩, hdone⟩
  · -- the word of the top, the words in between, the word of the base
    rw [if_neg hword]
    refine StoreProg.wp_modify ⟨hi, hlohi, le_rfl, paintedDownTo_self⟩ hlt ?_
    have hsucc : hi / 32 - 1 + 1 = hi / 32 := by omega
    refine wp_markWords (by omega) (by omega) (by omega) (by omega) ?_ ?_
    · rw [hsucc]
      refine paintedDownTo_self.update le_rfl (by omega) (by omega) le_rfl ?_
      intro j hj
      rw [getLsbD_fillWord _ _ _ hj, getLsbD_shadowMaskBitsBelowAddress htop', ← hhi]
      refine if_congr ?_ rfl rfl
      rw [decide_eq_true_iff]
      omega
    · intro bitmap' h'
      have hdone : PaintedDownTo old fill lo hi (Function.update bitmap' (lo / 32)
          (fillWord fill (shadowMaskBitsAboveAddress base) (bitmap' (lo / 32)))) := by
        refine h'.update (by omega) (by omega) (by omega) (by omega) ?_
        intro j hj
        rw [getLsbD_fillWord _ _ _ hj, getLsbD_shadowMaskBitsAboveAddress hbase hj, ← hlo]
        refine if_congr ?_ rfl rfl
        rw [decide_eq_true_iff]
        omega
      exact StoreProg.wp_modify ⟨_, by omega, by omega, h'⟩ (by omega)
        ⟨⟨lo, le_rfl, hlohi, hdone⟩, hdone⟩

end Range

/-! ### Runs -/

namespace Painting

variable {s : Painting} {i : PaintIn} {I Q : (ℕ → Word) → Prop}

/-- An access that leaves the bitmap alone. -/
def Harmless (r : DataReq) : Prop := (crocBitmap.inRange r.addr && r.req && r.we) = false

/-- The rest of the program, once a word that is on its way has been read. -/
def rest (s : Painting) : StoreProg ℕ Word :=
  match s.sw with
  | .running p => p
  | .waiting k => k s.mem.rdata

/-- What holds along a run: the rest of the program does its job on the bitmap as it is, and a word
that the software waits for is there. -/
structure OnTrack (I Q : (ℕ → Word) → Prop) (s : Painting) : Prop where
  /-- The rest of the program keeps the invariant and ends in the postcondition. -/
  wp : s.rest.wp (· < 256) I Q s.mem.bitmap
  /-- The memory answers a load in the next cycle. -/
  answered : ∀ k, s.sw = .waiting k → s.mem.rvalid = true

theorem shadowAddr_hit {ix : ℕ} (hix : ix < 256) :
    crocBitmap.inRange (shadowAddr ix) = true ∧ crocBitmap.wordIndex (shadowAddr ix) = ix := by
  refine wordIndex_of_toNat hix ?_
  have hbase : revBitmapBaseAddr.toNat = 0x10020000 := rfl
  rw [shadowAddr, BitVec.toNat_add, BitVec.toNat_ofNat, hbase]
  omega

/-- Without an access of the software, the bitmap stays as it is. -/
theorem bitmap_step_of_other (hi : Harmless i.other) (h : s.dataReq i = i.other) :
    (s.step i).mem.bitmap = s.mem.bitmap := by
  refine BitmapMemory.bitmap_step_of_not_write ?_
  rw [BitmapIn.dataHit, bitmapIn, h]
  exact hi

/-- In a cycle without an access of the software, the program stays where it is. -/
theorem OnTrack.step_of_other (h : OnTrack I Q s) (hi : Harmless i.other)
    (hreq : s.dataReq i = i.other) (hsw : s.nextSw i = .running s.rest) :
    OnTrack I Q (s.step i) := by
  have hsw' : (s.step i).sw = .running s.rest := hsw
  refine ⟨?_, by simp [hsw']⟩
  rw [bitmap_step_of_other hi hreq, rest, hsw']
  exact h.wp

/-- **One cycle.** -/
theorem OnTrack.step (h : OnTrack I Q s) (hi : Harmless i.other) : OnTrack I Q (s.step i) := by
  have hwp := h.wp
  obtain ⟨mem, sw⟩ := s
  match sw, hgo : i.go with
  | .waiting k, _ =>
    have hv : mem.rvalid = true := h.answered k rfl
    exact h.step_of_other hi (by simp [dataReq]) (by simp [nextSw, hv, rest])
  | .running .done, _ => exact h.step_of_other hi (by simp [dataReq]) rfl
  | .running (.load ix k), false =>
    exact h.step_of_other hi (by simp [dataReq, hgo]) (by simp [nextSw, hgo, rest])
  | .running (.store ix word p), false =>
    exact h.step_of_other hi (by simp [dataReq, hgo]) (by simp [nextSw, hgo, rest])
  | .running (.load ix k), true =>
    obtain ⟨-, hix, hrest⟩ := hwp
    obtain ⟨hin, hword⟩ := shadowAddr_hit hix
    have hreq : dataReq ⟨mem, .running (.load ix k)⟩ i = ⟨true, false, shadowAddr ix, 0, 0xf⟩ := by
      simp [dataReq, hgo]
    have hhit : (bitmapIn ⟨mem, .running (.load ix k)⟩ i).dataHit crocBitmap = true := by
      rw [BitmapIn.dataHit, bitmapIn, hreq, hin]
      rfl
    have hwe : (bitmapIn ⟨mem, .running (.load ix k)⟩ i).data.we = false := by
      rw [bitmapIn, hreq]
    have haddr : (bitmapIn ⟨mem, .running (.load ix k)⟩ i).data.addr = shadowAddr ix := by
      rw [bitmapIn, hreq]
    have hsw : (Painting.step ⟨mem, .running (.load ix k)⟩ i).sw = .waiting k := by
      simp [Painting.step, nextSw, hgo]
    obtain ⟨hv, hdata⟩ := BitmapMemory.rdata_step (m := mem) hhit hwe
    rw [haddr, hword] at hdata
    refine ⟨?_, fun _ _ => hv⟩
    have hmem : (Painting.step ⟨mem, .running (.load ix k)⟩ i).mem.bitmap = mem.bitmap :=
      BitmapMemory.bitmap_step_of_not_write (by rw [hwe, Bool.and_false])
    have hrest' : (Painting.step ⟨mem, .running (.load ix k)⟩ i).rest = k (mem.bitmap ix) := by
      rw [rest, hsw]
      exact congrArg k hdata
    rw [hmem, hrest']
    exact hrest
  | .running (.store ix word p), true =>
    obtain ⟨-, hix, hrest⟩ := hwp
    obtain ⟨hin, hword⟩ := shadowAddr_hit hix
    have hreq : dataReq ⟨mem, .running (.store ix word p)⟩ i =
        ⟨true, true, shadowAddr ix, word, 0xf⟩ := by
      simp [dataReq, hgo]
    have hhit : (bitmapIn ⟨mem, .running (.store ix word p)⟩ i).dataHit crocBitmap = true := by
      rw [BitmapIn.dataHit, bitmapIn, hreq, hin]
      rfl
    have hsw : (Painting.step ⟨mem, .running (.store ix word p)⟩ i).sw = .running p := by
      simp [Painting.step, nextSw, hgo]
    have hmem : (Painting.step ⟨mem, .running (.store ix word p)⟩ i).mem.bitmap =
        Function.update mem.bitmap ix word := by
      have := BitmapMemory.bitmap_step (m := mem) hhit (by rw [bitmapIn, hreq])
      rw [bitmapIn, hreq, hword] at this
      rw [Painting.step, bitmapIn, hreq]
      exact this.trans (congrArg _ (Bits.mergeBytes_full _ word))
    refine ⟨?_, by simp [hsw]⟩
    rw [hmem, rest, hsw]
    exact hrest

variable {m : BitmapMemory} {p : StoreProg ℕ Word} {ins : ℕ → PaintIn}

/-- **Every cycle of a run.** -/
theorem onTrack (hp : p.wp (· < 256) I Q m.bitmap) (hins : ∀ u, Harmless (ins u).other) (u : ℕ) :
    OnTrack I Q ((machine m p).stateAt ins u) := by
  have h0 : OnTrack I Q (machine m p).init := ⟨hp, nofun⟩
  refine Machine.stateAt_inv (A := fun _ i => Harmless i.other) h0 ?_ hins u
  intro s i hs hi
  exact hs.step hi

theorem sw_succ (u : ℕ) : ((machine m p).stateAt ins (u + 1)).sw =
    ((machine m p).stateAt ins u).nextSw (ins u) := rfl

/-- An access that is due waits until it reaches the port. -/
theorem exists_go {q : StoreProg ℕ Word} {u : ℕ} (hgo : ∃ v, u ≤ v ∧ (ins v).go = true)
    (hu : ((machine m p).stateAt ins u).sw = .running q) :
    ∃ v, (ins v).go = true ∧ ((machine m p).stateAt ins v).sw = .running q := by
  obtain ⟨hle, hv⟩ := Nat.find_spec hgo
  refine ⟨Nat.find hgo, hv, ?_⟩
  -- the program stays where it is in every cycle before the first access
  suffices h : ∀ w, u ≤ w → w ≤ Nat.find hgo → ((machine m p).stateAt ins w).sw = .running q from
    h _ hle le_rfl
  intro w huw
  induction w, huw using Nat.le_induction with
  | base => exact fun _ => hu
  | succ w huw ih =>
    intro hw
    have hno : (ins w).go = false := by
      have := Nat.find_min hgo (m := w) (by omega)
      simpa [huw] using this
    have hsw := ih (by omega)
    rw [sw_succ]
    cases q <;> simp [nextSw, hsw, hno]

/-- If the accesses of the software reach the port again and again, the routine returns. -/
theorem exists_finished (hp : p.wp (· < 256) I Q m.bitmap) (hins : ∀ u, Harmless (ins u).other)
    (hgo : ∀ u, ∃ v, u ≤ v ∧ (ins v).go = true) :
    ∃ u, ((machine m p).stateAt ins u).Finished := by
  -- by induction on the program that is left, from whatever cycle it is reached in
  suffices h : ∀ q u, ((machine m p).stateAt ins u).sw = .running q →
      ∃ v, ((machine m p).stateAt ins v).Finished from h p 0 rfl
  intro q
  induction q with
  | done => exact fun u hu => ⟨u, hu⟩
  | load ix k ih =>
    intro u hu
    obtain ⟨v, hv, hsw⟩ := exists_go (hgo u) hu
    have hwait : ((machine m p).stateAt ins (v + 1)).sw = .waiting k := by
      rw [sw_succ]
      simp [nextSw, hsw, hv]
    refine ih _ (v + 2) (?_ : _ =
      Software.running (k ((machine m p).stateAt ins (v + 1)).mem.rdata))
    rw [sw_succ]
    simp [nextSw, hwait, (onTrack hp hins (v + 1)).answered k hwait]
  | store ix word q ih =>
    intro u hu
    obtain ⟨v, hv, hsw⟩ := exists_go (hgo u) hu
    refine ih (v + 1) ?_
    rw [sw_succ]
    simp [nextSw, hsw, hv]

end Painting

/-- **Painting and lookup agree.** `mark_range<Fill>(b, t)` runs on the bitmap memory, its accesses
reaching the port at any times, while the filter looks words up and accesses that do not write the
bitmap use the data port in between.

* Once the routine has returned, the bit that the filter selects for a capability based in the heap
  is `Fill` if the base lies in the range, and what it was before otherwise.
* While bits are being set, an address of the range that was clear before is painted only after
  every higher address of the range.
* The routine does return if its accesses are served. -/
theorem markRange_agrees (m : BitmapMemory) (fill : Bool) {b t : Word} (hb8 : b.toNat % 8 = 0)
    (ht8 : t.toNat % 8 = 0) (hbt : b ≤ t) (hb : 0x10010000 ≤ b.toNat) (ht : t.toNat < 0x10020000)
    {ins : ℕ → PaintIn} (hins : ∀ u, Painting.Harmless (ins u).other) :
    let run := (Painting.machine m (markRange fill b t)).stateAt ins
    (∀ u, (run u).Finished → ∀ ptr data : Word,
      0x10010000 ≤ (capBase ptr data).toNat → (capBase ptr data).toNat < 0x10020000 →
        lookupBit (run u).mem.bitmap ptr data =
          if b ≤ capBase ptr data ∧ capBase ptr data < t then fill
          else lookupBit m.bitmap ptr data) ∧
    (fill = true → ∀ u, ∀ x y : Word, b ≤ x → x < y → y < t →
      shadowBit m.bitmap x = false → shadowBit (run u).mem.bitmap x = true →
        shadowBit (run u).mem.bitmap y = true) ∧
    ((∀ u, ∃ v, u ≤ v ∧ (ins v).go = true) → ∃ u, (run u).Finished) := by
  intro run
  have hle : b.toNat ≤ t.toNat := hbt
  have hwp : (markRange fill b t).wp (· < 256)
      (PaintFrontier m.bitmap fill (heapBit b.toNat) (heapBit t.toNat))
      (PaintedDownTo m.bitmap fill (heapBit b.toNat) (heapBit t.toNat)) m.bitmap :=
    wp_markRange hb hle ht
  refine ⟨?_, ?_, Painting.exists_finished hwp hins⟩
  · intro u hfin ptr data hlo hhi
    have hpost := (Painting.onTrack hwp hins u).wp
    have hrange := revbmOutOfRange_eq_false_iff.mpr ⟨hlo, hhi⟩
    rw [Painting.rest, hfin] at hpost
    rw [lookupBit_eq_shadowBit _ hrange, lookupBit_eq_shadowBit _ hrange, shadowBit, hpost.2,
      shadowBit]
    refine if_congr ?_ rfl rfl
    rw [BitVec.le_def, BitVec.lt_def, heapBit, heapBit, heapBit]
    omega
  · rintro rfl u x y hbx hxy hyt hclear hset
    obtain ⟨mid, -, -, hmid⟩ := (Painting.onTrack hwp hins u).wp.inv
    rw [BitVec.le_def] at hbx
    rw [BitVec.lt_def] at hxy hyt
    rw [shadowBit, hmid] at hset
    have hx : mid ≤ heapBit x.toNat := by
      by_contra hlt
      rw [if_neg (by omega)] at hset
      exact Bool.false_ne_true (hclear.symm.trans hset)
    rw [shadowBit, hmid, if_pos]
    unfold heapBit at hx ⊢
    omega

/-- Setting the bits of a range that ends in the fourth word of the bitmap and starts in the first,
one access every other cycle. After five cycles the two upper words are painted and the others are
not. -/
theorem markRange_agrees_fourWords :
    let run := (Painting.machine ⟨fun _ => 0, 0, false, 0, false⟩
      (markRange true 0x10010010 0x10010320)).stateAt fun u => ⟨u % 2 == 0, default, false, 0⟩
    shadowBit (run 5).mem.bitmap 0x10010100 = false ∧
      shadowBit (run 5).mem.bitmap 0x10010200 = true ∧
      shadowBit (run 5).mem.bitmap 0x10010300 = true ∧
      ∃ u, (run u).Finished ∧ ∀ ptr data : Word,
        0x10010000 ≤ (capBase ptr data).toNat → (capBase ptr data).toNat < 0x10020000 →
          lookupBit (run u).mem.bitmap ptr data =
            if 0x10010010 ≤ capBase ptr data ∧ capBase ptr data < 0x10010320 then true
            else lookupBit (fun _ => 0) ptr data := by
  intro run
  let ins (u : ℕ) : PaintIn := ⟨u % 2 == 0, default, false, 0⟩
  have hins : ∀ u, Painting.Harmless (ins u).other := fun _ => rfl
  obtain ⟨hlookup, horder, hreturns⟩ := markRange_agrees ⟨fun _ => 0, 0, false, 0, false⟩ true
    (b := 0x10010010) (t := 0x10010320) (by decide) (by decide) (by decide) (by decide) (by decide)
    hins
  have hlower : shadowBit (run 5).mem.bitmap 0x10010200 = true := by decide +kernel
  obtain ⟨u, hu⟩ := hreturns fun u => ⟨2 * u, by omega, by simp [ins]⟩
  refine ⟨by decide +kernel, hlower, ?_, u, hu, hlookup u hu⟩
  exact horder rfl 5 0x10010200 0x10010300 (by decide) (by decide) (by decide) (by decide) hlower

end Revocation

end Croc
