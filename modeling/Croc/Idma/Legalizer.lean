import Croc.Lib.ByteMemory
import Croc.Idma.Midend

/-!
# The legalizer

`idma_legalizer_rw_obi` cuts a transfer into beats that stay within one word of the bus. It does so
twice, once for the source and once for the destination, and the two sides advance on their own:
with OBI on either side the flow control is decoupled. A new transfer is taken in the cycle in which
both sides are at their last beat.

Out of reset the options register names no OBI port yet, so the first transfer is taken in the
coupled mode.

## Main definitions

* `numBytesToPb`: the page splitter, with a page of one word.
* `MutTf`, `Legalizer`: the registers of one side, and all of them.
* `Beat`, `beats`: what a transfer is cut into, for any address and length.

## Main results

* `bytes_beats`, `mem_beats`: the beats of a transfer cover its bytes in order, each within a word.
* `Legalizer.conserved_read`, `Legalizer.conserved_write`: the beats given out by one side are those
  of the transfers taken in.
-/

namespace Croc

namespace Idma

open Clocked

open Bits (Word)

open ByteMemory (wordOf)

/-! ### Definitions -/

/-- `offset_t`. -/
abbrev Offset := BitVec 2

/-- `page_len_t`. -/
abbrev PageLen := BitVec 3

/-- `protocol_e`. -/
inductive Protocol
  | axi
  | obi
  | axilite
  | tilelink
  | init
  | axiStream
  deriving DecidableEq, Repr

/-- The byte offset of an address in its word. -/
def offset (addr : Word) : Offset := addr.setWidth 2

/-- `num_bytes_to_pb_o` of `idma_legalizer_page_splitter` with `not_bursting_i`: a page is a
word. -/
def numBytesToPb (addr : Word) : PageLen := 4 - (offset addr).setWidth 3

/-- `idma_mut_tf_t`: what is left of a transfer on one side. -/
structure MutTf where
  /-- `length`. -/
  length : Word
  /-- `addr`. -/
  addr : Word
  /-- `valid`. -/
  valid : Bool
  deriving DecidableEq, Repr

namespace MutTf

variable (tf : MutTf) (possible : PageLen)

/-- `r_done`, `w_done`: what is left fits into this beat. -/
def done : Bool := !decide (possible.setWidth 32 < tf.length)

/-- `r_num_bytes`, `w_num_bytes`. -/
def numBytes : PageLen := if tf.done possible then tf.length.setWidth 3 else possible

/-- `r_tf_d`, `w_tf_d`, where no transfer is taken. -/
def advance : MutTf :=
  if tf.done possible then { tf with valid := false }
  else { tf with
    length := tf.length - possible.setWidth 32
    addr := tf.addr + (tf.numBytes possible).setWidth 32 }

end MutTf

/-- `idma_mut_tf_opt_t`: the options of the transfer that is cut. -/
structure MutTfOpt where
  /-- `src_protocol`. -/
  srcProtocol : Protocol
  /-- `dst_protocol`. -/
  dstProtocol : Protocol
  /-- `read_shift`. -/
  readShift : Offset
  /-- `write_shift`. -/
  writeShift : Offset
  /-- `decouple_rw`. -/
  decoupleRw : Bool
  /-- `super_last`. -/
  superLast : Bool
  deriving DecidableEq, Repr

/-- The part of `r_dp_req_t` and `w_dp_req_t` that the data path reads. -/
structure DpReq where
  /-- `offset`: the first byte. -/
  offset : Offset
  /-- `tailer`: the first byte after the last one. -/
  tailer : Offset
  /-- `shift`: the rotation of the bytes. -/
  shift : Offset
  deriving DecidableEq, Repr

/-- The registers of `idma_legalizer_rw_obi`. -/
structure Legalizer where
  /-- `r_tf_q`. -/
  rTf : MutTf
  /-- `w_tf_q`. -/
  wTf : MutTf
  /-- `opt_tf_q`. -/
  optTf : MutTfOpt
  deriving DecidableEq, Repr

namespace Legalizer

/-- The legalizer out of reset. -/
def init : Legalizer where
  rTf := ⟨0, 0, false⟩
  wTf := ⟨0, 0, false⟩
  optTf := ⟨.axi, .axi, 0, 0, false, false⟩

variable (l : Legalizer) (req : Option BurstReq) (rReady wReady : Bool)

/-- The two sides advance on their own. -/
def decoupled : Bool :=
  l.optTf.decoupleRw || l.optTf.srcProtocol == .obi || l.optTf.dstProtocol == .obi

/-- `c_num_bytes_to_pb`. -/
def cNumBytesToPb : PageLen :=
  if numBytesToPb l.wTf.addr < numBytesToPb l.rTf.addr then numBytesToPb l.wTf.addr
  else numBytesToPb l.rTf.addr

/-- `r_num_bytes_possible`. -/
def rNumBytesPossible : PageLen := if l.decoupled then numBytesToPb l.rTf.addr else l.cNumBytesToPb

/-- `w_num_bytes_possible`. -/
def wNumBytesPossible : PageLen := if l.decoupled then numBytesToPb l.wTf.addr else l.cNumBytesToPb

/-- `r_done`. -/
def rDone : Bool := l.rTf.done l.rNumBytesPossible

/-- `w_done`. -/
def wDone : Bool := l.wTf.done l.wNumBytesPossible

/-- `r_num_bytes`. -/
def rNumBytes : PageLen := l.rTf.numBytes l.rNumBytesPossible

/-- `w_num_bytes`. -/
def wNumBytes : PageLen := l.wTf.numBytes l.wNumBytesPossible

/-- `ready_o`. -/
def readyO : Bool := l.rDone && l.wDone && rReady && wReady

/-- `r_tf_ena`. -/
def rTfEna : Bool := if l.decoupled then rReady else rReady && wReady

/-- `w_tf_ena`. -/
def wTfEna : Bool := if l.decoupled then wReady else rReady && wReady

/-- `r_valid_o`. -/
def rValidO : Bool := l.rTf.valid && l.rTfEna rReady wReady

/-- `w_valid_o`. -/
def wValidO : Bool := l.wTf.valid && l.wTfEna rReady wReady

/-- `r_req_o.r_dp_req`. -/
def rDpReq : DpReq where
  offset := offset l.rTf.addr
  tailer := l.rNumBytes.setWidth 2 + offset l.rTf.addr
  shift := l.optTf.readShift

/-- `r_req_o.ar_req`, its address. -/
def arReq : Word := wordOf l.rTf.addr

/-- `w_req_o.w_dp_req`. -/
def wDpReq : DpReq where
  offset := offset l.wTf.addr
  tailer := l.wNumBytes.setWidth 2 + offset l.wTf.addr
  shift := l.optTf.writeShift

/-- `w_req_o.aw_req`, its address. -/
def awReq : Word := wordOf l.wTf.addr

/-- The transfer that is taken in this cycle: `ready_o & valid_i`. -/
def taken : Option BurstReq := if l.readyO rReady wReady then req else none

/-- One clock edge. The job that reaches the backend names OBI for both sides and leaves the other
options clear, and the shifters are separate. -/
def next : Legalizer where
  rTf :=
    if l.rTfEna rReady wReady then
      match l.taken req rReady wReady with
      | some q => ⟨q.length, q.srcAddr, true⟩
      | none => l.rTf.advance l.rNumBytesPossible
    else l.rTf
  wTf :=
    if l.wTfEna rReady wReady then
      match l.taken req rReady wReady with
      | some q => ⟨q.length, q.dstAddr, true⟩
      | none => l.wTf.advance l.wNumBytesPossible
    else l.wTf
  optTf :=
    match l.taken req rReady wReady with
    | some q => ⟨.obi, .obi, offset q.srcAddr, -offset q.dstAddr, false, q.last⟩
    | none => l.optTf

end Legalizer

/-! ### Beats -/

/-- A piece of a transfer. -/
structure Beat where
  /-- The address of its first byte. -/
  addr : Word
  /-- The number of its bytes. -/
  num : ℕ
  deriving DecidableEq, Repr

/-- The addresses of `n` bytes from `addr` on. -/
def byteAddrs (addr : Word) (n : ℕ) : List Word :=
  (List.range n).map fun k => addr + BitVec.ofNat 32 k

/-- The addresses of the bytes of a beat. -/
def Beat.bytes (b : Beat) : List Word := byteAddrs b.addr b.num

/-- The number of bytes to the end of the word. -/
def room (addr : Word) : ℕ := 4 - addr.toNat % 4

theorem room_pos (addr : Word) : 0 < room addr := by
  unfold room
  omega

/-- The beats of a transfer of `n` bytes from `addr` on. -/
def beats (addr : Word) (n : ℕ) : List Beat :=
  if n ≤ room addr then [⟨addr, n⟩]
  else ⟨addr, room addr⟩ :: beats (addr + BitVec.ofNat 32 (room addr)) (n - room addr)
termination_by n
decreasing_by
  have := room_pos addr
  omega

/-- A transfer that stays within its word is one beat. -/
theorem beats_of_le {addr : Word} {n : ℕ} (h : n ≤ room addr) : beats addr n = [⟨addr, n⟩] := by
  rw [beats, if_pos h]

/-- Otherwise the first beat goes to the end of the word. -/
theorem beats_of_lt {addr : Word} {n : ℕ} (h : room addr < n) : beats addr n =
    ⟨addr, room addr⟩ :: beats (addr + BitVec.ofNat 32 (room addr)) (n - room addr) := by
  rw [beats, if_neg (by omega)]

theorem byteAddrs_add (addr : Word) (m n : ℕ) :
    byteAddrs addr (m + n) = byteAddrs addr m ++ byteAddrs (addr + BitVec.ofNat 32 m) n := by
  simp only [byteAddrs, List.range_add, List.map_append, List.map_map]
  congr 1
  refine List.map_congr_left fun k _ => ?_
  simp only [Function.comp_apply, BitVec.ofNat_add, BitVec.add_assoc]

/-- The beats of a transfer cover its bytes in order. -/
theorem bytes_beats (addr : Word) (n : ℕ) :
    (beats addr n).flatMap Beat.bytes = byteAddrs addr n := by
  induction n using Nat.strong_induction_on generalizing addr with
  | _ n ih =>
    rcases Nat.lt_or_ge (room addr) n with h | h
    · have hroom := room_pos addr
      rw [beats_of_lt h, List.flatMap_cons, ih (n - room addr) (by omega), Beat.bytes,
        ← byteAddrs_add, Nat.add_sub_cancel' h.le]
    · simp [beats_of_le h, Beat.bytes]

/-- A beat is not empty and stays within its word. -/
def Beat.Legal (b : Beat) : Prop := 0 < b.num ∧ b.addr.toNat % 4 + b.num ≤ 4

/-- The legalizer gives out legal beats only. -/
theorem mem_beats {addr : Word} {n : ℕ} (hn : 0 < n) : ∀ b ∈ beats addr n, b.Legal := by
  induction n using Nat.strong_induction_on generalizing addr with
  | _ n ih =>
    intro b hb
    rcases Nat.lt_or_ge (room addr) n with h | h
    · have hroom := room_pos addr
      rw [beats_of_lt h, List.mem_cons] at hb
      rcases hb with rfl | hb
      · exact ⟨hroom, by simp only [room]; omega⟩
      · exact ih (n - room addr) (by omega) (by omega) b hb
    · rw [beats_of_le h, List.mem_singleton] at hb
      subst hb
      exact ⟨hn, by simp only [room] at h ⊢; omega⟩

/-- What is told byte by byte of every beat is told of the transfer. -/
theorem flatMap_beats {β : Type*} {addr : Word} {n : ℕ} (hn : 0 < n) {f : Beat → List β}
    {g : Word → β}
    (h : ∀ b : Beat, b.Legal → f b = b.bytes.map g) :
    (beats addr n).flatMap f = (byteAddrs addr n).map g := by
  rw [List.flatMap_congr fun b hb => h b (mem_beats hn b hb), ← List.map_flatMap, bytes_beats]

/-! ### One side -/

theorem toNat_offset (addr : Word) : (offset addr).toNat = addr.toNat % 4 := by
  rw [offset, BitVec.toNat_setWidth]

theorem toNat_numBytesToPb (addr : Word) : (numBytesToPb addr).toNat = room addr := by
  have h : ∀ x : Offset, (4 - x.setWidth 3 : PageLen).toNat = 4 - x.toNat := by decide
  rw [numBytesToPb, h, toNat_offset, room]

namespace MutTf

/-- The beats that are left. -/
def pending (tf : MutTf) : List Beat := if tf.valid then beats tf.addr tf.length.toNat else []

/-- The beat that is given out next. -/
def beat (tf : MutTf) : Beat := ⟨tf.addr, (tf.numBytes (numBytesToPb tf.addr)).toNat⟩

variable {tf : MutTf}

/-- A side is at its last beat if what is left stays within the word. -/
theorem done_iff : tf.done (numBytesToPb tf.addr) = true ↔ tf.length.toNat ≤ room tf.addr := by
  have hp := (numBytesToPb tf.addr).isLt
  rw [done, Bool.not_eq_true', decide_eq_false_iff_not, BitVec.lt_def, BitVec.toNat_setWidth,
    Nat.mod_eq_of_lt (by omega), toNat_numBytesToPb, Nat.not_lt]

theorem toNat_numBytes :
    (tf.numBytes (numBytesToPb tf.addr)).toNat = min tf.length.toNat (room tf.addr) := by
  have hroom : room tf.addr ≤ 4 := Nat.sub_le 4 _
  unfold numBytes
  split
  · next h =>
    have hle := done_iff.mp h
    rw [BitVec.toNat_setWidth, Nat.mod_eq_of_lt (by omega), Nat.min_eq_left hle]
  · next h =>
    have hlt := mt done_iff.mpr h
    rw [toNat_numBytesToPb, Nat.min_eq_right (by omega)]

theorem pending_of_done (h : tf.done (numBytesToPb tf.addr) = true) :
    tf.pending = if tf.valid then [tf.beat] else [] := by
  have hle := done_iff.mp h
  rw [pending, beats_of_le hle, beat, toNat_numBytes, Nat.min_eq_left hle]

/-- Giving out a beat leaves the beats after it. -/
theorem pending_advance : tf.pending =
    (if tf.valid then [tf.beat] else []) ++ (tf.advance (numBytesToPb tf.addr)).pending := by
  cases hdone : tf.done (numBytesToPb tf.addr) with
  | true =>
    have hadv : (tf.advance (numBytesToPb tf.addr)).pending = [] := by
      rw [advance, hdone, if_pos rfl, pending]
      rfl
    rw [pending_of_done hdone, hadv, List.append_nil]
  | false =>
    have hlt : room tf.addr < tf.length.toNat := by
      have := mt done_iff.mpr (by rw [hdone]; exact Bool.false_ne_true)
      omega
    have hroom : room tf.addr ≤ 4 := Nat.sub_le 4 _
    have hpb : (numBytesToPb tf.addr).setWidth 32 = BitVec.ofNat 32 (room tf.addr) := by
      apply BitVec.eq_of_toNat_eq
      rw [BitVec.toNat_setWidth, toNat_numBytesToPb, BitVec.toNat_ofNat]
    have hlen : (tf.length - BitVec.ofNat 32 (room tf.addr)).toNat =
        tf.length.toNat - room tf.addr := by
      rw [BitVec.toNat_sub_of_le] <;> simp [BitVec.le_def] <;> omega
    have hadv : (tf.advance (numBytesToPb tf.addr)).pending =
        if tf.valid then
          beats (tf.addr + BitVec.ofNat 32 (room tf.addr)) (tf.length.toNat - room tf.addr)
        else [] := by
      rw [advance, hdone, if_neg Bool.false_ne_true, pending, numBytes, hdone,
        if_neg Bool.false_ne_true, hpb, hlen]
    rw [hadv, pending, beats_of_lt hlt, beat, toNat_numBytes, Nat.min_eq_right hlt.le]
    cases tf.valid <;> rfl

theorem pending_of_not_valid (h : tf.valid = false) : tf.pending = [] :=
  if_neg (by rw [h]; exact Bool.false_ne_true)

/-- A side that has nothing left stays so until a transfer is taken. -/
theorem valid_of_valid_advance {possible : PageLen} (h : (tf.advance possible).valid = true) :
    tf.valid = true := by
  cases hdone : tf.done possible with
  | true => simp [advance, hdone] at h
  | false => simpa [advance, hdone] using h

/-- A side that is at its last beat gives out all that is left. -/
theorem pending_of_last {possible : PageLen}
    (hpb : tf.valid = true → possible = numBytesToPb tf.addr)
    (hdone : tf.done possible = true) : tf.pending = if tf.valid then [tf.beat] else [] := by
  cases hv : tf.valid with
  | false => exact pending_of_not_valid hv
  | true =>
    rw [hpb hv] at hdone
    rw [pending_of_done hdone, hv]

/-- A side that advances gives out its next beat. -/
theorem pending_of_advance {possible : PageLen}
    (hpb : tf.valid = true → possible = numBytesToPb tf.addr) :
    tf.pending = (if tf.valid then [tf.beat] else []) ++ (tf.advance possible).pending := by
  cases hv : tf.valid with
  | false =>
    have hadv : (tf.advance possible).valid = false := by
      by_contra hne
      have := valid_of_valid_advance (Bool.eq_true_of_not_eq_false hne)
      rw [hv] at this
      cases this
    rw [pending_of_not_valid hv, pending_of_not_valid hadv]
    rfl
  | true =>
    rw [hpb hv]
    conv_lhs => rw [pending_advance]
    rw [hv]

/-- The number of beats that are left after one that is not the last. -/
theorem length_pending_advance_pos {possible : PageLen} (hv : tf.valid = true)
    (hdone : tf.done possible = false) : 0 < (tf.advance possible).pending.length := by
  have hvalid : (tf.advance possible).valid = true := by simp [advance, hdone, hv]
  rw [pending, if_pos hvalid, beats]
  split <;> simp

end MutTf

/-! ### The beats of a transfer -/

/-- A beat as the data path needs it: with the rotation of its bytes. -/
structure Shifted where
  /-- The beat. -/
  beat : Beat
  /-- `shift`. -/
  shift : Offset
  deriving DecidableEq, Repr

/-- The request to the data path for a beat. -/
def Shifted.dpReq (b : Shifted) : DpReq where
  offset := offset b.beat.addr
  tailer := BitVec.ofNat 2 b.beat.num + offset b.beat.addr
  shift := b.shift

theorem BurstReq.length_pos {q : BurstReq} (h : q.length ≠ 0) : 0 < q.length.toNat :=
  Nat.pos_of_ne_zero fun hz => h (BitVec.eq_of_toNat_eq hz)

/-- The beats that are read for a transfer. -/
def BurstReq.readBeats (q : BurstReq) : List Shifted :=
  (beats q.srcAddr q.length.toNat).map (⟨·, offset q.srcAddr⟩)

/-- The beats that are written for a transfer. -/
def BurstReq.writeBeats (q : BurstReq) : List Shifted :=
  (beats q.dstAddr q.length.toNat).map (⟨·, -offset q.dstAddr⟩)

/-- The marks of `n` beats of a transfer: `super_last` of the transfer, and `last` on the last of
them. -/
def lastMarks (superLast : Bool) (n : ℕ) : List (Bool × Bool) :=
  List.replicate (n - 1) (superLast, false) ++ [(superLast, true)]

/-- What `i_w_last` keeps of the beats that are written for a transfer. -/
def BurstReq.writeMarks (q : BurstReq) : List (Bool × Bool) := lastMarks q.last q.writeBeats.length

namespace Legalizer

variable (l : Legalizer) (req : Option BurstReq) (rReady wReady : Bool)

/-- The beats left to read. -/
def pendingReads : List Shifted := l.rTf.pending.map (⟨·, l.optTf.readShift⟩)

/-- The beats left to write. -/
def pendingWrites : List Shifted := l.wTf.pending.map (⟨·, l.optTf.writeShift⟩)

/-- The marks left to write. -/
def pendingMarks : List (Bool × Bool) :=
  if l.wTf.valid then lastMarks l.optTf.superLast l.pendingWrites.length else []

/-- The beat that the read side gives out in a cycle. -/
def readBeat : List Shifted :=
  if l.rValidO rReady wReady then [⟨l.rTf.beat, l.optTf.readShift⟩] else []

/-- The beat that the write side gives out in a cycle. -/
def writeBeat : List Shifted :=
  if l.wValidO rReady wReady then [⟨l.wTf.beat, l.optTf.writeShift⟩] else []

/-- The marks of the beat that the write side gives out in a cycle. -/
def writeMark : List (Bool × Bool) :=
  if l.wValidO rReady wReady then [(l.optTf.superLast, l.wDone)] else []

/-- A transfer that is being cut names an OBI port. -/
def Engaged : Prop := l.rTf.valid = true ∨ l.wTf.valid = true → l.decoupled = true

variable {l req rReady wReady}

theorem engaged_init : init.Engaged := by
  rintro (h | h) <;> cases h

/-- A transfer that is taken names an OBI port for both sides. -/
theorem Engaged.next (h : l.Engaged) : (l.next req rReady wReady).Engaged := by
  intro hvalid
  cases ht : l.taken req rReady wReady with
  | some q => simp [Legalizer.next, decoupled, ht]
  | none =>
    have hopt : (l.next req rReady wReady).decoupled = l.decoupled := by
      simp [Legalizer.next, decoupled, ht]
    rw [hopt]
    apply h
    simp only [Legalizer.next, ht] at hvalid
    refine hvalid.imp ?_ ?_
    · intro hv
      split at hv
      · exact MutTf.valid_of_valid_advance hv
      · exact hv
    · intro hv
      split at hv
      · exact MutTf.valid_of_valid_advance hv
      · exact hv

/-- A transfer is taken only if both sides are at their last beat and can give it out. -/
theorem of_taken {q : BurstReq} (h : l.taken req rReady wReady = some q) :
    req = some q ∧ l.rDone = true ∧ l.wDone = true ∧ l.rTfEna rReady wReady = true ∧
      l.wTfEna rReady wReady = true := by
  unfold taken at h
  split at h
  · next hready =>
    simp only [readyO, Bool.and_eq_true] at hready
    obtain ⟨⟨⟨hr, hw⟩, hrr⟩, hwr⟩ := hready
    refine ⟨h, hr, hw, ?_, ?_⟩ <;> simp [rTfEna, wTfEna, hrr, hwr]
  · cases h

theorem rNumBytesPossible_eq (h : l.Engaged) (hv : l.rTf.valid = true) :
    l.rNumBytesPossible = numBytesToPb l.rTf.addr := if_pos (h (.inl hv))

theorem wNumBytesPossible_eq (h : l.Engaged) (hv : l.wTf.valid = true) :
    l.wNumBytesPossible = numBytesToPb l.wTf.addr := if_pos (h (.inr hv))

/-- **The read side.** What is left of the transfers taken in is what is given out and what is left
then. -/
theorem conserved_read (h : l.Engaged) :
    l.pendingReads ++ (l.taken req rReady wReady).toList.flatMap BurstReq.readBeats =
      l.readBeat rReady wReady ++ (l.next req rReady wReady).pendingReads := by
  have hpb := rNumBytesPossible_eq h
  cases ht : l.taken req rReady wReady with
  | some q =>
    obtain ⟨-, hdone, -, hena, -⟩ := of_taken ht
    have hnext : (l.next req rReady wReady).pendingReads = q.readBeats := by
      simp [pendingReads, Legalizer.next, hena, ht, MutTf.pending, BurstReq.readBeats]
    rw [hnext, Option.toList_some, List.flatMap_singleton, pendingReads,
      MutTf.pending_of_last hpb hdone]
    cases hv : l.rTf.valid <;> simp [readBeat, rValidO, hv, hena]
  | none =>
    have hopt : (l.next req rReady wReady).optTf = l.optTf := by simp [Legalizer.next, ht]
    rw [Option.toList_none, List.flatMap_nil, List.append_nil, pendingReads, pendingReads, hopt]
    cases hena : l.rTfEna rReady wReady with
    | false => simp [Legalizer.next, readBeat, rValidO, hena]
    | true =>
      have hnext : (l.next req rReady wReady).rTf = l.rTf.advance l.rNumBytesPossible := by
        simp [Legalizer.next, hena, ht]
      rw [hnext, MutTf.pending_of_advance hpb, List.map_append]
      cases hv : l.rTf.valid <;> simp [readBeat, rValidO, hv, hena]

/-- **The write side.** -/
theorem conserved_write (h : l.Engaged) :
    l.pendingWrites ++ (l.taken req rReady wReady).toList.flatMap BurstReq.writeBeats =
      l.writeBeat rReady wReady ++ (l.next req rReady wReady).pendingWrites := by
  have hpb := wNumBytesPossible_eq h
  cases ht : l.taken req rReady wReady with
  | some q =>
    obtain ⟨-, -, hdone, -, hena⟩ := of_taken ht
    have hnext : (l.next req rReady wReady).pendingWrites = q.writeBeats := by
      simp [pendingWrites, Legalizer.next, hena, ht, MutTf.pending, BurstReq.writeBeats]
    rw [hnext, Option.toList_some, List.flatMap_singleton, pendingWrites,
      MutTf.pending_of_last hpb hdone]
    cases hv : l.wTf.valid <;> simp [writeBeat, wValidO, hv, hena]
  | none =>
    have hopt : (l.next req rReady wReady).optTf = l.optTf := by simp [Legalizer.next, ht]
    rw [Option.toList_none, List.flatMap_nil, List.append_nil, pendingWrites, pendingWrites, hopt]
    cases hena : l.wTfEna rReady wReady with
    | false => simp [Legalizer.next, writeBeat, wValidO, hena]
    | true =>
      have hnext : (l.next req rReady wReady).wTf = l.wTf.advance l.wNumBytesPossible := by
        simp [Legalizer.next, hena, ht]
      rw [hnext, MutTf.pending_of_advance hpb, List.map_append]
      cases hv : l.wTf.valid <;> simp [writeBeat, wValidO, hv, hena]

theorem lastMarks_one (superLast : Bool) : lastMarks superLast 1 = [(superLast, true)] := rfl

theorem lastMarks_succ {superLast : Bool} {n : ℕ} (hn : 0 < n) :
    lastMarks superLast (n + 1) = (superLast, false) :: lastMarks superLast n := by
  obtain ⟨m, rfl⟩ := Nat.exists_eq_succ_of_ne_zero hn.ne'
  rfl

/-- **The marks of the write side.** The last beat of a transfer is marked, and no other. -/
theorem conserved_marks (h : l.Engaged) :
    l.pendingMarks ++ (l.taken req rReady wReady).toList.flatMap BurstReq.writeMarks =
      l.writeMark rReady wReady ++ (l.next req rReady wReady).pendingMarks := by
  have hpb := wNumBytesPossible_eq h
  cases ht : l.taken req rReady wReady with
  | some q =>
    obtain ⟨-, -, hdone, -, hena⟩ := of_taken ht
    have hnext : (l.next req rReady wReady).pendingMarks = q.writeMarks := by
      simp [pendingMarks, pendingWrites, Legalizer.next, hena, ht, MutTf.pending,
        BurstReq.writeMarks, BurstReq.writeBeats]
    rw [hnext, Option.toList_some, List.flatMap_singleton, pendingMarks, pendingWrites,
      MutTf.pending_of_last hpb hdone]
    cases hv : l.wTf.valid <;> simp [writeMark, wValidO, hv, hena, hdone, lastMarks_one]
  | none =>
    have hopt : (l.next req rReady wReady).optTf = l.optTf := by simp [Legalizer.next, ht]
    rw [Option.toList_none, List.flatMap_nil, List.append_nil, pendingMarks, pendingMarks,
      pendingWrites, pendingWrites, hopt, List.length_map, List.length_map]
    cases hena : l.wTfEna rReady wReady with
    | false => simp [Legalizer.next, writeMark, wValidO, hena]
    | true =>
      have hnext : (l.next req rReady wReady).wTf = l.wTf.advance l.wNumBytesPossible := by
        simp [Legalizer.next, hena, ht]
      rw [hnext]
      cases hv : l.wTf.valid with
      | false =>
        have hadv : ¬ (l.wTf.advance l.wNumBytesPossible).valid = true := fun hadv => by
          rw [MutTf.valid_of_valid_advance hadv] at hv
          cases hv
        simp [writeMark, wValidO, hv, hadv]
      | true =>
        rw [MutTf.pending_of_advance hpb, hv, if_pos rfl, if_pos rfl, List.length_append,
          List.length_singleton, Nat.add_comm]
        cases hdone : l.wTf.done l.wNumBytesPossible with
        | true =>
          have hadv : l.wTf.advance l.wNumBytesPossible = { l.wTf with valid := false } := by
            simp [MutTf.advance, hdone]
          simp [writeMark, wValidO, hv, hena, wDone, hdone, hadv, MutTf.pending, lastMarks_one]
        | false =>
          have hpos := MutTf.length_pending_advance_pos hv hdone
          have hvalid : (l.wTf.advance l.wNumBytesPossible).valid = true := by
            simp [MutTf.advance, hdone, hv]
          rw [lastMarks_succ hpos]
          simp [writeMark, wValidO, hv, hena, wDone, hdone, hvalid]

/-- What the read side hands to the data path for a beat. -/
theorem rDpReq_eq (h : l.Engaged) (hv : l.rTf.valid = true) :
    l.rDpReq = (⟨l.rTf.beat, l.optTf.readShift⟩ : Shifted).dpReq := by
  rw [rDpReq, rNumBytes, rNumBytesPossible_eq h hv, Shifted.dpReq, MutTf.beat, BitVec.ofNat_toNat]

/-- What the write side hands to the data path for a beat. -/
theorem wDpReq_eq (h : l.Engaged) (hv : l.wTf.valid = true) :
    l.wDpReq = (⟨l.wTf.beat, l.optTf.writeShift⟩ : Shifted).dpReq := by
  rw [wDpReq, wNumBytes, wNumBytesPossible_eq h hv, Shifted.dpReq, MutTf.beat, BitVec.ofNat_toNat]

end Legalizer

end Idma

end Croc
