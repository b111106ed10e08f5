import Croc.Lib.Lanes
import Croc.Idma.Flow

/-!
# The bytes that are written are those that were read

A byte that is read goes to one of four lanes: the read side rotates the word by the offset of the
source, and the write side rotates the lanes by the offset of the destination. So consecutive bytes
of a transfer lie in consecutive lanes, on either side. The lanes together hold the bytes that were
dealt and not yet collected; each lane holds its share, in order.

## Main definitions

* `readAddrs`, `destinations`: what transfers read, word by word, and what they write, byte by byte.
* `fetched`: the bytes that transfers fetch.
* `Backend.written`: the bytes that were written.

## Main results

* `Backend.Disciplined.lanes_hold`: what the lanes hold.
* `Backend.readLog_isPrefix`, `Backend.map_fst_written_isPrefix`: the addresses on the ports.
* `Backend.Disciplined.written_isPrefix`: the bytes are written in order, as they were fetched.
-/

namespace Croc

namespace Idma

open Clocked ByteMemory

open Bits (Word)

namespace Backend

variable {s : Backend} {i : BackendIn}

/-! ### The lanes in one cycle -/

theorem maskBit_bufferOutValid (l : Offset) : maskBit s.bufferOutValid l = (s.lanes l).validO := by
  rw [maskBit, bufferOutValid, Bits.getLsbD_ofFn, decide_eq_true l.isLt, Bool.true_and,
    BitVec.ofNat_toNat, BitVec.setWidth_eq]

theorem maskBit_outReady (l : Offset) : maskBit (s.outReady i) l =
    (s.writeHappening i && maskBit (s.wDp i).mask (l - (s.wDp i).shift)) := by
  rw [outReady, maskBit_rotateMask, ← BitVec.sub_eq_add_neg, bufferOutReady]
  cases s.writeHappening i with
  | false =>
    rw [Bool.false_and, if_neg Bool.false_ne_true, maskBit]
    exact BitVec.getLsbD_zero
  | true => rfl

/-- A write happens only if all its lanes hold a byte. -/
theorem validO_of_maskBit_outReady {l : Offset} (h : maskBit (s.outReady i) l = true) :
    (s.lanes l).validO = true := by
  rw [maskBit_outReady, Bool.and_eq_true] at h
  obtain ⟨hw, hm⟩ := h
  simp only [writeHappening, readyToWrite, Bool.and_eq_true, beq_iff_eq] at hw
  have hmask := congrArg (maskBit · (l - (s.wDp i).shift)) hw.1.1.2
  have hand : maskBit (s.outValid i &&& (s.wDp i).mask) (l - (s.wDp i).shift) =
      (maskBit (s.outValid i) (l - (s.wDp i).shift) &&
        maskBit (s.wDp i).mask (l - (s.wDp i).shift)) :=
    BitVec.getLsbD_and
  simp only [hand, hm, Bool.and_true] at hmask
  rw [outValid, maskBit_rotateMask, BitVec.sub_add_cancel, maskBit_bufferOutValid] at hmask
  exact hmask

theorem mem_writeLanes {l : Offset} : l ∈ (s.wDp i).writeLanes ↔
    maskBit (s.wDp i).mask (l - (s.wDp i).shift) = true := by
  rw [DpReq.writeLanes, List.mem_map]
  constructor
  · rintro ⟨p, hp, rfl⟩
    rw [BitVec.add_sub_cancel]
    exact DpReq.mem_positions.mp hp
  · intro h
    exact ⟨_, DpReq.mem_positions.mpr h, BitVec.sub_add_cancel _ _⟩

theorem nodup_readLanes (q : DpReq) : q.readLanes.Nodup :=
  q.nodup_positions.map fun _ _ h => by simpa using congrArg (· + q.shift) h

theorem nodup_writeLanes (q : DpReq) : q.writeLanes.Nodup :=
  q.nodup_positions.map fun _ _ h => by simpa using congrArg (· - q.shift) h

theorem collected_eq : s.collected i =
    if s.writeHappening i then (s.wDp i).writeLanes.map fun l => (l, s.laneOut i l) else [] := by
  rw [collected, DpReq.writeLanes, List.map_map]
  rfl

/-- What is pushed to a lane is what is dealt to it. -/
theorem lanePush_toList (l : Offset) : (s.lanePush i l).toList = Lanes.lane (s.dealt i) l := by
  cases hin : s.received i with
  | nil =>
    have hbuf : s.bufferIn i = none := by
      rw [received] at hin
      rw [bufferIn]
      cases hr : s.rRready i with
      | false => rfl
      | true =>
        rw [hr, if_pos rfl, Option.toList_eq_nil_iff] at hin
        rw [hin]
        rfl
    rw [lanePush, hbuf, dealt, hin]
    cases maskBit (s.maskIn i) l <;> rfl
  | cons d rest =>
    obtain ⟨hready, hout, rfl⟩ : s.rRready i = true ∧ s.rOut i = some d ∧ rest = [] := by
      rw [received] at hin
      cases hr : s.rRready i with
      | false => rw [hr, if_neg Bool.false_ne_true] at hin; cases hin
      | true =>
        rw [hr, if_pos rfl] at hin
        cases ho : s.rOut i with
        | none => rw [ho] at hin; cases hin
        | some e => rw [ho] at hin; cases hin; exact ⟨rfl, rfl, rfl⟩
    have hdealt : s.dealt i =
        (s.rDp i).positions.map fun p => (p - (s.rDp i).shift, byteOf d p.toNat) := by
      rw [dealt, hin, List.flatMap_singleton]
    have hfst : (s.dealt i).map Prod.fst = (s.rDp i).readLanes := by
      rw [hdealt, List.map_map]
      rfl
    have hbit : maskBit (s.maskIn i) l = maskBit (s.rDp i).mask (l + (s.rDp i).shift) :=
      maskBit_rotateMask _ _ _
    rw [lanePush, hbit, bufferIn, hready, if_pos rfl, hout]
    cases hm : maskBit (s.rDp i).mask (l + (s.rDp i).shift) with
    | true =>
      have hmem : (l, byteOf d (l + (s.rDp i).shift).toNat) ∈ s.dealt i := by
        rw [hdealt, List.mem_map]
        exact ⟨_, DpReq.mem_positions.mpr hm, by rw [BitVec.add_sub_cancel]⟩
      rw [Lanes.lane_of_mem (hfst ▸ nodup_readLanes _) hmem, if_pos rfl, Option.map_some,
        Option.map_some, byteOf_rotateBytes]
      rfl
    | false =>
      rw [Lanes.lane_of_not_mem, if_neg Bool.false_ne_true]
      · rfl
      · rw [hfst, DpReq.readLanes, List.mem_map]
        rintro ⟨p, hp, rfl⟩
        rw [BitVec.sub_add_cancel, DpReq.mem_positions.mp hp] at hm
        cases hm

/-- The lane of the bytes that are taken. -/
theorem lane_collected {l : Offset} : Lanes.lane (s.collected i) l =
    if maskBit (s.outReady i) l then [s.laneOut i l] else [] := by
  rw [collected_eq, maskBit_outReady]
  cases s.writeHappening i with
  | false => rfl
  | true =>
    have hfst : ((s.wDp i).writeLanes.map fun l => (l, s.laneOut i l)).map Prod.fst =
        (s.wDp i).writeLanes := by
      rw [List.map_map]
      exact List.map_id _
    rw [if_pos rfl, Bool.true_and]
    cases hm : maskBit (s.wDp i).mask (l - (s.wDp i).shift) with
    | true =>
      refine Lanes.lane_of_mem (by rw [hfst]; exact nodup_writeLanes _) ?_
      exact List.mem_map.mpr ⟨l, mem_writeLanes.mpr hm, rfl⟩
    | false =>
      refine Lanes.lane_of_not_mem ?_
      rw [hfst, mem_writeLanes, hm]
      exact Bool.false_ne_true

/-- The bytes that are taken from the lanes are the oldest of the stream, if the beat asks for the
lanes at its front. -/
theorem collected_isPrefix {held : List (Offset × BitVec 8)}
    (hheld : ∀ l, (s.lanes l).store.items = Lanes.lane held l)
    (hfront : s.writeHappening i = true → (s.wDp i).writeLanes <+: held.map Prod.fst) :
    s.collected i <+: held := by
  rw [collected_eq]
  cases hw : s.writeHappening i with
  | false => exact List.nil_prefix
  | true =>
    refine Lanes.map_head_isPrefix (hfront hw) (nodup_writeLanes _) fun l hl => ?_
    have hbit : maskBit (s.outReady i) l = true := by
      rw [maskBit_outReady, hw, mem_writeLanes.mp hl]
      rfl
    have hvalid := validO_of_maskBit_outReady hbit
    rw [← hheld, laneOut]
    cases hi : (s.lanes l).store.items with
    | nil => simp [PassthroughStreamFifo.validO, hi] at hvalid
    | cons a q => rfl

/-- **One edge of the lanes.** They lose the bytes that are taken and gain those that are dealt. -/
theorem lanes_next {held rest : List (Offset × BitVec 8)}
    (hheld : ∀ l, (s.lanes l).store.items = Lanes.lane held l)
    (hrest : s.collected i ++ rest = held) (l : Offset) :
    ((s.next i).lanes l).store.items = Lanes.lane (rest ++ s.dealt i) l := by
  have hpush : (s.lanePush i l).isSome = true →
      (s.lanes l).readyO (maskBit (s.outReady i) l) = true := by
    intro h
    rw [lanePush] at h
    cases hm : maskBit (s.maskIn i) l with
    | false => rw [hm, if_neg Bool.false_ne_true] at h; cases h
    | true =>
      rw [hm, if_pos rfl, Option.isSome_map, bufferIn] at h
      cases hr : s.rRready i with
      | false => rw [hr, if_neg Bool.false_ne_true] at h; cases h
      | true =>
        have hin := (Bool.and_eq_true _ _ ▸ hr : _ ∧ _).1
        have hl := of_decide_eq_true hin l
        rw [hm, Bool.not_true, Bool.or_false] at hl
        exact hl
  have hcons : (s.lanes l).store.items ++ (s.lanePush i l).toList =
      (if maskBit (s.outReady i) l then (s.lanes l).store.items.head?.toList else []) ++
        ((s.next i).lanes l).store.items :=
    PassthroughStreamFifo.conserved hpush validO_of_maskBit_outReady
  have hitems : (s.lanes l).store.items =
      (if maskBit (s.outReady i) l then [s.laneOut i l] else []) ++ Lanes.lane rest l := by
    rw [hheld, ← hrest, Lanes.lane_append, lane_collected]
  have hhead : (if maskBit (s.outReady i) l then (s.lanes l).store.items.head?.toList else []) =
      if maskBit (s.outReady i) l then [s.laneOut i l] else [] := by
    rw [hitems]
    cases maskBit (s.outReady i) l <;> rfl
  rw [hhead, hitems, List.append_assoc, lanePush_toList] at hcons
  rw [Lanes.lane_append]
  exact (List.append_cancel_left hcons).symm

/-! ### The lanes in a run -/

/-- The bytes of an answer, as they are dealt. -/
def deal (x : DpReq × Word) : List (Offset × BitVec 8) :=
  x.1.positions.map fun p => (p - x.1.shift, byteOf x.2 p.toNat)

section Run

variable {ins : ℕ → BackendIn} {t : ℕ}

theorem length_ne_zero_of_mem {q : BurstReq} (h : q ∈ transfers ins t) : q.length ≠ 0 := by
  induction t with
  | zero => cases h
  | succ t ih =>
    rw [transfers, Machine.log_succ, List.mem_append] at h
    rcases h with h | h
    · exact ih h
    · obtain ⟨hreq, -⟩ := Legalizer.of_taken (Option.mem_toList.mp h)
      rw [legReq] at hreq
      cases hr : (ins t).req with
      | none => rw [hr] at hreq; cases hreq
      | some q' =>
        rw [hr] at hreq
        by_cases hz : q'.length = 0
        · simp [hz] at hreq
        · simp only [if_neg hz, Option.some.injEq] at hreq
          exact hreq ▸ hz

/-- The lanes of all transfers, in turn for each of them. -/
def lanesOf (T : List BurstReq) : List Offset := T.flatMap fun q => laneSeq q.length.toNat

theorem readLanes_transfers :
    ((transfers ins t).flatMap BurstReq.readBeats).flatMap (fun b => b.dpReq.readLanes) =
    lanesOf (transfers ins t) := by
  rw [List.flatMap_assoc]
  exact List.flatMap_congr fun q hq => readLanes_readBeats (length_ne_zero_of_mem hq)

theorem writeLanes_transfers :
    ((transfers ins t).flatMap BurstReq.writeBeats).flatMap (fun b => b.dpReq.writeLanes) =
      lanesOf (transfers ins t) := by
  rw [List.flatMap_assoc]
  exact List.flatMap_congr fun q hq => writeLanes_writeBeats (length_ne_zero_of_mem hq)

/-- The bytes that were dealt are those of the answers that the data path took. -/
theorem Disciplined.log_dealt (h : Disciplined ins) (t : ℕ) : machine.log ins dealt t =
    ((machine.log ins rPopped t).zip (machine.log ins received t)).flatMap deal := by
  induction t with
  | zero => rfl
  | succ t ih =>
    have hlen := h.length_rPopped t
    have hlen' := h.length_rPopped (t + 1)
    rw [Machine.log_succ, Machine.log_succ, List.length_append, List.length_append, hlen] at hlen'
    rw [Machine.log_succ, Machine.log_succ, Machine.log_succ, ih, List.zip_append hlen,
      List.flatMap_append]
    congr 1
    have hcycle : ((machine.stateAt ins t).rPopped (ins t)).length =
        ((machine.stateAt ins t).received (ins t)).length := by omega
    rw [dealt]
    cases hr : (machine.stateAt ins t).received (ins t) with
    | nil => rw [List.zip_nil_right]; rfl
    | cons d rest =>
      rw [hr, rPopped] at hcycle
      rw [rPopped]
      cases hready : (machine.stateAt ins t).rDpReady (ins t) with
      | false => rw [hready] at hcycle; cases hcycle
      | true =>
        rw [hready, if_pos rfl, List.length_singleton, List.length_cons] at hcycle
        obtain rfl : rest = [] := List.eq_nil_of_length_eq_zero (by omega)
        rfl

theorem map_fst_deal (x : DpReq × Word) : (deal x).map Prod.fst = x.1.readLanes := by
  rw [deal, List.map_map]
  rfl

theorem Disciplined.labels_dealt (h : Disciplined ins) (t : ℕ) :
    (machine.log ins dealt t).map Prod.fst <+: lanesOf (transfers ins t) := by
  have hpopped : machine.log ins rPopped t <+:
      ((transfers ins t).flatMap BurstReq.readBeats).map Shifted.dpReq := by
    rw [log_readBeat, List.map_append, log_rPopped, List.append_assoc]
    exact List.prefix_append _ _
  have hlabels : (machine.log ins dealt t).map Prod.fst =
      (machine.log ins rPopped t).flatMap DpReq.readLanes := by
    rw [h.log_dealt, List.map_flatMap]
    simp only [map_fst_deal]
    rw [← List.flatMap_map Prod.fst, List.map_fst_zip (h.length_rPopped t).le]
  rw [hlabels, ← readLanes_transfers, ← List.flatMap_map Shifted.dpReq]
  exact hpopped.flatMap _

theorem labels_collected (t : ℕ) : (machine.log ins collected t).map Prod.fst =
    (machine.log ins wPopped t).flatMap DpReq.writeLanes := by
  rw [← Machine.log_map, ← Machine.log_flatMap]
  congr 1
  funext s i
  rw [collected_eq, wPopped]
  cases s.writeHappening i with
  | false => rfl
  | true =>
    rw [if_pos rfl, if_pos rfl, List.map_map, List.flatMap_singleton]
    exact List.map_id _

/-- A write that happens asks for the lanes that follow those taken before. -/
theorem labels_writeHappening (hw : (machine.stateAt ins t).writeHappening (ins t) = true) :
    (machine.log ins collected t).map Prod.fst ++
      ((machine.stateAt ins t).wDp (ins t)).writeLanes <+:
      lanesOf (transfers ins t) := by
  have hvalid : (machine.stateAt ins t).wDpReqs.validO = true := by
    simp only [writeHappening, readyToWrite, Bool.and_eq_true] at hw
    exact hw.1.1.1.2
  obtain ⟨rest, hrest⟩ : ∃ rest, (machine.stateAt ins t).wDpReqs.store.items =
      (machine.stateAt ins t).wDp (ins t) :: rest := by
    rw [wDp]
    cases hi : (machine.stateAt ins t).wDpReqs.store.items with
    | nil => simp [StreamFifo.validO, hi] at hvalid
    | cons a l => exact ⟨l, rfl⟩
  have hpopped : machine.log ins wPopped t ++ [(machine.stateAt ins t).wDp (ins t)] <+:
      ((transfers ins t).flatMap BurstReq.writeBeats).map Shifted.dpReq := by
    rw [log_writeBeat, List.map_append, log_wPopped, hrest, List.append_assoc]
    refine (List.prefix_append_right_inj _).mpr ?_
    rw [List.cons_append]
    exact List.cons_prefix_cons.mpr ⟨rfl, List.nil_prefix⟩
  have hlanes := hpopped.flatMap DpReq.writeLanes
  rw [List.flatMap_append, List.flatMap_singleton, ← labels_collected, List.flatMap_map] at hlanes
  exact hlanes.trans (by rw [writeLanes_transfers])

/-- **The lanes hold** the bytes that were dealt and not yet taken, in the order of the
transfers. -/
theorem Disciplined.lanes_hold (h : Disciplined ins) (t : ℕ) : ∃ held,
    machine.log ins dealt t = machine.log ins collected t ++ held ∧
      ∀ l, ((machine.stateAt ins t).lanes l).store.items = Lanes.lane held l := by
  induction t with
  | zero => exact ⟨[], rfl, fun _ => rfl⟩
  | succ t ih =>
    obtain ⟨held, hlog, hheld⟩ := ih
    have hdealt := h.labels_dealt t
    rw [hlog, List.map_append] at hdealt
    have hfront : (machine.stateAt ins t).writeHappening (ins t) = true →
        ((machine.stateAt ins t).wDp (ins t)).writeLanes <+: held.map Prod.fst := by
      intro hw
      have hnext := labels_writeHappening hw
      obtain ⟨L, hL⟩ := (List.prefix_append _ _).trans hnext
      rw [← hL, List.prefix_append_right_inj] at hdealt hnext
      refine Lanes.prefix_of_ready hdealt hnext (nodup_writeLanes _) fun l hl => ?_
      have hvalid : ((machine.stateAt ins t).lanes l).validO = true := by
        apply validO_of_maskBit_outReady
        rw [maskBit_outReady, hw, mem_writeLanes.mp hl]
        rfl
      rw [← hheld]
      intro hnil
      simp [PassthroughStreamFifo.validO, hnil] at hvalid
    obtain ⟨rest, hrest⟩ := collected_isPrefix hheld hfront
    refine ⟨rest ++ (machine.stateAt ins t).dealt (ins t), ?_, lanes_next hheld hrest⟩
    rw [Machine.log_succ, Machine.log_succ, hlog, ← hrest]
    simp only [List.append_assoc]

end Run

end Backend

/-! ### What is written -/

/-- The bytes of a write, with their addresses. -/
def Write.bytes (w : Write) : List (Word × BitVec 8) :=
  (enabled w.be).map fun p => (w.addr + p.setWidth 32, byteOf w.wdata p.toNat)

/-- The addresses that transfers write, in order. -/
def destinations (T : List BurstReq) : List Word :=
  T.flatMap fun q => byteAddrs q.dstAddr q.length.toNat

/-- The addresses of the words that transfers read, in order. -/
def readAddrs (T : List BurstReq) : List Word :=
  (T.flatMap BurstReq.readBeats).map fun b => wordOf b.beat.addr

/-- The bytes that transfers fetch, in order, if their reads are answered by `rsps`: of the answer
to a beat those at the addresses of the beat. -/
def fetched (T : List BurstReq) (rsps : List Word) : List (BitVec 8) :=
  ((T.flatMap BurstReq.readBeats).zip rsps).flatMap fun x => x.1.beat.bytes.map fun a =>
    byteOf x.2 (lane a)

namespace Backend

variable {s : Backend} {i : BackendIn}

theorem byteOf_bufferOut (l : Offset) : byteOf (s.bufferOut i) l.toNat = s.laneOut i l := by
  have hout := byteOf_append (fun k => s.laneOut i (BitVec.ofNat 2 k)) l.isLt
  rw [BitVec.ofNat_toNat, BitVec.setWidth_eq] at hout
  exact hout

theorem byteOf_and_byteMask {d : Word} {be : BitVec 4} {p : Offset} (h : maskBit be p = true) :
    byteOf (d &&& Bits.byteMask be) p.toNat = byteOf d p.toNat := by
  refine BitVec.eq_of_getLsbD_eq fun k hk => ?_
  have hp := p.isLt
  have hdiv : (8 * p.toNat + k) / 8 = p.toNat := by omega
  rw [byteOf, byteOf, BitVec.getLsbD_extractLsb', BitVec.getLsbD_extractLsb', BitVec.getLsbD_and,
    Bits.getLsbD_byteMask _ (by omega), hdiv]
  rw [maskBit] at h
  rw [h, Bool.and_true]

/-- The values that are written are the bytes that are taken from the lanes. -/
theorem map_snd_writes :
    ((s.writes i).flatMap Write.bytes).map Prod.snd = (s.collected i).map Prod.snd := by
  rw [writes_eq, collected]
  cases hw : s.writeHappening i with
  | false => rfl
  | true =>
    obtain ⟨a, ha⟩ := Option.isSome_iff_exists.mp (awDp_of_writeHappening hw)
    rw [ha, if_pos rfl, if_pos rfl, Option.toList_some, List.map_singleton, List.flatMap_singleton,
      Write.bytes, List.map_map, List.map_map]
    refine List.map_congr_left fun p hp => ?_
    rw [Function.comp_apply, Function.comp_apply, byteOf_and_byteMask (List.mem_filter.mp hp).2,
      byteOf_rotateBytes, byteOf_bufferOut]

theorem map_be_writes : (s.writes i).map Write.be = (s.wPopped i).map DpReq.mask := by
  rw [writes_eq, wPopped]
  cases hw : s.writeHappening i with
  | false => rfl
  | true =>
    obtain ⟨a, ha⟩ := Option.isSome_iff_exists.mp (awDp_of_writeHappening hw)
    rw [ha]
    rfl

/-- The bytes of a word that a beat writes. -/
theorem map_enabled_mask {b : Shifted} (h : b.beat.Legal) :
    (enabled b.dpReq.mask).map (fun p => wordOf b.beat.addr + p.setWidth 32) = b.beat.bytes := by
  have hpos : enabled b.dpReq.mask = b.beat.bytes.map offset := Shifted.positions_dpReq h
  rw [hpos, List.map_map]
  exact (List.map_congr_left fun a ha => wordOf_add_offset h ha).trans (List.map_id _)

section Run

variable {ins : ℕ → BackendIn} (t : ℕ)

/-- The bytes that were written before cycle `t`, with their addresses. -/
def written (ins : ℕ → BackendIn) (t : ℕ) : List (Word × BitVec 8) :=
  (writeLog ins t).flatMap Write.bytes

theorem map_snd_written :
    (written ins t).map Prod.snd = (machine.log ins collected t).map Prod.snd := by
  rw [written, writeLog, ← Machine.log_flatMap, ← Machine.log_map, ← Machine.log_map]
  congr 1
  funext s i
  exact map_snd_writes

/-- The writes are those of the first beats of the transfers. -/
theorem map_fst_written : (written ins t).map Prod.fst =
    (((transfers ins t).flatMap BurstReq.writeBeats).take (writeLog ins t).length).flatMap
      (fun b => b.beat.bytes) := by
  set m := (writeLog ins t).length with hm
  set E := (transfers ins t).flatMap BurstReq.writeBeats with hE
  have hlen : (machine.log ins wPopped t).length = m := length_wPopped t
  have hdp : (E.take m).map Shifted.dpReq = machine.log ins wPopped t := by
    rw [List.map_take, hE, log_writeBeat, List.map_append, log_wPopped, List.append_assoc,
      List.take_left' hlen]
  have haddr : (E.take m).map (fun b => wordOf b.beat.addr) = (writeLog ins t).map Write.addr := by
    rw [List.map_take, hE, log_writeBeat, List.map_append, log_writes, List.append_assoc,
      List.take_left' (List.length_map _)]
  have hbe : (E.take m).map (fun b => b.dpReq.mask) = (writeLog ins t).map Write.be := by
    have hmap : (E.take m).map (fun b => b.dpReq.mask) =
        ((E.take m).map Shifted.dpReq).map DpReq.mask := by
      rw [List.map_map]
      rfl
    rw [hmap, hdp, writeLog, ← Machine.log_map, ← Machine.log_map]
    congr 1
    funext s i
    exact map_be_writes.symm
  have hpairs : (writeLog ins t).map (fun w => (w.addr, w.be)) =
      (E.take m).map (fun b => (wordOf b.beat.addr, b.dpReq.mask)) := by
    rw [← List.zip_map', ← List.zip_map', haddr, hbe]
  have hlegal : ∀ b ∈ E.take m, b.beat.Legal := by
    intro b hb
    obtain ⟨q, hq, hbq⟩ := List.mem_flatMap.mp (List.mem_of_mem_take hb)
    obtain ⟨b', hb', rfl⟩ := List.mem_map.mp hbq
    exact mem_beats (BurstReq.length_pos (length_ne_zero_of_mem hq)) b' hb'
  have hfst : (written ins t).map Prod.fst = ((writeLog ins t).map fun w => (w.addr, w.be)).flatMap
      fun x => (enabled x.2).map fun p => x.1 + p.setWidth 32 := by
    rw [written, List.map_flatMap, List.flatMap_map]
    refine List.flatMap_congr fun w _ => ?_
    rw [Write.bytes, List.map_map]
    rfl
  rw [hfst, hpairs, List.flatMap_map]
  exact List.flatMap_congr fun b hb => map_enabled_mask (hlegal b hb)

theorem legal_of_mem_readBeats {b : Shifted}
    (h : b ∈ (transfers ins t).flatMap BurstReq.readBeats) :
    b.beat.Legal := by
  obtain ⟨q, hq, hb⟩ := List.mem_flatMap.mp h
  obtain ⟨b', hb', rfl⟩ := List.mem_map.mp hb
  exact mem_beats (BurstReq.length_pos (length_ne_zero_of_mem hq)) b' hb'

theorem map_snd_deal {b : Shifted} (h : b.beat.Legal) (d : Word) :
    (deal (b.dpReq, d)).map Prod.snd = b.beat.bytes.map fun a => byteOf d (lane a) := by
  have hlane : ∀ a : Word, lane a = (offset a).toNat := by
    intro a
    rw [lane, toNat_offset, BitVec.extractLsb'_toNat, Nat.shiftRight_zero]
  rw [deal, List.map_map, Shifted.positions_dpReq h, List.map_map]
  refine List.map_congr_left fun a _ => ?_
  rw [hlane]
  rfl

/-- The bytes that were dealt are the first of those that the transfers fetch. -/
theorem Disciplined.map_snd_dealt (h : Disciplined ins) :
    (machine.log ins dealt t).map Prod.snd <+: fetched (transfers ins t) (rspLog ins t) := by
  set B := (transfers ins t).flatMap BurstReq.readBeats with hB
  obtain ⟨restP, hP⟩ : machine.log ins rPopped t <+: B.map Shifted.dpReq := by
    rw [hB, log_readBeat, List.map_append, log_rPopped, List.append_assoc]
    exact List.prefix_append _ _
  have hzip : (machine.log ins rPopped t).zip (machine.log ins received t) <+:
      (B.map Shifted.dpReq).zip (rspLog ins t) := by
    rw [← hP, h.log_received, List.zip_append (h.length_rPopped t)]
    exact List.prefix_append _ _
  have hfetched : fetched (transfers ins t) (rspLog ins t) =
      ((B.map Shifted.dpReq).zip (rspLog ins t)).flatMap fun x => (deal x).map Prod.snd := by
    rw [fetched, List.zip_map_left, List.flatMap_map]
    refine List.flatMap_congr fun x hx => ?_
    exact (map_snd_deal (legal_of_mem_readBeats t (List.of_mem_zip hx).1) x.2).symm
  rw [h.log_dealt, List.map_flatMap, hfetched]
  exact hzip.flatMap _

/-- The words that were read are those of the transfers that were taken, in order. -/
theorem readLog_isPrefix : readLog ins t <+: readAddrs (transfers ins t) := by
  rw [readAddrs, log_readBeat, List.map_append, log_reads, List.append_assoc]
  exact List.prefix_append _ _

theorem bytes_writeBeats (T : List BurstReq) :
    (T.flatMap BurstReq.writeBeats).flatMap (fun b => b.beat.bytes) = destinations T := by
  rw [List.flatMap_assoc]
  refine List.flatMap_congr fun q _ => ?_
  rw [BurstReq.writeBeats, List.flatMap_map]
  exact bytes_beats _ _

/-- The bytes that were written went to the destinations of the transfers, in order. -/
theorem map_fst_written_isPrefix :
    (written ins t).map Prod.fst <+: destinations (transfers ins t) := by
  rw [map_fst_written, ← bytes_writeBeats]
  exact List.take_prefix _ _ |>.flatMap _

/-- The bytes that were written are those that were fetched, in order. -/
theorem Disciplined.map_snd_written_isPrefix (h : Disciplined ins) :
    (written ins t).map Prod.snd <+: fetched (transfers ins t) (rspLog ins t) := by
  obtain ⟨held, hlog, -⟩ := h.lanes_hold t
  refine List.IsPrefix.trans ?_ (h.map_snd_dealt t)
  rw [map_snd_written, hlog, List.map_append]
  exact List.prefix_append _ _

theorem Disciplined.written_isPrefix (h : Disciplined ins) : written ins t <+:
    (destinations (transfers ins t)).zip (fetched (transfers ins t) (rspLog ins t)) := by
  obtain ⟨restA, hA⟩ := @map_fst_written_isPrefix ins t
  obtain ⟨restB, hB⟩ := h.map_snd_written_isPrefix t
  rw [← hA, ← hB, List.zip_append (by rw [List.length_map, List.length_map])]
  refine ⟨restA.zip restB, congrArg (· ++ _) ?_⟩
  exact List.zip_of_prod rfl rfl

end Run

end Backend

end Idma

end Croc
