import Croc.Sram.Transfer

/-!
# Capabilities survive memory

A capability that is stored to a granule of the SRAM and loaded back, with no write to the granule
in between, is the capability that was stored. The two words go to memory and come back in four
separate bus cycles, at any distance, while the other managers use the banks as they like; the
correction bits do not go to memory at all and are computed again from the address on the way back.

## Main definitions

* `DataPath.revoked`: the filter finds the capability that it delivers revoked.

## Main results

* `DataPath.Transfer.stored`: what a store leaves in memory.
* `DataPath.Transfer.tags`: the tags that a load returns.
* `DataPath.cap_round_trip`: a capability survives memory.
-/

namespace Croc

namespace Sram

open Cheriot Clocked Lsu Revocation

open Bits (Word)

open ByteMemory (wordOf_eq)

/-- The metadata word under its tag. -/
theorem cons_setWidth_capToMem (cap : Cap) :
    BitVec.cons cap.valid ((capToMem cap).setWidth 32) = capToMem cap := by
  rw [← getLsbD_capToMem]
  ext j hj
  simp only [BitVec.getElem_cons, BitVec.getElem_setWidth]
  split_ifs with h
  · simp [h]
  · exact BitVec.getLsbD_eq_getElem hj

/-- **The memory format loses the correction bits and nothing else.** -/
theorem memToCap_stored (cap : Cap) (data : Word) :
    memToCap (BitVec.cons cap.valid ((capToMem cap).setWidth 32)) (BitVec.cons cap.valid data)
      default =
      { cap with
        capCor := computeCorrections cap.top cap.base (addrMid data (expandExp cap.cexp)) } := by
  have htag : (BitVec.cons cap.valid data).getLsbD 32 = cap.valid := by
    rw [BitVec.getLsbD_cons, if_pos rfl]
  rw [cons_setWidth_capToMem, memToCap_capToMem, BitVec.setWidth_cons, htag, Bool.and_self]

/-- The addresses of the two requests for an aligned capability. -/
theorem addr_capReq {c : ExIn} (h : c.cs1AddrPlusimm.toNat % 8 = 0) :
    (capReq c false).addr = c.cs1AddrPlusimm ∧ (capReq c true).addr = c.cs1AddrPlusimm + 4 := by
  constructor
  · have hadd : c.cs1AddrPlusimm + 0 = c.cs1AddrPlusimm := BitVec.add_zero _
    simp only [capReq, Bool.false_eq_true, if_false]
    rw [hadd, wordOf_eq (by omega)]
  · simp only [capReq, if_true]
    rw [wordOf_eq]
    rw [toNat_add_four h]
    omega

/-- Through an authority with SL a capability is stored with its tag. -/
theorem cscWcap_of_sl {c : ExIn} (h : c.fullcapA.perms.sl = true) : c.cscWcap = c.cs2.cap := by
  simp [ExIn.cscWcap, ExIn.permVioSlc, h]

namespace DataPath

variable {boot : Fin 2 → Index → Word} {ins : ℕ → DataPathIn} {k : Fin 2} {c : ExIn} {a b : ℕ}

/-- The filter finds the capability that it delivers revoked. -/
def revoked (boot : Fin 2 → Index → Word) (ins : ℕ → DataPathIn) (t : ℕ) : Bool :=
  (stateAt boot ins t).filter.revbmReqRequired (filterIns boot ins t) &&
    (stateAt boot ins t).filter.revbmRevoked (filterIns boot ins t)

/-- **What a store leaves in memory**, for as long as nobody writes to the granule. -/
theorem Transfer.stored (h : Transfer boot ins a b c) (hop : c.op = .cstoreCap)
    (halign : c.cs1AddrPlusimm.toNat % 8 = 0) (hbank : addrDecode c.cs1AddrPlusimm = .bank k)
    {t u : ℕ} (ht : a < t) (hu : b < u)
    (hno0 : ∀ v, a < v → v < t → ¬ WritesAt boot ins k (wordAddr c.cs1AddrPlusimm) v)
    (hno1 : ∀ v, b < v → v < u → ¬ WritesAt boot ins k (wordAddr (c.cs1AddrPlusimm + 4)) v) :
    cellAt boot ins k (wordAddr c.cs1AddrPlusimm) t = (c.cs2.data, c.cscWcap.valid) ∧
      cellAt boot ins k (wordAddr (c.cs1AddrPlusimm + 4)) u =
        ((capToMem c.cscWcap).setWidth 32, c.cscWcap.valid) := by
  obtain ⟨haddr0, haddr1⟩ := addr_capReq halign
  have hstore0 := (h.first.store hop (by rwa [haddr0])).2
  have hstore1 := (h.second.store hop (by rwa [haddr1, addrDecode_add_four halign])).2
  rw [haddr0] at hstore0
  rw [haddr1] at hstore1
  rw [cell_stable (fun _ => cellAt_succ) (show a + 1 ≤ t from ht) fun v hv => hno0 v hv,
    cell_stable (fun _ => cellAt_succ) (show b + 1 ≤ u from hu) fun v hv => hno1 v hv, hstore0,
      hstore1]
  simp [capReq, hop]

/-- **The tags that a load returns.** The first word keeps the tag it has in memory, the second one
loses it if the capability is revoked. -/
theorem Transfer.tags (h : Transfer boot ins a b c) (hop : c.op = .cloadCap)
    (halign : c.cs1AddrPlusimm.toNat % 8 = 0) (hbank : addrDecode c.cs1AddrPlusimm = .bank k)
    (hm : Trvk.Solicited (filterIns boot ins)) {T : ℕ} (hT : Answered boot ins b T)
    {d0 : Trvk.Delivery}
    (hd0 : (Trvk.delivered (filterIns boot ins) (T + 1))[
      (Trvk.requested (filterIns boot ins) a).length]? = some d0) :
    d0.rsp.tag = (cellAt boot ins k (wordAddr c.cs1AddrPlusimm) a).2 ∧
      ((stateAt boot ins T).filter.delivery (filterIns boot ins T)).rsp.tag =
        ((cellAt boot ins k (wordAddr (c.cs1AddrPlusimm + 4)) b).2 && !revoked boot ins T) := by
  obtain ⟨haddr0, haddr1⟩ := addr_capReq halign
  have harr0 := arrived_of_read h.first hop (by rwa [haddr0])
  have harr1 := arrived_of_read h.second hop (by rwa [haddr1, addrDecode_add_four halign])
  rw [haddr0] at harr0
  rw [haddr1] at harr1
  constructor
  · have hreq := h.first.requested
    obtain ⟨w, hw, -⟩ := Trvk.delivered_unchanged (disciplined boot ins) hd0
    have hr : (Trvk.requested (filterIns boot ins) (T + 1))[
        (Trvk.requested (filterIns boot ins) a).length]? = some (capReq c false) :=
      Trvk.machine.getElem?_log_of_le _ (by have := h.lt; have := hT.lt; omega) hreq
    cases Trvk.machine.getElem?_log_unique _ hw harr0
    exact Trvk.first_word (disciplined boot ins) hm hd0 hr hw
      (Trvk.second_of_aligned (by rwa [haddr0]))
  · obtain ⟨hrv, hlen⟩ := h.delivery_of_answered hT
    have hup : (Trvk.machine.stateAt (filterIns boot ins) T).upRvalid (filterIns boot ins T) =
        true := by
      rw [← filter_stateAt, ← hrv, pipeIns, bus_pipeInputs]
      rfl
    obtain ⟨r, w, -, hw, hrsp, -⟩ := (paced boot ins T).bridge.delivery
      ((disciplined boot ins).at T) hup
    rw [hlen] at hw
    cases Trvk.machine.getElem?_log_unique _ hw harr1
    have htag := Trvk.delivery_tag hm hup hrsp
    rw [← filter_stateAt] at htag
    exact htag

/-- **A capability survives memory.** The two words of a capability are stored to an aligned granule
of a bank, through an authority with SL, and a later load reads the granule with no write to a word
between its store and its read. Then the load returns the address that was stored. A tagged
capability whose corrections match its address comes back as it was, unless the filter finds it
revoked, and of an untagged one all 64 bits come back without a tag. If the lookups of the filter
are answered, the load is. The timing of the grants and of the answers is arbitrary, and so is what
the other managers do. MC need not be asked for: where the store is checked, a tagged capability is
not stored without it. -/
theorem cap_round_trip {a0 a1 b0 b1 : ℕ} {c c' : ExIn} (hstore : Transfer boot ins a0 a1 c)
    (hload : Transfer boot ins b0 b1 c') (hop : c.op = .cstoreCap) (hop' : c'.op = .cloadCap)
    (hsl : c.fullcapA.perms.sl = true) (hclr : c'.lcClrperm = default)
    (haddr : c'.cs1AddrPlusimm = c.cs1AddrPlusimm) (halign : c.cs1AddrPlusimm.toNat % 8 = 0)
    (hbank : addrDecode c.cs1AddrPlusimm = .bank k) (hlt : a1 < b0)
    (hno0 : ∀ t, a0 < t → t < b0 → ¬ WritesAt boot ins k (wordAddr c.cs1AddrPlusimm) t)
    (hno1 : ∀ t, a1 < t → t < b1 → ¬ WritesAt boot ins k (wordAddr (c.cs1AddrPlusimm + 4)) t)
    (hm : Trvk.Solicited (filterIns boot ins)) :
    (∀ T, Answered boot ins b1 T →
      rdataValid boot ins T = true ∧ rdata boot ins T = c.cs2.data ∧
      (c.cs2.cap.valid = true → c.cs2.cap.Coherent c.cs2.data → revoked boot ins T = false →
        rcap boot ins T = c.cs2.cap) ∧
      (c.cs2.cap.valid = false →
        (rcap boot ins T).valid = false ∧ capToMem (rcap boot ins T) = capToMem c.cs2.cap)) ∧
    (Trvk.LookupsAnswered (filterIns boot ins) → ∃ T, Answered boot ins b1 T) := by
  have halign' : c'.cs1AddrPlusimm.toNat % 8 = 0 := by rwa [haddr]
  have hbank' : addrDecode c'.cs1AddrPlusimm = .bank k := by rwa [haddr]
  obtain ⟨haddr0, haddr1⟩ := addr_capReq halign'
  have hsel0 : addrDecode (capReq c' false).addr = .bank k := by rwa [haddr0]
  have hsel1 : addrDecode (capReq c' true).addr = .bank k := by
    rwa [haddr1, addrDecode_add_four halign']
  obtain ⟨hcell0, hcell1⟩ := hstore.stored hop halign hbank (hstore.lt.trans hlt)
    (hlt.trans hload.lt) hno0 hno1
  rw [cscWcap_of_sl hsl] at hcell0 hcell1
  refine ⟨fun T hT => ?_, hload.exists_answered hop' hsel1⟩
  obtain ⟨d0, d1, hd0, rfl, -, -, hdata, -, hvalid, hrcap⟩ := hload.loaded hop' hsel0 hsel1 hT
  obtain ⟨htag0, htag1⟩ := hload.tags hop' halign' hbank' hm hT hd0
  rw [haddr] at htag0 htag1
  rw [haddr0, haddr1, haddr, htag0, htag1, hcell0, hcell1, hclr] at hrcap
  rw [haddr0, haddr, hcell0] at hdata
  refine ⟨hvalid, hdata, fun hv hcoh hrev => ?_, fun hv => ?_⟩
  · rw [hrcap, hrev, Bool.not_false, Bool.and_true, memToCap_stored, ← hcoh]
  · have hno : (c.cs2.cap.valid && !revoked boot ins T) = c.cs2.cap.valid := by simp [hv]
    rw [hrcap, hno, memToCap_stored]
    exact ⟨hv, rfl⟩

/-! ### A store and a load -/

/-- `CSC` of a root capability at `0x10000010`. -/
def storeInstr : ExIn :=
  { (default : ExIn) with
    op := .cstoreCap, cs1 := ⟨0x10000000, rootCapTm⟩, cs2 := ⟨0x10000008, rootCapTm⟩, imm12 := 16 }

/-- `CLC` from `0x10000010`. -/
def loadInstr : ExIn :=
  { (default : ExIn) with op := .cloadCap, cs1 := ⟨0x10000000, rootCapTm⟩, imm12 := 16 }

/-- A tagged capability is stored at `0x10000010` and loaded back. Another manager takes the bank
between the two words of the store. -/
def storeThenLoad : ℕ → DataPathIn
  | 0 => { (default : DataPathIn) with enableSet := true }
  | 1 => { (default : DataPathIn) with instr := some (.cap storeInstr) }
  | 2 => { (default : DataPathIn) with arb := ![some ⟨0x10000100, true, 1, 7⟩, none] }
  | 5 => { (default : DataPathIn) with instr := some (.cap loadInstr) }
  | _ => default

theorem storeThenLoad_transfers :
    Transfer (fun _ _ => 0) storeThenLoad 1 3 storeInstr ∧
      Transfer (fun _ _ => 0) storeThenLoad 5 6 loadInstr := by
  refine ⟨⟨⟨?_, ?_, ?_, ?_, ?_, ?_⟩, ⟨?_, ?_, ?_, ?_, ?_, ?_⟩, by decide, fun t h1 h2 => ?_⟩,
    ⟨?_, ?_, ?_, ?_, ?_, ?_⟩, ⟨?_, ?_, ?_, ?_, ?_, ?_⟩, by decide, fun t h1 h2 => ?_⟩
  case refine_13 => interval_cases t <;> decide +kernel
  case refine_26 => interval_cases t; decide +kernel
  all_goals decide +kernel

/-- After the load nothing is on its way. -/
theorem storeThenLoad_atRest {t : ℕ} (ht : 8 ≤ t) :
    (stateAt (fun _ _ => 0) storeThenLoad t).AtRest := by
  induction t, ht using Nat.le_induction with
  | base => decide +kernel
  | succ t ht ih =>
    refine atRest_succ ih ?_
    obtain ⟨v, rfl⟩ := Nat.exists_eq_add_of_le' ht
    rfl

/-- The capability does not point to the heap, so nothing is looked up. -/
theorem storeThenLoad_lookups : Trvk.LookupsAnswered (filterIns (fun _ _ => 0) storeThenLoad) where
  solicited
    | 0 | 1 | 2 | 3 | 4 | 5 => nofun
    | _ + 6 => nofun
  answered t hreq := by
    have hearly : ∀ t < 8, (stateAt (fun _ _ => 0) storeThenLoad t).filter.revbmReqRequired
        (filterIns (fun _ _ => 0) storeThenLoad t) = false := by decide +kernel
    have hidle : ∀ u, 8 ≤ u → (filterIns (fun _ _ => 0) storeThenLoad u).dsRvalid = false := by
      intro u hu
      cases hv : (filterIns (fun _ _ => 0) storeThenLoad u).dsRvalid with
      | false => rfl
      | true => exact absurd (storeThenLoad_atRest hu).2.2 ((paced _ _ u).inFlight_ne_zero hv)
    have hempty :
        (Trvk.machine.stateAt (filterIns (fun _ _ => 0) storeThenLoad) 8).rsp.store.items =
          [] := by
      rw [← filter_stateAt]
      decide +kernel
    exfalso
    by_cases ht : t < 8
    · rw [← filter_stateAt, hearly t ht] at hreq
      cases hreq
    · rw [Trvk.revbmReqRequired_of_drained hidle hempty (not_lt.mp ht)] at hreq
      cases hreq

/-- The capability comes back with its tag, in cycle 7. -/
theorem cap_round_trip_storeThenLoad :
    Answered (fun _ _ => 0) storeThenLoad 6 7 ∧ rdata (fun _ _ => 0) storeThenLoad 7 = 0x10000008 ∧
      rcap (fun _ _ => 0) storeThenLoad 7 = rootCapTm := by
  obtain ⟨hsame, hex⟩ := cap_round_trip (k := bank0) storeThenLoad_transfers.1
    storeThenLoad_transfers.2 rfl rfl (by decide +kernel) (by decide +kernel) (by decide +kernel)
    (by decide +kernel) (by decide +kernel) (by decide)
    (fun t h1 h2 => by interval_cases t <;> decide +kernel)
    (fun t h1 h2 => by interval_cases t <;> decide +kernel) storeThenLoad_lookups.solicited
  obtain ⟨T, hT⟩ := hex storeThenLoad_lookups
  have hvalid : respValid (fun _ _ => 0) storeThenLoad 7 = true := by decide +kernel
  have hlt := hT.lt
  obtain rfl : T = 7 := by
    by_contra hne
    rw [hT.first 7 (by decide) (by omega)] at hvalid
    cases hvalid
  obtain ⟨-, hdata, htagged, -⟩ := hsame 7 hT
  exact ⟨hT, hdata, htagged rfl (by decide +kernel) (by decide +kernel)⟩

end DataPath

end Sram

end Croc
