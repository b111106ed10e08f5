import Croc.Cheriot.AccessChecks
import Croc.Sram.RoundTrip

/-!
# Tags cannot be forged

Every word of the SRAM has a tag of its own, and a capability is two words that are written and read
in separate bus cycles, between which any manager can write anything. Still, a load that assembles a
tagged capability from a granule returns the two words of one capability store, the last write to
both of them: every other write clears the tag, a capability store writes both words of a granule
before the load/store unit does anything else, and its first word and its second word go to
different halves of the granule.

The last point rests on the alignment check. In debug mode nothing is checked, so two misaligned
stores can leave their words in one granule, the second of the one and the first of the other.

## Main definitions

* `DataPath.DebugStoresAligned`: debug mode stores tagged capabilities to aligned addresses only.

## Main results

* `DataPath.Beat.aligned`: the address of a tagged store.
* `DataPath.tag_integrity`: what a tagged load returns is what one store wrote.
* `DataPath.debugStores_forge`: in debug mode a capability can be put together from two.
-/

namespace Croc

namespace Sram

open Cheriot Clocked Lsu Revocation

open Bits (Word)

/-- An access that passed its checks outside debug mode is aligned. -/
theorem aligned_of_authorised {i : ExIn} (hcap : i.op.isCap = true) (hen : i.enable = true)
    (hdebug : i.debugMode = false) (h : i.cheriotLsuErr = false) :
    i.cs1AddrPlusimm.toNat % 8 = 0 := by
  by_contra hmis
  have halign : i.permVioVec.align = true := (align_iff hcap).mpr hmis
  have hvio : i.permVio = true := by simp [ExIn.permVio, ExIn.PermVio.any, halign]
  simp [ExIn.cheriotLsuErr, hen, hdebug, hvio] at h

/-- Which word of which granule a tagged word of an aligned store is. -/
theorem second_of_wordAddr {c : ExIn} {second snd : Bool} {g : Word} {k : Fin 2}
    (hc : c.cs1AddrPlusimm.toNat % 8 = 0) (hg : g.toNat % 8 = 0)
    (hsel : addrDecode (capReq c second).addr = .bank k) (hbank : addrDecode g = .bank k)
    (h : wordAddr (capReq c second).addr = wordAddr (if snd then g + 4 else g)) :
    second = snd ∧ c.cs1AddrPlusimm = g := by
  obtain ⟨haddr0, haddr1⟩ := addr_capReq hc
  have hadd := toNat_add_four hc
  have hadd' := toNat_add_four hg
  have hnat := congrArg BitVec.toNat h
  rw [toNat_wordAddr, toNat_wordAddr] at hnat
  have hsame : second = snd := by
    cases second <;> cases snd <;>
      simp only [haddr0, haddr1, Bool.false_eq_true, if_true, if_false] at hnat
    · rfl
    · omega
    · omega
    · rfl
  refine ⟨hsame, ?_⟩
  subst hsame
  cases second with
  | false => exact eq_of_wordAddr (haddr0 ▸ hsel) hbank (haddr0 ▸ h) (by omega)
  | true =>
    have heq := eq_of_wordAddr (haddr1 ▸ hsel) ((addrDecode_add_four hg).mpr hbank) (haddr1 ▸ h)
      (by omega)
    exact BitVec.add_left_inj _ |>.mp heq

namespace DataPath

variable {boot : Fin 2 → Index → Word} {ins : ℕ → DataPathIn} {k : Fin 2} {c : ExIn} {t : ℕ}
  {second : Bool}

/-- In debug mode tagged capabilities are stored to aligned addresses only. -/
def DebugStoresAligned (boot : Fin 2 → Index → Word) (ins : ℕ → DataPathIn) : Prop :=
  ∀ t c, Beat boot ins t c false → c.op = .cstoreCap → c.cscWcap.valid = true →
    c.debugMode = true → c.cs1AddrPlusimm.toNat % 8 = 0

/-- **Tagged capabilities are stored to aligned addresses.** -/
theorem Beat.aligned (hdebug : DebugStoresAligned boot ins) (h : Beat boot ins t c second)
    (hop : c.op = .cstoreCap) (hvalid : c.cscWcap.valid = true) :
    c.cs1AddrPlusimm.toNat % 8 = 0 := by
  obtain ⟨a, hfirst⟩ : ∃ a, Beat boot ins a c false := by
    cases second with
    | false => exact ⟨t, h⟩
    | true =>
      obtain ⟨a, htr⟩ := h.exists_transfer
      exact ⟨a, htr.first⟩
  cases hmode : c.debugMode with
  | true => exact hdebug a c hfirst hop hvalid hmode
  | false =>
    exact aligned_of_authorised (i := { c with enable := true }) hfirst.isCap rfl hmode
      hfirst.started.1.authorised

/-- A tagged word of a granule was written by the word of a store to that granule, and nobody has
written to it since. -/
theorem exists_store_of_tag (hdebug : DebugStoresAligned boot ins) {g : Word}
    (hg : g.toNat % 8 = 0) (hbank : addrDecode g = .bank k) (snd : Bool)
    (htag : (cellAt boot ins k (wordAddr (if snd then g + 4 else g)) t).2 = true) :
    ∃ u c, u < t ∧ Beat boot ins u c snd ∧ c.op = .cstoreCap ∧ c.cscWcap.valid = true ∧
      c.cs1AddrPlusimm = g ∧
      ∀ v, u < v → v < t → ¬ WritesAt boot ins k (wordAddr (if snd then g + 4 else g)) v := by
  obtain ⟨u, hut, hw, htag', hno⟩ := cell_exists_last_write (P := fun x => x.2 = true)
    (W := WritesAt boot ins k (wordAddr (if snd then g + 4 else g))) (fun _ => cellAt_succ)
    nofun htag
  obtain ⟨c, second, hbeat, hop, hvalid, hsel, haddr⟩ := exists_beat_of_tag hw htag'
  obtain ⟨rfl, hcg⟩ := second_of_wordAddr (hbeat.aligned hdebug hop hvalid) hg hsel hbank haddr
  exact ⟨u, c, hut, hbeat, hop, hvalid, hcg, hno⟩

/-- A store to an aligned granule writes both of its words. -/
theorem Beat.writesAt {g : Word} (h : Beat boot ins t c second) (hop : c.op = .cstoreCap)
    (haddr : c.cs1AddrPlusimm = g) (hg : g.toNat % 8 = 0) (hbank : addrDecode g = .bank k) :
    WritesAt boot ins k (wordAddr (if second then g + 4 else g)) t := by
  subst haddr
  obtain ⟨haddr0, haddr1⟩ := addr_capReq hg
  cases second with
  | false => exact haddr0 ▸ (h.store hop (haddr0.symm ▸ hbank)).1
  | true => exact haddr1 ▸ (h.store hop (haddr1.symm ▸ (addrDecode_add_four hg).mpr hbank)).1

/-- The load/store unit does one access after the other: a store whose second word is granted before
that of a load has it granted before the first word of the load. -/
theorem Transfer.before_load {a0 a1 b0 b1 : ℕ} {c c' : ExIn} (hstore : Transfer boot ins a0 a1 c)
    (hload : Transfer boot ins b0 b1 c') (hop : c.op = .cstoreCap) (hop' : c'.op = .cloadCap)
    (hlt : a1 < b1) : a1 < b0 := by
  by_contra hge
  rcases lt_trichotomy a0 b0 with h | rfl | h
  · exact hload.first.fsm_ne (hstore.between b0 h (by omega))
  · cases hstore.first.current.symm.trans hload.first.current
    cases hop.symm.trans hop'
  · exact hstore.first.fsm_ne (hload.between a0 h (by have := hstore.lt; omega))

/-- **The two words of a tagged granule belong together.** The store that wrote the second word last
also wrote the first word last. -/
theorem first_eq_of_last {u0 u1 a0 b0 b1 : ℕ} {c0 c1 c' : ExIn} {g : Word} (hg : g.toNat % 8 = 0)
    (hbank : addrDecode g = .bank k) (hload : Transfer boot ins b0 b1 c')
    (h0 : Beat boot ins u0 c0 false) (hop0 : c0.op = .cstoreCap) (haddr0 : c0.cs1AddrPlusimm = g)
    (hno0 : ∀ v, u0 < v → v < b0 → ¬ WritesAt boot ins k (wordAddr g) v) (hu0 : u0 < b0)
    (h1 : Transfer boot ins a0 u1 c1) (hop1 : c1.op = .cstoreCap) (haddr1 : c1.cs1AddrPlusimm = g)
    (hno1 : ∀ v, u1 < v → v < b1 → ¬ WritesAt boot ins k (wordAddr (g + 4)) v) (hu1 : u1 < b0) :
    a0 = u0 := by
  rcases lt_trichotomy a0 u0 with h | h | h
  · -- the later store of the first word would have written the second word as well
    have hlt : u1 < u0 := by
      by_contra hge
      exact h0.fsm_ne (h1.between u0 h (not_lt.mp hge))
    obtain ⟨v, hv, htr⟩ := h0.transfer_before hu0 hload.first.fsm_ne
    exact absurd (htr.second.writesAt hop0 haddr0 hg hbank)
      (hno1 v (hlt.trans htr.lt) (hv.trans hload.lt))
  · exact h
  · exact absurd (h1.first.writesAt hop1 haddr1 hg hbank) (hno0 a0 h (h1.lt.trans hu1))

/-- A tagged result has two tagged words. -/
theorem valid_memToCap {t0 t1 : Bool} {w0 w1 : Word} {clrperm : CapClrperm}
    (h : (memToCap (BitVec.cons t1 w1) (BitVec.cons t0 w0) clrperm).valid = true) :
    t0 = true ∧ t1 = true := by
  simp only [memToCap, BitVec.getLsbD_cons, Bool.and_eq_true] at h
  exact ⟨h.1.2, h.1.1⟩

/-- **Tags cannot be forged.** In a run in which debug mode stores tagged capabilities to aligned
addresses only, a load from an aligned granule of a bank that assembles a tagged capability returns
the two words of a tagged capability store to that granule. The store was granted before the load,
between the two no access of any manager and of any width has written the first word before its read
or the second word before its read, and no other tagged store to the granule is more recent. -/
theorem tag_integrity {b0 b1 T : ℕ} {c' : ExIn} (hdebug : DebugStoresAligned boot ins)
    (hload : Transfer boot ins b0 b1 c') (hop' : c'.op = .cloadCap)
    (halign : c'.cs1AddrPlusimm.toNat % 8 = 0) (hbank : addrDecode c'.cs1AddrPlusimm = .bank k)
    (hT : Answered boot ins b1 T) (htag : (rcap boot ins T).valid = true) :
    ∃ a0 a1 c, Transfer boot ins a0 a1 c ∧ c.op = .cstoreCap ∧ c.cscWcap.valid = true ∧
      c.cs1AddrPlusimm = c'.cs1AddrPlusimm ∧ a1 < b0 ∧
      rdata boot ins T = c.cs2.data ∧
      (pipeIns boot ins T).bus.rsp.data = (capToMem c.cscWcap).setWidth 32 ∧
      rcap boot ins T = memToCap (capToMem c.cscWcap) (BitVec.cons true c.cs2.data) c'.lcClrperm ∧
      (∀ t, a0 < t → t < b0 → ¬ WritesAt boot ins k (wordAddr c'.cs1AddrPlusimm) t) ∧
      (∀ t, a1 < t → t < b1 → ¬ WritesAt boot ins k (wordAddr (c'.cs1AddrPlusimm + 4)) t) ∧
      ∀ v w c'', Transfer boot ins v w c'' → c''.op = .cstoreCap → c''.cscWcap.valid = true →
        c''.cs1AddrPlusimm = c'.cs1AddrPlusimm → w < b1 → w ≤ a1 := by
  obtain ⟨haddr0, haddr1⟩ := addr_capReq halign
  have hsel0 : addrDecode (capReq c' false).addr = .bank k := by rwa [haddr0]
  have hsel1 : addrDecode (capReq c' true).addr = .bank k := by
    rwa [haddr1, addrDecode_add_four halign]
  obtain ⟨d0, d1, -, -, htag0, htag1, hdata, hmeta, -, hrcap⟩ := hload.loaded hop' hsel0 hsel1 hT
  rw [haddr0] at htag0 hdata
  rw [haddr1] at htag1 hmeta
  rw [haddr0, haddr1] at hrcap
  obtain ⟨hd0, hd1⟩ := valid_memToCap (hrcap ▸ htag)
  obtain ⟨u0, c0, hu0, hbeat0, hop0, -, hc0, hno0⟩ :=
    exists_store_of_tag hdebug halign hbank false (htag0 hd0)
  obtain ⟨u1, c, hu1, hbeat1, hop, hvalid, hc, hno1⟩ :=
    exists_store_of_tag hdebug halign hbank true (htag1 hd1)
  obtain ⟨a0, hstore⟩ := hbeat1.exists_transfer
  have hbefore := hstore.before_load hload hop hop' hu1
  obtain rfl :=
    first_eq_of_last halign hbank hload hbeat0 hop0 hc0 hno0 hu0 hstore hop hc hno1 hbefore
  obtain ⟨hcell0, hcell1⟩ := hstore.stored hop (hc ▸ halign) (hc ▸ hbank) hu0 hu1 (hc ▸ hno0)
    (hc ▸ hno1)
  rw [hc] at hcell0 hcell1
  refine ⟨a0, u1, c, hstore, hop, hvalid, hc, hbefore, by rw [hdata, hcell0], by rw [hmeta, hcell1],
    ?_,
    hno0, hno1, fun v w c'' htr hop'' _ hc'' hw => ?_⟩
  · rw [hrcap, hcell0, hcell1, hd0, hd1, ← hvalid, cons_setWidth_capToMem]
  · by_contra hlt
    exact hno1 w (not_le.mp hlt) hw (htr.second.writesAt hop'' hc'' halign hbank)

/-! ### A store and a load -/

theorem storeThenLoad_current (t : ℕ) :
    (stateAt (fun _ _ => 0) storeThenLoad t).pipe.current (pipeIns (fun _ _ => 0) storeThenLoad t) ∈
      [none, some (.cap storeInstr), some (.cap loadInstr)] := by
  have hearly : ∀ t < 8, (stateAt (fun _ _ => 0) storeThenLoad t).pipe.current
      (pipeIns (fun _ _ => 0) storeThenLoad t) ∈
        [none, some (.cap storeInstr), some (.cap loadInstr)] := by decide +kernel
  by_cases ht : t < 8
  · exact hearly t ht
  · obtain ⟨v, rfl⟩ := Nat.exists_eq_add_of_le' (not_lt.mp ht)
    rw [current_of_atRest (storeThenLoad_atRest (not_lt.mp ht)) rfl]
    exact List.mem_cons_self

theorem storeThenLoad_debug : DebugStoresAligned (fun _ _ => 0) storeThenLoad := by
  intro t c hbeat _ _ hmode
  have hmem := storeThenLoad_current t
  rw [hbeat.current] at hmem
  simp only [List.mem_cons, reduceCtorEq, Option.some.injEq, Access.cap.injEq, List.not_mem_nil,
    or_false, false_or] at hmem
  rcases hmem with rfl | rfl <;> cases hmode

/-- The load of cycle 7 returns what the store of cycles 1 and 3 has written. -/
theorem tag_integrity_storeThenLoad :
    ∃ a0 a1 c, Transfer (fun _ _ => 0) storeThenLoad a0 a1 c ∧ c.op = .cstoreCap ∧
      c.cs1AddrPlusimm = loadInstr.cs1AddrPlusimm ∧ a1 < 5 ∧
      rdata (fun _ _ => 0) storeThenLoad 7 = c.cs2.data := by
  have hvalid : respValid (fun _ _ => 0) storeThenLoad 7 = true := by decide +kernel
  have hT : Answered (fun _ _ => 0) storeThenLoad 6 7 :=
    ⟨by decide, hvalid, fun u h1 h2 => absurd h1 (by omega)⟩
  obtain ⟨a0, a1, c, htr, hop, -, hc, hlt, hdata, -⟩ :=
    tag_integrity (k := bank0) storeThenLoad_debug
    storeThenLoad_transfers.2 rfl (by decide +kernel) (by decide +kernel) hT (by decide +kernel)
  exact ⟨a0, a1, c, htr, hop, hc, hlt, hdata⟩

/-! ### Debug mode -/

/-- `CSC` in debug mode, of a capability without permissions. -/
def debugStore (data : Word) (imm12 : BitVec 12) : ExIn :=
  { (default : ExIn) with
    op := .cstoreCap, cs1 := ⟨0x10000000, rootCapTm⟩, cs2 := ⟨data, { rootCapTm with cperms := 0 }⟩
    imm12 := imm12, debugMode := true }

/-- `CLC` from `0x10000018`. -/
def forgedLoad : ExIn :=
  { (default : ExIn) with op := .cloadCap, cs1 := ⟨0x10000000, rootCapTm⟩, imm12 := 0x18 }

/-- Two capabilities without permissions are stored in debug mode, at `0x10000014` and `0x1000001c`.
The metadata word of the first and the address word of the second share a granule. -/
def debugStores : ℕ → DataPathIn
  | 0 => { (default : DataPathIn) with enableSet := true }
  | 1 => { (default : DataPathIn) with instr := some (.cap (debugStore 0 0x14)) }
  | 4 => { (default : DataPathIn) with
      instr := some (.cap (debugStore ((capToMem rootCapTm).setWidth 32) 0x1c)) }
  | 7 => { (default : DataPathIn) with instr := some (.cap forgedLoad) }
  | _ => default

theorem debugStores_transfer : Transfer (fun _ _ => 0) debugStores 7 8 forgedLoad := by
  refine ⟨⟨?_, ?_, ?_, ?_, ?_, ?_⟩, ⟨?_, ?_, ?_, ?_, ?_, ?_⟩, by decide, fun t h1 h2 => ?_⟩
  case refine_13 => interval_cases t; decide +kernel
  all_goals decide +kernel

theorem debugStores_current : ∀ t < 7,
    (stateAt (fun _ _ => 0) debugStores t).pipe.current (pipeIns (fun _ _ => 0) debugStores t) ∈
      [none, some (.cap (debugStore 0 0x14)),
        some (.cap (debugStore ((capToMem rootCapTm).setWidth 32) 0x1c))] := by
  decide +kernel

/-- **Debug mode forges tags.** The load returns the root capability for memory, with permissions
that neither of the stored capabilities has. No store before it, to whatever address, has written
the two words that it reads. -/
theorem debugStores_forge :
    Transfer (fun _ _ => 0) debugStores 7 8 forgedLoad ∧ forgedLoad.op = .cloadCap ∧
      forgedLoad.cs1AddrPlusimm.toNat % 8 = 0 ∧ addrDecode forgedLoad.cs1AddrPlusimm = .bank bank0 ∧
      Answered (fun _ _ => 0) debugStores 8 9 ∧ rcap (fun _ _ => 0) debugStores 9 = rootCapTm ∧
      rootCapTm.valid = true ∧
      ¬ ∃ a0 a1 c, Transfer (fun _ _ => 0) debugStores a0 a1 c ∧ c.op = .cstoreCap ∧ a1 < 7 ∧
        rdata (fun _ _ => 0) debugStores 9 = c.cs2.data ∧
        (pipeIns (fun _ _ => 0) debugStores 9).bus.rsp.data =
          (capToMem c.cscWcap).setWidth 32 := by
  have hvalid : respValid (fun _ _ => 0) debugStores 9 = true := by decide +kernel
  have hT : Answered (fun _ _ => 0) debugStores 8 9 :=
    ⟨by decide, hvalid, fun u h1 h2 => absurd h1 (by omega)⟩
  refine ⟨debugStores_transfer, rfl, by decide +kernel, by decide +kernel, hT, by decide +kernel,
    rfl, ?_⟩
  rintro ⟨a0, a1, c, htr, -, hlt, hdata, -⟩
  have hmem := debugStores_current a0 (htr.lt.trans hlt)
  rw [htr.first.current] at hmem
  simp only [List.mem_cons, reduceCtorEq, Option.some.injEq, Access.cap.injEq, List.not_mem_nil,
    or_false, false_or] at hmem
  rcases hmem with rfl | rfl <;> exact absurd hdata (by decide +kernel)

end DataPath

end Sram

end Croc
