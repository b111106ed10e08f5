import Croc.Sram.Transfer

/-!
# The tag of a store response

A bank answers every access, and the answer carries the tag register of `tag_memory`. A read loads
that register; a write leaves it alone. So the response to a store carries the tag of the word that
was last read from the bank, by whatever manager, and the load filter cannot tell it from the
response to a load: it latches the data as a pointer, and with a second such response it looks up
the bitmap for a store.

## Main definitions

* `DataPath.StoreAt`: a bank grants a store of the core.
* `DataPath.ReadsAt`, `DataPath.StaleTag`: the reads of a bank; the word read last had a tag.
* `DataPath.StoresUntagged`: what the filter relies on.

## Main results

* `DataPath.tagRead_iff`: the tag register is the tag of the word that was read last.
* `DataPath.arrived_of_store`: the response to a store carries it.
* `DataPath.storesUntagged_iff`: the responses to stores have no tag exactly if no store comes after
  the read of a tagged word.
-/

namespace Croc

namespace Sram

open Cheriot Clocked Lsu Revocation

open Bits (Word)

namespace DataPath

/-- Bank `k` grants a store of the core in cycle `t`. -/
def StoreAt (boot : Fin 2 → Index → Word) (ins : ℕ → DataPathIn) (t : ℕ) (k : Fin 2) : Prop :=
  (pipeIns boot ins t).bus.gnt = true ∧ ((stateAt boot ins t).up (ins t)).we = true ∧
    addrDecode ((stateAt boot ins t).up (ins t)).addr = .bank k

/-- Some manager reads word `a` of bank `k` in cycle `t`. -/
def ReadsAt (boot : Fin 2 → Index → Word) (ins : ℕ → DataPathIn) (k : Fin 2) (a : Index) (t : ℕ) :
    Prop :=
  ∃ q, ((stateAt boot ins t).access (ins t) k).map Prod.fst = some q ∧ q.we = false ∧
    wordAddr q.addr = a

/-- The word of bank `k` that was read last before cycle `t` had a tag then. -/
def StaleTag (boot : Fin 2 → Index → Word) (ins : ℕ → DataPathIn) (k : Fin 2) (t : ℕ) : Prop :=
  ∃ u a, u < t ∧ ReadsAt boot ins k a u ∧ (cellAt boot ins k a u).2 = true ∧
    ∀ v b, u < v → v < t → ¬ ReadsAt boot ins k b v

variable {boot : Fin 2 → Index → Word} {ins : ℕ → DataPathIn} {t : ℕ} {k : Fin 2} {a : Index}

/-! ### The tag register -/

theorem tagRead_of_reads (h : ReadsAt boot ins k a t) :
    ((stateAt boot ins (t + 1)).banks k).bank.tagRead = (cellAt boot ins k a t).2 := by
  obtain ⟨q, hq, hwe, rfl⟩ := h
  rw [bank_stateAt_succ, hq, (SramBank.step_of_read hwe).2]
  rfl

theorem tagRead_of_not_reads (h : ¬ ∃ a, ReadsAt boot ins k a t) :
    ((stateAt boot ins (t + 1)).banks k).bank.tagRead =
      ((stateAt boot ins t).banks k).bank.tagRead := by
  rw [bank_stateAt_succ]
  cases hq : ((stateAt boot ins t).access (ins t) k).map Prod.fst with
  | none => rfl
  | some q =>
    cases hwe : q.we with
    | false => exact absurd ⟨_, q, hq, hwe, rfl⟩ h
    | true => simp [SramBank.step, hwe]

/-- **The tag register** is the tag of the word that was read last. -/
theorem tagRead_iff :
    ((stateAt boot ins t).banks k).bank.tagRead = true ↔ StaleTag boot ins k t := by
  constructor
  · intro h
    obtain ⟨u, hu, ⟨a, hread⟩, htag, hno⟩ := cell_exists_last_write
      (x := fun t => ((stateAt boot ins t).banks k).bank.tagRead) (P := fun b => b = true)
      (fun t => tagRead_of_not_reads) Bool.false_ne_true h
    rw [tagRead_of_reads hread] at htag
    exact ⟨u, a, hu, hread, htag, fun v b huv hvt hb => hno v huv hvt ⟨b, hb⟩⟩
  · rintro ⟨u, a, hu, hread, htag, hno⟩
    have hstable := cell_stable (x := fun t => ((stateAt boot ins t).banks k).bank.tagRead)
      (W := fun t => ∃ a, ReadsAt boot ins k a t) (fun t => tagRead_of_not_reads)
      (Nat.succ_le_of_lt hu) fun v hv hvt ⟨b, hb⟩ => hno v b hv hvt hb
    exact hstable.trans ((tagRead_of_reads hread).trans htag)

/-- A store is no read. -/
theorem StoreAt.not_reads (h : StoreAt boot ins t k) : ¬ ∃ a, ReadsAt boot ins k a t := by
  rintro ⟨a, q, hq, hwe, -⟩
  rw [access_of_gnt h.1 h.2.2] at hq
  cases hq
  exact Bool.false_ne_true (hwe.symm.trans h.2.1)

/-- **The response to a store** carries the tag of the word that was read last. -/
theorem arrived_of_store (h : StoreAt boot ins t k) :
    ∃ r, (Trvk.arrived (filterIns boot ins) (t + 2))[
        (Trvk.requested (filterIns boot ins) t).length]? = some r ∧
      (r.tag = true ↔ StaleTag boot ins k t) := by
  refine ⟨_, arrived_of_gnt h.1 h.2.2, ?_⟩
  rw [tagRead_of_not_reads h.not_reads, tagRead_iff]

/-! ### What the filter does with it -/

/-- Stores never look like capabilities: whenever a bank grants a store of the core, the response to
it has no tag, and while the filter has that response at its output it latches no pointer and looks
nothing up. -/
structure StoresUntagged (boot : Fin 2 → Index → Word) (ins : ℕ → DataPathIn) : Prop where
  /-- The response has no tag. -/
  response : ∀ t k T r, StoreAt boot ins t k →
    (Trvk.arrived (filterIns boot ins) T)[(Trvk.requested (filterIns boot ins) t).length]? =
      some r →
    r.tag = false
  /-- No pointer is taken from it. -/
  pointer : ∀ t k u, StoreAt boot ins t k → (Trvk.delivered (filterIns boot ins) u).length =
      (Trvk.requested (filterIns boot ins) t).length →
    ((stateAt boot ins u).filter.upRvalid (filterIns boot ins u) &&
      (stateAt boot ins u).filter.ptrStorageEnable (filterIns boot ins u)) = false
  /-- No lookup is made for it. -/
  lookup : ∀ t k u, StoreAt boot ins t k → (Trvk.delivered (filterIns boot ins) u).length =
      (Trvk.requested (filterIns boot ins) t).length →
    (stateAt boot ins u).filter.revbmReq (filterIns boot ins u) = false

/-- The filter acts on a response with a tag only. -/
theorem tag_rspOut_of_acts {u : ℕ}
    (h : ((stateAt boot ins u).filter.upRvalid (filterIns boot ins u) &&
        (stateAt boot ins u).filter.ptrStorageEnable (filterIns boot ins u)) = true ∨
      (stateAt boot ins u).filter.revbmReq (filterIns boot ins u) = true) :
    ∃ r, (Trvk.arrived (filterIns boot ins) (u + 1))[
        (Trvk.delivered (filterIns boot ins) u).length]? = some r ∧ r.tag = true := by
  have hboth : (stateAt boot ins u).filter.rspOutValid (filterIns boot ins u) = true ∧
      ((stateAt boot ins u).filter.rspOut (filterIns boot ins u)).tag = true := by
    rcases h with h | h
    · rw [Bool.and_eq_true, Trvk.upRvalid_eq, Bool.and_eq_true] at h
      simp only [Trvk.ptrStorageEnable, Bool.and_eq_true] at h
      exact ⟨h.1.1, h.2.1.1⟩
    · simp only [Trvk.revbmReq, Trvk.revbmReqRequired, Bool.and_eq_true] at h
      exact ⟨h.1.1.1.1.2, h.1.1.1.1.1.2⟩
  have hp := paced boot ins u
  rw [filter_stateAt] at hboth
  obtain ⟨r, hr, hout⟩ := hp.bridge.rspOut_eq hp.disciplinedAt hboth.1
  exact ⟨r, hr, hout ▸ hboth.2⟩

/-- **When stores look like stores.** The responses to the stores of the core have no tag, and the
filter takes neither a pointer from them nor makes a lookup for them, exactly if no bank grants a
store of the core while the word that was last read from it, by any manager, had a tag. -/
theorem storesUntagged_iff (boot : Fin 2 → Index → Word) (ins : ℕ → DataPathIn) :
    StoresUntagged boot ins ↔ ∀ t k, StoreAt boot ins t k → ¬ StaleTag boot ins k t := by
  constructor
  · intro h t k hstore hstale
    obtain ⟨r, hr, htag⟩ := arrived_of_store hstore
    exact Bool.false_ne_true ((h.response t k _ r hstore hr).symm.trans (htag.mpr hstale))
  · intro h
    have hresponse : ∀ t k T r, StoreAt boot ins t k →
        (Trvk.arrived (filterIns boot ins) T)[
          (Trvk.requested (filterIns boot ins) t).length]? = some r → r.tag = false := by
      intro t k T r hstore hr
      obtain ⟨r', hr', htag⟩ := arrived_of_store hstore
      cases Trvk.machine.getElem?_log_unique _ hr hr'
      rw [← Bool.not_eq_true, htag]
      exact h t k hstore
    -- what the filter has at its output is the response to the store
    have hacts : ∀ t k u, StoreAt boot ins t k →
        (Trvk.delivered (filterIns boot ins) u).length =
          (Trvk.requested (filterIns boot ins) t).length →
        ¬ (((stateAt boot ins u).filter.upRvalid (filterIns boot ins u) &&
            (stateAt boot ins u).filter.ptrStorageEnable (filterIns boot ins u)) = true ∨
          (stateAt boot ins u).filter.revbmReq (filterIns boot ins u) = true) := by
      intro t k u hstore hlen hact
      obtain ⟨r, hr, htag⟩ := tag_rspOut_of_acts hact
      rw [hlen] at hr
      exact Bool.false_ne_true ((hresponse t k _ r hstore hr).symm.trans htag)
    refine ⟨hresponse, fun t k u hstore hlen => ?_, fun t k u hstore hlen => ?_⟩
    · rw [← Bool.not_eq_true]
      exact fun hact => hacts t k u hstore hlen (.inl hact)
    · rw [← Bool.not_eq_true]
      exact fun hact => hacts t k u hstore hlen (.inr hact)

/-! ### Two stores after a read -/

/-- `CSC` of a root capability with an address in the heap at `0x10000010`. -/
def heapStore : ExIn :=
  { (default : ExIn) with
    op := .cstoreCap, cs1 := ⟨0x10000000, rootCapTm⟩, cs2 := ⟨0x10010000, rootCapTm⟩, imm12 := 16 }

/-- `sw` of zero at an offset from `0x10000000`. -/
def wordStore (imm : Word) : Access :=
  .rv32 ⟨true, 0, false, ⟨0x10000000, rootCapTm⟩, imm, 0, false⟩

/-- A capability is stored, another manager reads its first word, and the core stores two words
elsewhere. -/
def storesAfterRead : ℕ → DataPathIn
  | 0 => { (default : DataPathIn) with enableSet := true }
  | 1 => { (default : DataPathIn) with instr := some (.cap heapStore) }
  | 4 => { (default : DataPathIn) with arb := ![some ⟨0x10000010, false, 0xf, 0⟩, none] }
  | 5 => { (default : DataPathIn) with instr := some (wordStore 0x20) }
  | 6 => { (default : DataPathIn) with instr := some (wordStore 0x24) }
  | _ => default

/-- The response to the first store has a tag and is latched as a pointer, and the response to the
second makes the filter look up the bitmap. -/
theorem storesAfterRead_tagged :
    StoreAt (fun _ _ => 0) storesAfterRead 5 bank0 ∧
      (Trvk.requested (filterIns (fun _ _ => 0) storesAfterRead) 5).length = 2 ∧
      (Trvk.arrived (filterIns (fun _ _ => 0) storesAfterRead) 7)[2]? =
        some ⟨0x10010000, 0, true, false⟩ ∧
      (stateAt (fun _ _ => 0) storesAfterRead 7).filter.ptrValid = true ∧
      StoreAt (fun _ _ => 0) storesAfterRead 6 bank0 ∧
      (stateAt (fun _ _ => 0) storesAfterRead 7).filter.revbmReq
        (filterIns (fun _ _ => 0) storesAfterRead 7) = true ∧
      ¬ StoresUntagged (fun _ _ => 0) storesAfterRead := by
  have hstore : StoreAt (fun _ _ => 0) storesAfterRead 5 bank0 := by
    refine ⟨?_, ?_, ?_⟩ <;> decide +kernel
  have hrsp : (Trvk.arrived (filterIns (fun _ _ => 0) storesAfterRead) 7)[
      (Trvk.requested (filterIns (fun _ _ => 0) storesAfterRead) 5).length]? =
        some ⟨0x10010000, 0, true, false⟩ := by decide +kernel
  refine ⟨hstore, by decide +kernel, by decide +kernel, by decide +kernel, ?_, by decide +kernel,
    fun h => ?_⟩
  · refine ⟨?_, ?_, ?_⟩ <;> decide +kernel
  · exact absurd (h.response 5 bank0 7 _ hstore hrsp) (by decide)

end DataPath

end Sram

end Croc
