import Croc.Revocation.Bridge

/-!
# The filter is exact

A capability load reads two words. The filter delivers both unchanged; it withholds the tag exactly
when the capability is not a sealing capability, its base lies in the heap and the bitmap bit of
that base is set in the word that the bitmap memory returned. A capability that could be revoked is
looked up, always: the word is requested on the bitmap port, and the answer to that request is what
decides. Nothing is assumed about the timing of the memory system or of the bitmap beyond the
protocol: responses come in order and only when asked for, and every lookup is answered at some
point.

## Main definitions

* `Trvk.BitmapAnswers`: the bitmap port keeps to its protocol and answers every lookup.
* `loadedCap`: the capability that two words encode.
* `Trvk.CapLoad`: two consecutive accesses of a run are a capability load.
* `Trvk.LookedUp`: a word of the bitmap is requested and answered on the bitmap port.

## Main results

* `Trvk.lookedUp_of_delivery`: a lookup that decides about a tag was made on the port.
* `Trvk.first_word`, `Trvk.second_word`: what becomes of the tag of each word.
* `Trvk.filter_exact`: a tagged capability is delivered untagged if and only if it is revoked.
-/

namespace Croc

namespace Revocation

open Cheriot Clocked

open Bits (Word)

/-- The capability that an address word and a metadata word encode, with nothing cleared. -/
def loadedCap (w0 w1 : DsRsp) : Cap :=
  memToCap (BitVec.cons w1.tag w1.data) (BitVec.cons w0.tag w0.data) default

/-- The architectural base of a loaded capability: what `decodeCap` computes from its two words. -/
def loadedBase (w0 w1 : DsRsp) : ℕ := (decodeCap (loadedCap w0 w1) w0.data).base32.toNat

namespace Trvk

/-- The bitmap port keeps to its protocol: it answers only what was asked for, without an error, and
it answers everything. -/
structure BitmapAnswers (ins : ℕ → TrvkIn) : Prop where
  /-- No response comes unasked. -/
  solicited : ∀ t, (ins t).revbmRvalid = true → (machine.stateAt ins t).outstanding = true
  /-- The bitmap memory reports no error. -/
  noErr : ∀ t, (ins t).revbmErr = false
  /-- A lookup that is required is answered at some point. -/
  answered : ∀ t, (machine.stateAt ins t).revbmReqRequired (ins t) = true →
    ∃ u, t ≤ u ∧ (ins u).revbmRvalid = true

theorem BitmapAnswers.lookups {ins : ℕ → TrvkIn} (hm : BitmapAnswers ins) : LookupsAnswered ins :=
  ⟨hm.solicited, hm.answered⟩

/-- Accesses `k` and `k + 1` of a run read the two words of an 8-byte aligned granule, and `w0` and
`w1` have arrived for them. -/
structure CapLoad (ins : ℕ → TrvkIn) (t k : ℕ) (w0 w1 : DsRsp) : Prop where
  /-- The two reads. -/
  reads : ∃ r0 r1, (requested ins t)[k]? = some r0 ∧ (requested ins t)[k + 1]? = some r1 ∧
    r0.we = false ∧ r1.we = false ∧ r0.addr.toNat % 8 = 0 ∧ r1.addr = r0.addr + 4
  /-- The address word. -/
  first : (arrived ins t)[k]? = some w0
  /-- The metadata word. -/
  second : (arrived ins t)[k + 1]? = some w1

/-- The bitmap port brings `word` in cycle `c` for `addr`: the address is requested and granted in
an earlier cycle, and this is the first answer after the grant. -/
def LookedUp (ins : ℕ → TrvkIn) (c : ℕ) (addr word : Word) : Prop :=
  ∃ q < c, (machine.stateAt ins q).revbmReq (ins q) = true ∧ (ins q).revbmGnt = true ∧
    (machine.stateAt ins q).revbmAddrO (ins q) = addr ∧
    (∀ v, q < v → v < c → (ins v).revbmRvalid = false) ∧
    (ins c).revbmRvalid = true ∧ (ins c).revbmRdata = word

variable {ins : ℕ → TrvkIn}

/-! ### A lookup on the bitmap port -/

/-- An outstanding lookup was requested and granted, is not answered since, and its address is still
on the port. -/
theorem granted_of_outstanding (hm : Solicited ins) (t : ℕ) :
    (machine.stateAt ins t).outstanding = true →
    ∃ q < t, (machine.stateAt ins q).revbmReq (ins q) = true ∧ (ins q).revbmGnt = true ∧
      (machine.stateAt ins q).revbmAddrO (ins q) = (machine.stateAt ins t).revbmAddrO (ins t) ∧
      ∀ v, q < v → v < t → (ins v).revbmRvalid = false := by
  induction t with
  | zero => exact nofun
  | succ t ih =>
    intro ho
    obtain ⟨hno, hreq, hsince⟩ := outstanding_step (pending_of_outstanding hm t) (hm t) ho
    have haddr : (machine.stateAt ins (t + 1)).revbmAddrO (ins (t + 1)) =
        (machine.stateAt ins t).revbmAddrO (ins t) := revbmAddrO_step hreq hno _
    rw [haddr]
    rcases hsince with hout | ⟨hq, hgnt⟩
    · obtain ⟨q, hqt, hq, hgnt, hqaddr, hquiet⟩ := ih hout
      refine ⟨q, by omega, hq, hgnt, hqaddr, fun v hqv hvt => ?_⟩
      rcases Nat.lt_succ_iff_lt_or_eq.mp hvt with h | rfl
      · exact hquiet v hqv h
      · exact hno
    · exact ⟨t, by omega, hq, hgnt, rfl, fun v hqv hvt => by omega⟩

/-- **A lookup that decides about a tag was made on the port.** -/
theorem lookedUp_of_delivery (hm : Solicited ins) {v : ℕ}
    (hup : (machine.stateAt ins v).upRvalid (ins v) = true)
    (hreq : (machine.stateAt ins v).revbmReqRequired (ins v) = true) :
    LookedUp ins v ((machine.stateAt ins v).revbmAddrO (ins v)) (ins v).revbmRdata := by
  have hv : (ins v).revbmRvalid = true := by
    rw [upRvalid_eq, Bool.and_eq_true] at hup
    simpa [hreq] using hup.2
  obtain ⟨q, hqv, hq, hgnt, haddr, hquiet⟩ := granted_of_outstanding hm v (hm v hv)
  exact ⟨q, hqv, hq, hgnt, haddr, hquiet, hv, rfl⟩

/-! ### What one delivery is -/

/-- The tag of a delivered response: that of memory, unless a lookup was made and finds it
revoked. -/
theorem delivery_tag (hm : Solicited ins) {v : ℕ} {w : DsRsp}
    (hup : (machine.stateAt ins v).upRvalid (ins v) = true)
    (hrsp : (machine.stateAt ins v).rspOut (ins v) = w) :
    ((machine.stateAt ins v).delivery (ins v)).rsp.tag =
      (w.tag && !((machine.stateAt ins v).revbmReqRequired (ins v) &&
        (machine.stateAt ins v).revbmRevoked (ins v))) := by
  have htag : ((machine.stateAt ins v).delivery (ins v)).rsp.tag =
      ((if (ins v).revbmRvalid then !(machine.stateAt ins v).revbmRevoked (ins v) else true) &&
        w.tag) := by
    rw [← hrsp]
    rfl
  rw [upRvalid_eq, Bool.and_eq_true] at hup
  cases hreq : (machine.stateAt ins v).revbmReqRequired (ins v) with
  | true =>
    have hv : (ins v).revbmRvalid = true := by simpa [hreq] using hup.2
    rw [htag, hv, if_pos rfl, Bool.true_and, Bool.and_comm]
  | false =>
    -- an answer would mean an outstanding lookup, and then the lookup were required
    have hv : (ins v).revbmRvalid = false := by
      by_contra hne
      have hp := pending_of_outstanding hm v (hm v (by simpa using hne))
      rw [hp.revbmReqRequired] at hreq
      cases hreq
    rw [htag, hv]
    simp

/-! ### The two words of a capability -/

theorem second_of_aligned {r : UpstreamReq} (h : r.addr.toNat % 8 = 0) : r.second = false := by
  rw [UpstreamReq.second, BitVec.getLsbD, Nat.testBit_eq_decide_div_mod_eq]
  simp only [decide_eq_false_iff_not]
  omega

theorem second_of_aligned_add {r0 r1 : UpstreamReq} (h : r0.addr.toNat % 8 = 0)
    (hr : r1.addr = r0.addr + 4) : r1.second = true := by
  have hadd : r1.addr.toNat = (r0.addr.toNat + 4) % 2 ^ 32 := by rw [hr, BitVec.toNat_add]; rfl
  rw [UpstreamReq.second, BitVec.getLsbD, Nat.testBit_eq_decide_div_mod_eq]
  simp only [decide_eq_true_eq]
  omega

/-- A first word keeps the tag it has in memory. -/
theorem first_word (hd : Disciplined ins) (hm : Solicited ins) {t k : ℕ} {u : Delivery}
    {r : UpstreamReq} {w : DsRsp} (hu : (delivered ins t)[k]? = some u)
    (hr : (requested ins t)[k]? = some r) (hw : (arrived ins t)[k]? = some w)
    (hfirst : r.second = false) : u.rsp.tag = w.tag := by
  obtain ⟨v, r', w', hvt, hup, -, rfl, hr', hw', hrsp, hmis, -⟩ := delivered_at hd hu
  cases hr.symm.trans (machine.getElem?_log_of_le ins hvt.le hr')
  cases hw.symm.trans (machine.getElem?_log_of_le ins hvt hw')
  have hreq : (machine.stateAt ins v).revbmReqRequired (ins v) = false := by
    simp [revbmReqRequired, hmis, hfirst]
  rw [delivery_tag hm hup hrsp, hreq]
  simp

/-- A second word is looked up exactly if it completes a revocable capability, and the lookup is
made on the bitmap port. -/
theorem second_word (hd : Disciplined ins) (hm : BitmapAnswers ins) {t k : ℕ} {u : Delivery}
    {r0 r1 : UpstreamReq} {w0 w1 : DsRsp} (hu : (delivered ins t)[k + 1]? = some u)
    (hr0 : (requested ins t)[k]? = some r0) (hr1 : (requested ins t)[k + 1]? = some r1)
    (hw0 : (arrived ins t)[k]? = some w0) (hw1 : (arrived ins t)[k + 1]? = some w1)
    (hs0 : r0.second = false) (hs1 : r1.second = true) (ht0 : w0.tag = true) (ht1 : w1.tag = true) :
    ∃ word, u.lookup = (if revocable w0.data w1.data then some (revbmAddr w0.data w1.data, word)
        else none) ∧
      (revocable w0.data w1.data = true →
        ∃ c < t, LookedUp ins c (revbmAddr w0.data w1.data) word) ∧
      u.rsp.tag = !(revocable w0.data w1.data &&
        word.getLsbD (revbmBitSelect w0.data w1.data).toNat) := by
  obtain ⟨v, r', w', hvt, hup, hlen, rfl, hr', hw', hrsp, hmis, hmisValid⟩ := delivered_at hd hu
  cases hr1.symm.trans (machine.getElem?_log_of_le ins hvt.le hr')
  cases hw1.symm.trans (machine.getElem?_log_of_le ins hvt hw')
  have hb := bridge hd v
  have hkA : k < (arrived ins v).length := by have := hb.delivered_le; omega
  have hkR : k < (requested ins v).length := by have := hb.arrived_le; omega
  -- the pointer register holds the first word
  have hr0v : (requested ins v)[k]? = some r0 := by
    rw [← hr0, List.getElem?_eq_getElem hkR]
    exact (machine.getElem?_log_of_le ins hvt.le (List.getElem?_eq_getElem hkR)).symm
  have hw0v : (arrived ins v)[k]? = some w0 := by
    rw [← hw0, List.getElem?_eq_getElem hkA]
    exact (machine.getElem?_log_of_le ins hvt.le (List.getElem?_eq_getElem hkA)).symm
  obtain ⟨hvalid, hptr⟩ := hb.ptr_succ hlen hr0v hw0v
  rw [ht0, hs0] at hvalid
  have hptr := hptr hvalid
  have hout : (machine.stateAt ins v).rspOutValid (ins v) = true := by
    rw [upRvalid_eq, Bool.and_eq_true] at hup
    exact hup.1
  have hreq : (machine.stateAt ins v).revbmReqRequired (ins v) = revocable w0.data w1.data := by
    simp [revbmReqRequired, revocable, hrsp, hvalid, hptr, ht1, hout, hmis, hs1, hmisValid]
  have haddr : (machine.stateAt ins v).revbmAddrO (ins v) = revbmAddr w0.data w1.data := by
    rw [revbmAddrO, hrsp, hptr]
  refine ⟨(ins v).revbmRdata, ?_, fun hrev => ⟨v, hvt, ?_⟩, ?_⟩
  · rw [delivery, hreq, haddr]
  · rw [← haddr]
    exact lookedUp_of_delivery hm.solicited hup (hreq.trans hrev)
  · have hrevoked : (machine.stateAt ins v).revbmRevoked (ins v) =
        (ins v).revbmRdata.getLsbD (revbmBitSelect w0.data w1.data).toNat := by
      rw [revbmRevoked, hrsp, hptr, hm.noErr v, Bool.or_false]
    rw [delivery_tag hm.solicited hup hrsp, hreq, hrevoked, ht1, Bool.true_and]

/-! ### Exactness -/

theorem cperms_loadedCap (w0 w1 : DsRsp) :
    (loadedCap w0 w1).cperms = (capMeta w1.data).cperms := by
  have hext : (BitVec.cons w1.tag w1.data).extractLsb' 25 6 = w1.data.extractLsb' 25 6 := by
    ext j hj
    simp [BitVec.getLsbD_cons, show ¬ 25 + j = 32 by omega]
  rw [loadedCap, memToCap, capMeta, maskLoadedCperms_default, hext]

theorem loadedBase_eq {w0 w1 : DsRsp} (ht0 : w0.tag = true) (ht1 : w1.tag = true) :
    loadedBase w0 w1 = (capBase w0.data w1.data).toNat := by
  rw [loadedBase, loadedCap, ht0, ht1, ← capBase_eq_decodeCap]

/-- What the filter asks of a capability, in terms of the capability. -/
theorem revocable_iff {w0 w1 : DsRsp} (ht0 : w0.tag = true) (ht1 : w1.tag = true) :
    revocable w0.data w1.data = true ↔ isSealingCap (loadedCap w0 w1).cperms = false ∧
      0x10010000 ≤ loadedBase w0 w1 ∧ loadedBase w0 w1 < 0x10020000 := by
  rw [revocable, Bool.and_eq_true, Bool.not_eq_true', Bool.not_eq_true',
    revbmOutOfRange_eq_false_iff, cperms_loadedCap, loadedBase_eq ht0 ht1]

/-- Where the bitmap bit of a revocable capability lies. -/
theorem revbmAddr_of_revocable {w0 w1 : DsRsp} (ht0 : w0.tag = true) (ht1 : w1.tag = true)
    (h : revocable w0.data w1.data = true) :
    (revbmAddr w0.data w1.data).toNat = 0x10020000 + 4 * (heapBit (loadedBase w0 w1) / 32) ∧
      (revbmBitSelect w0.data w1.data).toNat = heapBit (loadedBase w0 w1) % 32 := by
  have hr := (revocable_iff ht0 ht1).mp h
  rw [revocable, Bool.and_eq_true, Bool.not_eq_true', Bool.not_eq_true'] at h
  rw [toNat_revbmAddr, toNat_revbmBitSelect, toNat_revbmBitAddr_of_inRange h.2,
    ← loadedBase_eq ht0 ht1]
  refine ⟨?_, rfl⟩
  unfold heapBit
  omega

/-- **The filter is exact.** In a run of the data port in which the bitmap answers its lookups:
every lookup addresses a word of the bitmap; every response is delivered with the data and the error
flag it arrived with; and a capability load whose two words are tagged in memory is delivered.
Unless it is a sealing capability or based outside the heap, the bitmap word of its base is
requested on the bitmap port and answered; and it is delivered untagged if and only if it is not a
sealing capability, its base lies in the heap, and the word returned for the bitmap word of that
base has its bit set. -/
theorem filter_exact (hd : Disciplined ins) (hm : BitmapAnswers ins) :
    (∀ t, (machine.stateAt ins t).revbmReq (ins t) = true →
      0x10020000 ≤ ((machine.stateAt ins t).revbmAddrO (ins t)).toNat ∧
        ((machine.stateAt ins t).revbmAddrO (ins t)).toNat + 4 ≤ 0x10020400) ∧
    (∀ (t k : ℕ) (u : Delivery), (delivered ins t)[k]? = some u →
      ∃ w : DsRsp, (arrived ins t)[k]? = some w ∧ u.rsp.data = w.data ∧ u.rsp.err = w.err) ∧
    ∀ (t k : ℕ) (w0 w1 : DsRsp), CapLoad ins t k w0 w1 → w0.tag = true → w1.tag = true →
      ∃ (v : ℕ) (u0 u1 : Delivery),
        (delivered ins v)[k]? = some u0 ∧ (delivered ins v)[k + 1]? = some u1 ∧
        (isSealingCap (loadedCap w0 w1).cperms = false →
          0x10010000 ≤ loadedBase w0 w1 → loadedBase w0 w1 < 0x10020000 →
          ∃ addr word, u1.lookup = some (addr, word) ∧
            addr.toNat = 0x10020000 + 4 * (heapBit (loadedBase w0 w1) / 32) ∧
            ∃ c < v, LookedUp ins c addr word) ∧
        ((u0.rsp.tag && u1.rsp.tag) = false ↔
          isSealingCap (loadedCap w0 w1).cperms = false ∧
          (0x10010000 ≤ loadedBase w0 w1 ∧ loadedBase w0 w1 < 0x10020000) ∧
          ∃ addr word, u1.lookup = some (addr, word) ∧
            addr.toNat = 0x10020000 + 4 * (heapBit (loadedBase w0 w1) / 32) ∧
            word.getLsbD (heapBit (loadedBase w0 w1) % 32) = true) := by
  refine ⟨fun t _ => revbmAddr_mem_window _ _, fun t k u hu => ?_, ?_⟩
  · obtain ⟨w, hw, heq, -⟩ := delivered_unchanged hd hu
    exact ⟨w, hw, by rw [heq], by rw [heq]⟩
  · intro t k w0 w1 hload ht0 ht1
    obtain ⟨r0, r1, hr0, hr1, -, -, halign, hnext⟩ := hload.reads
    obtain ⟨v', hv'⟩ :=
      eventually_delivered hd hm.lookups (List.getElem?_eq_some_iff.mp hload.second).1
    -- look at the logs from a cycle that has seen both the arrivals and the deliveries
    set v := max t v'
    have hlen : k + 1 < (delivered ins v).length :=
      lt_of_lt_of_le hv' (length_delivered_mono (le_max_right t v'))
    have hu0 := List.getElem?_eq_getElem (show k < (delivered ins v).length by omega)
    have hu1 := List.getElem?_eq_getElem hlen
    have hlog : ∀ {β : Type} {f : Trvk → TrvkIn → List β} {j : ℕ} {b : β},
        (machine.log ins f t)[j]? = some b → (machine.log ins f v)[j]? = some b :=
      fun h => machine.getElem?_log_of_le ins (le_max_left t v') h
    have hfirst := first_word hd hm.solicited hu0 (hlog hr0) (hlog hload.first)
      (second_of_aligned halign)
    obtain ⟨word, hlookup, hport, htag⟩ := second_word hd hm hu1 (hlog hr0) (hlog hr1)
      (hlog hload.first) (hlog hload.second) (second_of_aligned halign)
      (second_of_aligned_add halign hnext) ht0 ht1
    refine ⟨v, _, _, hu0, hu1, fun hseal hlo hhi => ?_, ?_⟩
    · have hrev := (revocable_iff ht0 ht1).mpr ⟨hseal, hlo, hhi⟩
      rw [if_pos hrev] at hlookup
      exact ⟨_, word, hlookup, (revbmAddr_of_revocable ht0 ht1 hrev).1, hport hrev⟩
    rw [hfirst, ht0, Bool.true_and, htag, Bool.not_eq_false', Bool.and_eq_true, hlookup,
      ← and_assoc, ← revocable_iff ht0 ht1]
    refine and_congr_right fun hrev => ?_
    obtain ⟨haddr, hbit⟩ := revbmAddr_of_revocable ht0 ht1 hrev
    rw [if_pos hrev, hbit]
    constructor
    · exact fun h => ⟨_, _, rfl, haddr, h⟩
    · rintro ⟨addr, word', heq, -, h⟩
      cases heq
      exact h

/-! ### A revoked capability -/

theorem revokedLoad_answers : BitmapAnswers revokedLoad where
  solicited := revokedLoad_lookups.solicited
  noErr
    | 0 | 1 | 2 | 3 | 4 => rfl
    | _ + 5 => rfl
  answered := revokedLoad_lookups.answered

theorem revokedLoad_capLoad :
    CapLoad revokedLoad 4 0 ⟨0x10010000, 0, true, false⟩ ⟨0x7e002000, 0, true, false⟩ where
  reads := ⟨(revokedLoad 1).up, (revokedLoad 2).up, by decide +kernel, by decide +kernel, rfl, rfl,
    rfl, rfl⟩
  first := by decide +kernel
  second := by decide +kernel

theorem revokedLoad_base :
    isSealingCap (loadedCap ⟨0x10010000, 0, true, false⟩ ⟨0x7e002000, 0, true, false⟩).cperms =
        false ∧
      loadedBase ⟨0x10010000, 0, true, false⟩ ⟨0x7e002000, 0, true, false⟩ = 0x10010000 := by
  decide +kernel

/-- The filter looks a capability at the base of the heap up, finds bit 0 of the first word of the
bitmap set and withholds the tag. -/
theorem filter_exact_revokedLoad :
    (delivered revokedLoad 5).map (fun u => (u.rsp.tag, u.lookup)) =
      [(true, none), (false, some (0x10020000, 1))] ∧
    ∃ (v : ℕ) (u0 u1 : Delivery),
      (delivered revokedLoad v)[0]? = some u0 ∧ (delivered revokedLoad v)[1]? = some u1 ∧
      (∃ addr word, u1.lookup = some (addr, word) ∧ addr.toNat = 0x10020000 ∧
        ∃ c < v, LookedUp revokedLoad c addr word) ∧
      ((u0.rsp.tag && u1.rsp.tag) = false ↔
        ∃ addr word, u1.lookup = some (addr, word) ∧ addr.toNat = 0x10020000 ∧
          word.getLsbD 0 = true) := by
  obtain ⟨hseal, hbase⟩ := revokedLoad_base
  obtain ⟨v, u0, u1, hu0, hu1, hlookup, htag⟩ :=
    (filter_exact revokedLoad_disciplined revokedLoad_answers).2.2 4 0 _ _ revokedLoad_capLoad rfl
      rfl
  rw [hseal, hbase] at hlookup htag
  refine ⟨by decide +kernel, v, u0, u1, hu0, hu1, ?_, ?_⟩
  · simpa [heapBit] using hlookup rfl (by norm_num) (by norm_num)
  · simpa [heapBit] using htag

end Trvk

end Revocation

end Croc
