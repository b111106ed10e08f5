import Croc.Idma.Completion

/-!
# The backend on a memory

The two ports lead to a memory that answers a read with what it held when the read was granted, and
that takes a write when the write is granted. Other managers may write to it at any time. Whatever
they do, a byte that the backend writes was at its source address in some cycle after its transfer
was taken. If they keep off, and if the transfers do not overlap, the transfers that were reported
have been copied.

## Main definitions

* `sources`: the addresses that transfers read, byte by byte.
* `Backend.grantLog`: the cycles in which reads were granted.
* `Backend.Serves`: the ports lead to a memory.

## Main results

* `Backend.Serves.written_isPrefix`: every byte that is written was at its source.
* `Backend.memcpy`: what was reported has been copied.
-/

namespace Croc

namespace Idma

open Clocked ByteMemory

open Bits (Word)

/-- The addresses that transfers read, byte by byte. -/
def sources (T : List BurstReq) : List Word := T.flatMap fun q => byteAddrs q.srcAddr q.length.toNat

theorem bytes_readBeats (T : List BurstReq) :
    (T.flatMap BurstReq.readBeats).flatMap (fun b => b.beat.bytes) = sources T := by
  rw [List.flatMap_assoc]
  refine List.flatMap_congr fun q _ => ?_
  rw [BurstReq.readBeats, List.flatMap_map]
  exact bytes_beats _ _

theorem length_destinations (T : List BurstReq) : (destinations T).length = (sources T).length := by
  simp [destinations, sources, List.length_flatMap, byteAddrs]

/-- A byte of the word that a beat reads is the byte at its address. -/
theorem byteOf_word {b : Beat} (h : b.Legal) {a : Word} (ha : a ∈ b.bytes) (M : ByteMem) :
    byteOf (M.word (wordOf b.addr)) (lane a) = M a := by
  have haddr := wordOf_add_offset h ha
  rw [← BitVec.ofNat_toNat] at haddr
  have hlane : lane a = (offset a).toNat := by
    rw [lane, toNat_offset, BitVec.extractLsb'_toNat, Nat.shiftRight_zero]
  rw [hlane, ByteMem.byteOf_word M _ (offset a).isLt, haddr]

namespace Backend

variable {ins : ℕ → BackendIn}

/-- The cycles before `t` in which a read was granted. -/
def grantLog (ins : ℕ → BackendIn) (t : ℕ) : List ℕ :=
  (List.range t).flatMap fun u => ((machine.stateAt ins u).reads (ins u)).map fun _ => u

/-- Both ports lead to the memory `mem`. A read is answered, in a later cycle, with what the memory
held when it was granted, and a write is answered after it was granted. The memory changes by what
the backend writes, and where others write. -/
structure Serves (ins : ℕ → BackendIn) (mem : ℕ → ByteMem) (others : ℕ → Set Word) : Prop where
  /-- The answers to reads. -/
  read : ∀ t, rspLog ins (t + 1) <+:
    ((readLog ins t).zip (grantLog ins t)).map fun x => (mem x.2).word x.1
  /-- The answers to writes. -/
  write : ∀ t, (ackLog ins (t + 1)).length ≤ (writeLog ins t).length
  /-- The contents. -/
  step : ∀ t x, x ∉ others t →
    mem (t + 1) x =
      (mem t).storeList (((machine.stateAt ins t).writes (ins t)).flatMap Write.bytes) x

variable {mem : ℕ → ByteMem} {others : ℕ → Set Word}

theorem grantLog_succ (t : ℕ) : grantLog ins (t + 1) =
    grantLog ins t ++ ((machine.stateAt ins t).reads (ins t)).map fun _ => t := by
  rw [grantLog, List.range_succ, List.flatMap_append, List.flatMap_singleton]
  rfl

theorem length_grantLog (t : ℕ) : (grantLog ins t).length = (readLog ins t).length := by
  induction t with
  | zero => rfl
  | succ t ih =>
    rw [grantLog_succ, readLog, Machine.log_succ, List.length_append, List.length_append, ih,
      List.length_map]
    rfl

theorem grantLog_since {t₀ t : ℕ} (hle : t₀ ≤ t) :
    ∃ G, grantLog ins t = grantLog ins t₀ ++ G ∧ ∀ u ∈ G, t₀ ≤ u ∧ u < t := by
  induction t, hle using Nat.le_induction with
  | base => exact ⟨[], (List.append_nil _).symm, fun u hu => absurd hu List.not_mem_nil⟩
  | succ t hle ih =>
    obtain ⟨G, hG, hbound⟩ := ih
    refine ⟨G ++ ((machine.stateAt ins t).reads (ins t)).map fun _ => t, ?_, fun u hu => ?_⟩
    · rw [grantLog_succ, hG, List.append_assoc]
    · rcases List.mem_append.mp hu with hu | hu
      · exact ⟨(hbound u hu).1, (hbound u hu).2.trans t.lt_succ_self⟩
      · obtain ⟨-, -, rfl⟩ := List.mem_map.mp hu
        exact ⟨hle, t.lt_succ_self⟩

theorem Serves.disciplined (h : Serves ins mem others) : Disciplined ins where
  read t hrsp := by
    have hle := (h.read t).length_le
    have hsucc : rspLog ins (t + 1) = rspLog ins t ++ (ins t).rRsp.toList := rfl
    rw [hsucc, List.length_append, length_toList_eq, hrsp, List.length_map, List.length_zip,
      length_grantLog, Nat.min_self] at hle
    exact hle
  write t hrsp := by
    have hle := h.write t
    have hsucc : ackLog ins (t + 1) = ackLog ins t ++ (ins t).wRsp.toList := rfl
    rw [hsucc, List.length_append, length_toList_eq, hrsp] at hle
    exact hle

/-! ### Where a byte comes from -/

/-- The source addresses of the bytes that were read, each with the cycle in which its read was
granted. -/
def stamps (T : List BurstReq) (grants : List ℕ) : List (Word × ℕ) :=
  ((T.flatMap BurstReq.readBeats).zip grants).flatMap fun x => x.1.beat.bytes.map fun a => (a, x.2)

theorem map_fst_stamps_eq (T : List BurstReq) (grants : List ℕ) : (stamps T grants).map Prod.fst =
    (((T.flatMap BurstReq.readBeats).zip grants).map Prod.fst).flatMap fun b => b.beat.bytes := by
  rw [stamps, List.map_flatMap, List.flatMap_map]
  refine List.flatMap_congr fun x _ => ?_
  rw [List.map_map]
  exact List.map_id _

theorem mem_grants_of_mem_stamps {T : List BurstReq} {grants : List ℕ} {x : Word × ℕ}
    (h : x ∈ stamps T grants) :
    x.2 ∈ grants := by
  obtain ⟨y, hy, hx⟩ := List.mem_flatMap.mp h
  obtain ⟨a, -, rfl⟩ := List.mem_map.mp hx
  exact (List.of_mem_zip hy).2

theorem map_fst_stamps (T : List BurstReq) (grants : List ℕ) :
    (stamps T grants).map Prod.fst <+: sources T := by
  rw [map_fst_stamps_eq, ← bytes_readBeats]
  exact (Zip.map_fst_zip_isPrefix _ _).flatMap _

/-- The bytes that were fetched are what the memory held at their source addresses. -/
theorem Serves.fetched_isPrefix (h : Serves ins mem others) (t : ℕ) :
    fetched (transfers ins t) (rspLog ins t) <+:
    (stamps (transfers ins t) (grantLog ins t)).map fun x => mem x.2 x.1 := by
  set B := (transfers ins t).flatMap BurstReq.readBeats with hB
  have hrsp : rspLog ins t <+:
      (B.zip (grantLog ins t)).map fun x => (mem x.2).word (wordOf x.1.beat.addr) := by
    refine (machine.log_le ins _ t.le_succ).trans ((h.read t).trans ?_)
    have hreads : readLog ins t <+: B.map fun b => wordOf b.beat.addr := readLog_isPrefix t
    refine ((Zip.zip_prefix_zip hreads (List.prefix_refl _)).map _).trans ?_
    rw [List.zip_map_left, List.map_map]
    exact List.prefix_refl _
  have hzip := Zip.zip_prefix_zip (List.prefix_refl B) hrsp
  rw [Zip.zip_map_zip] at hzip
  refine (hzip.flatMap _).trans ?_
  rw [List.flatMap_map, stamps, List.map_flatMap]
  have hbytes : ∀ x ∈ B.zip (grantLog ins t),
      x.1.beat.bytes.map (fun a => byteOf ((mem x.2).word (wordOf x.1.beat.addr)) (lane a)) =
        (x.1.beat.bytes.map fun a => (a, x.2)).map fun y => mem y.2 y.1 := by
    intro x hx
    have hlegal := legal_of_mem_readBeats t (List.of_mem_zip hx).1
    rw [List.map_map]
    exact List.map_congr_left fun a ha => byteOf_word hlegal ha _
  rw [List.flatMap_congr hbytes]

/-- Every byte that is written was at its source address when its read was granted. -/
theorem Serves.written_isPrefix (h : Serves ins mem others) (t : ℕ) :
    (written ins t).map Prod.snd <+:
    (stamps (transfers ins t) (grantLog ins t)).map fun x => mem x.2 x.1 :=
  (h.disciplined.map_snd_written_isPrefix t).trans (h.fetched_isPrefix t)

/-! ### From an idle cycle on -/

/-- All transfers that were taken before cycle `t` were reported. -/
def Idle (ins : ℕ → BackendIn) (t : ℕ) : Prop := (reportLog ins t).length = (transfers ins t).length

section Since

variable {t₀ t : ℕ}

/-- All bytes of the transfers before an idle cycle were written. -/
theorem Serves.map_fst_written_of_idle (h : Serves ins mem others) (hidle : Idle ins t₀) :
    (written ins t₀).map Prod.fst = destinations (transfers ins t₀) := by
  have hall := h.disciplined.destinations_isPrefix t₀
  rw [hidle, List.take_length] at hall
  exact (map_fst_written_isPrefix t₀).eq_of_length_le hall.length_le

theorem Serves.length_stamps_of_idle (h : Serves ins mem others) (hidle : Idle ins t₀) :
    (stamps (transfers ins t₀) (grantLog ins t₀)).length = (written ins t₀).length ∧
      (written ins t₀).length = (sources (transfers ins t₀)).length := by
  have hbytes := (h.written_isPrefix t₀).length_le
  have hsrc := (map_fst_stamps (transfers ins t₀) (grantLog ins t₀)).length_le
  have hdst := congrArg List.length (h.map_fst_written_of_idle hidle)
  rw [List.length_map, List.length_map] at hbytes
  rw [List.length_map] at hsrc
  rw [List.length_map, length_destinations] at hdst
  exact ⟨by omega, hdst⟩

/-- All reads of the transfers before an idle cycle were granted. -/
theorem Serves.length_grantLog_of_idle (h : Serves ins mem others) (hidle : Idle ins t₀) :
    ((transfers ins t₀).flatMap BurstReq.readBeats).length = (grantLog ins t₀).length := by
  set B := (transfers ins t₀).flatMap BurstReq.readBeats with hB
  have hle : (grantLog ins t₀).length ≤ B.length := by
    have hreads := (@readLog_isPrefix ins t₀).length_le
    rw [readAddrs, List.length_map] at hreads
    rw [length_grantLog]
    exact hreads
  refine le_antisymm ?_ hle
  -- as many bytes were read as the transfers have, and no beat is empty
  obtain ⟨hlen, hlen'⟩ := h.length_stamps_of_idle hidle
  have hfst : (stamps (transfers ins t₀) (grantLog ins t₀)).map Prod.fst =
      sources (transfers ins t₀) :=
    (map_fst_stamps _ _).eq_of_length (by rw [List.length_map, hlen, hlen'])
  rw [map_fst_stamps_eq, ← bytes_readBeats, ← hB] at hfst
  obtain ⟨R, hR⟩ := Zip.map_fst_zip_isPrefix B (grantLog ins t₀)
  have hrest : R = [] := by
    cases R with
    | nil => rfl
    | cons b R =>
      rw [← congrArg (List.flatMap fun b => b.beat.bytes) hR, List.flatMap_append,
        List.flatMap_cons] at hfst
      have hnum : (b.beat.bytes).length = b.beat.num := by simp [Beat.bytes, byteAddrs]
      have hmem : b ∈ (transfers ins t₀).flatMap BurstReq.readBeats :=
        hB ▸ hR ▸ List.mem_append_right _ (List.mem_cons_self ..)
      have hpos := (legal_of_mem_readBeats t₀ hmem).1
      have := congrArg List.length hfst
      simp only [List.length_append] at this
      omega
  have hB' := congrArg List.length hR
  rw [hrest, List.append_nil, List.length_map, List.length_zip] at hB'
  omega

/-- What the memory holds where nobody else writes. -/
theorem Serves.mem_eq_storeList (h : Serves ins mem others) {x : Word} (hle : t₀ ≤ t)
    (hx : ∀ u, t₀ ≤ u → u < t → x ∉ others u) {W : List (Word × BitVec 8)}
    (hW : written ins t = written ins t₀ ++ W) : mem t x = (mem t₀).storeList W x := by
  induction t, hle using Nat.le_induction generalizing W with
  | base =>
    obtain rfl : W = [] := by simpa using hW
    rfl
  | succ t hle ih =>
    obtain ⟨V, hV⟩ : ∃ V, written ins t = written ins t₀ ++ V := by
      obtain ⟨V, hV⟩ := (machine.log_le ins writes hle).flatMap Write.bytes
      exact ⟨V, hV.symm⟩
    have hstep : written ins (t + 1) =
        written ins t ++ ((machine.stateAt ins t).writes (ins t)).flatMap Write.bytes :=
          List.flatMap_append
    rw [hstep, hV, List.append_assoc, List.append_cancel_left_eq] at hW
    rw [← hW, storeList_append, h.step t x (hx t hle t.lt_succ_self)]
    exact storeList_congr (ih (fun u h1 h2 => hx u h1 (h2.trans t.lt_succ_self)) hV)

theorem stamps_append {T T' : List BurstReq} {G G' : List ℕ}
    (h : (T.flatMap BurstReq.readBeats).length = G.length) :
    stamps (T ++ T') (G ++ G') = stamps T G ++ stamps T' G' := by
  rw [stamps, List.flatMap_append, List.zip_append h, List.flatMap_append]
  rfl

/-- What was written since an idle cycle: the destinations of the transfers since then, with what
was at their sources in some cycle since then. -/
theorem Serves.written_since (h : Serves ins mem others) (hidle : Idle ins t₀) (hle : t₀ ≤ t)
    {T : List BurstReq} (hT : transfers ins t = transfers ins t₀ ++ T) :
    ∃ (W : List (Word × BitVec 8)) (G : List ℕ),
      written ins t = written ins t₀ ++ W ∧ W.map Prod.fst <+: destinations T ∧
        W.map Prod.snd <+: (stamps T G).map (fun x => mem x.2 x.1) ∧ ∀ u ∈ G, t₀ ≤ u ∧ u < t := by
  obtain ⟨W, hW⟩ : written ins t₀ <+: written ins t :=
    (machine.log_le ins writes hle).flatMap Write.bytes
  obtain ⟨G, hG, hbound⟩ := @grantLog_since ins _ _ hle
  have hfst := h.map_fst_written_of_idle hidle
  refine ⟨W, G, hW.symm, ?_, ?_, hbound⟩
  · have hdst := @map_fst_written_isPrefix ins t
    have happend : destinations (transfers ins t₀ ++ T) =
        destinations (transfers ins t₀) ++ destinations T :=
      List.flatMap_append
    rw [← hW, hT, List.map_append, hfst, happend, List.prefix_append_right_inj] at hdst
    exact hdst
  · have hsnd := h.written_isPrefix t
    rw [← hW, hT, hG, List.map_append, stamps_append (h.length_grantLog_of_idle hidle),
      List.map_append] at hsnd
    refine Zip.prefix_of_append_isPrefix ?_ hsnd
    rw [List.length_map, List.length_map, (h.length_stamps_of_idle hidle).1]

/-- All bytes of the transfers that were reported since an idle cycle were written since then. -/
theorem Serves.destinations_prefix_since (h : Serves ins mem others) (hidle : Idle ins t₀)
    (hle : t₀ ≤ t)
    {T : List BurstReq} (hT : transfers ins t = transfers ins t₀ ++ T) {W : List (Word × BitVec 8)}
    (hW : written ins t = written ins t₀ ++ W) :
    destinations (T.take ((reportLog ins t).length - (reportLog ins t₀).length)) <+:
      W.map Prod.fst := by
  have hmono : (reportLog ins t₀).length ≤ (reportLog ins t).length :=
    (machine.log_le ins _ hle).length_le
  have hall := h.disciplined.destinations_isPrefix t
  rw [hT, hW, List.take_append, List.take_of_length_le (hidle ▸ hmono), ← hidle, List.map_append,
    h.map_fst_written_of_idle hidle] at hall
  have happend : ∀ A B : List BurstReq, destinations (A ++ B) = destinations A ++ destinations B :=
    fun _ _ => List.flatMap_append
  rw [happend, List.prefix_append_right_inj] at hall
  exact hall

/-- A byte of a transfer, with its source. -/
theorem mem_zip_sources {T : List BurstReq} {q : BurstReq} (hq : q ∈ T) {k : ℕ}
    (hk : k < q.length.toNat) :
    (q.srcAddr + BitVec.ofNat 32 k, q.dstAddr + BitVec.ofNat 32 k) ∈
      (sources T).zip (destinations T) := by
  induction T with
  | nil => cases hq
  | cons p T ih =>
    have hzip : (sources (p :: T)).zip (destinations (p :: T)) =
        (byteAddrs p.srcAddr p.length.toNat).zip (byteAddrs p.dstAddr p.length.toNat) ++
          (sources T).zip (destinations T) :=
      List.zip_append (by simp [byteAddrs])
    rw [hzip, List.mem_append]
    rcases List.mem_cons.mp hq with rfl | hq
    · left
      rw [byteAddrs, byteAddrs, List.zip_map', List.mem_map]
      exact ⟨k, List.mem_range.mpr hk, rfl⟩
    · exact .inr (ih hq)

/-- **The copy.** The backend is idle in cycle `t₀`, the transfers `T` are taken after that and
before cycle `t`, and the first `n` of them are reported. If no transfer writes to the source of
another or twice to the same place, and if nobody else writes there, then the memory has at the
destinations of these `n` what it had at their sources, and nothing else has changed where nobody
else wrote. -/
theorem memcpy (h : Serves ins mem others) (hidle : Idle ins t₀) (hle : t₀ ≤ t) {T : List BurstReq}
    (hT : transfers ins t = transfers ins t₀ ++ T) (hdisj : ∀ x ∈ sources T, x ∉ destinations T)
    (hnd : (destinations T).Nodup)
    (hothers : ∀ u, t₀ ≤ u → u < t → ∀ x ∈ sources T ++ destinations T, x ∉ others u) :
    (∀ q ∈ T.take ((reportLog ins t).length - (reportLog ins t₀).length), ∀ k < q.length.toNat,
        mem t (q.dstAddr + BitVec.ofNat 32 k) = mem t₀ (q.srcAddr + BitVec.ofNat 32 k)) ∧
      ∀ x, x ∉ destinations T → (∀ u, t₀ ≤ u → u < t → x ∉ others u) → mem t x = mem t₀ x := by
  obtain ⟨W, G, hW, hfst, hsnd, hbound⟩ := h.written_since hidle hle hT
  -- outside the destinations nothing changes, at any time since the idle cycle
  have hkeep : ∀ u, t₀ ≤ u → u ≤ t → ∀ x, x ∉ destinations T →
      (∀ v, t₀ ≤ v → v < u → x ∉ others v) → mem u x = mem t₀ x := by
    intro u hu hut x hx hox
    obtain ⟨V, hV⟩ : written ins t₀ <+: written ins u :=
      (machine.log_le ins writes hu).flatMap Write.bytes
    obtain ⟨R, hR⟩ : written ins u <+: written ins t :=
      (machine.log_le ins writes hut).flatMap Write.bytes
    rw [← hV, hW, List.append_assoc, List.append_cancel_left_eq] at hR
    rw [h.mem_eq_storeList hu hox hV.symm]
    refine storeList_of_not_mem fun hmem => hx (hfst.subset ?_)
    rw [← hR, List.map_append]
    exact List.mem_append_left _ hmem
  refine ⟨fun q hq k hk => ?_, fun x hx hox => hkeep t hle le_rfl x hx hox⟩
  -- the byte and its source are at the same place of their lists
  obtain ⟨j, hj⟩ := List.mem_iff_getElem?.mp (mem_zip_sources hq hk)
  obtain ⟨hsrc, hdst⟩ := List.getElem?_zip_eq_some.mp hj
  have htake : sources (T.take ((reportLog ins t).length - (reportLog ins t₀).length)) <+:
      sources T :=
    List.take_prefix _ _ |>.flatMap _
  have hsrcT := Zip.getElem?_of_isPrefix htake hsrc
  -- so is what was written there, with the cycle of its read
  have hw := Zip.getElem?_of_isPrefix (h.destinations_prefix_since hidle hle hT hW) hdst
  have hdstT := List.mem_of_getElem? (Zip.getElem?_of_isPrefix hfst hw)
  obtain ⟨w, hwj, hwd⟩ := by simpa only [List.getElem?_map, Option.map_eq_some_iff] using hw
  have hval : (W.map Prod.snd)[j]? = some w.2 := by rw [List.getElem?_map, hwj]; rfl
  obtain ⟨⟨a, u⟩, hau, hmem⟩ := by
    simpa only [List.getElem?_map, Option.map_eq_some_iff] using Zip.getElem?_of_isPrefix hsnd hval
  have ha : ((stamps T G).map Prod.fst)[j]? = some a := by rw [List.getElem?_map, hau]; rfl
  obtain rfl : a = q.srcAddr + BitVec.ofNat 32 k := by
    rw [Zip.getElem?_of_isPrefix (map_fst_stamps T G) ha] at hsrcT
    exact Option.some.inj hsrcT
  obtain ⟨hu, hut⟩ := hbound u (mem_grants_of_mem_stamps (List.mem_of_getElem? hau))
  have hmemsrc := List.mem_of_getElem? hsrcT
  calc mem t (q.dstAddr + BitVec.ofNat 32 k)
      = (mem t₀).storeList W (q.dstAddr + BitVec.ofNat 32 k) :=
        h.mem_eq_storeList hle (fun v h1 h2 => hothers v h1 h2 _ (List.mem_append_right _ hdstT)) hW
    _ = w.2 := storeList_of_mem (hnd.sublist hfst.sublist) (hwd ▸ List.mem_of_getElem? hwj)
    _ = mem u (q.srcAddr + BitVec.ofNat 32 k) := hmem.symm
    _ = mem t₀ (q.srcAddr + BitVec.ofNat 32 k) :=
        hkeep u hu hut.le _ (hdisj _ hmemsrc)
          fun v h1 h2 => hothers v h1 (h2.trans hut) _ (List.mem_append_left _ hmemsrc)

end Since

end Backend

end Idma

end Croc
