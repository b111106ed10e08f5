import Croc.Revocation.BitmapMemory
import Croc.Revocation.Trvk

/-!
# The filter and the bitmap memory together

The load filter asks the bitmap memory for a word and waits for it; the crossbar reaches the same
memory through its data port. Here the two are wired as in the SoC and run against an arbitrary
environment: any requests of the load/store unit, any grants and responses of the memory system and
any accesses to the data port of the bitmap.

The grant of the lookup port is tied high, but the data port has priority. A lookup whose cycle
also brings a data access is therefore granted and then dropped. The filter believes that an answer
is on its way and never asks again: the load, and every response behind it, waits forever.

## Main definitions

* `LookupSystem`, `LookupIn`, `LookupSystem.step`: the two blocks and their wires.
* `LookupSystem.granted`, `LookupSystem.collides`: a lookup is granted; the data port takes the
  memory in this cycle.
* `NoLostLookup`: every granted lookup is answered once, and the filter never waits in vain.

## Main results

* `noLostLookup_iff`: lookups are never lost exactly in the runs without a collision.
* `LookupSystem.lost_forever`: after a collision the filter waits forever.
-/

namespace Croc

namespace Revocation

open Cheriot Clocked

open Bits (Word)

/-- The filter and the memory it looks up in. -/
structure LookupSystem where
  /-- `ibex_trvk`. -/
  trvk : Trvk
  /-- `revc_bitmap_memory`. -/
  mem : BitmapMemory

/-- What the environment of the two blocks does in a cycle. -/
structure LookupIn where
  /-- The request of the load/store unit. -/
  up : UpstreamReq
  /-- The memory system grants the filter's request. -/
  dsGnt : Bool
  /-- The memory system responds. -/
  dsRvalid : Bool
  /-- Its response. -/
  dsRsp : DsRsp
  /-- The access of the crossbar to the bitmap. -/
  data : DataReq
  deriving DecidableEq, Repr, Inhabited

namespace LookupSystem

variable (s : LookupSystem) (i : LookupIn)

/-- The inputs of the filter. -/
def trvkIn : TrvkIn where
  up := i.up
  dsGnt := i.dsGnt
  dsRvalid := i.dsRvalid
  dsRsp := i.dsRsp
  revbmGnt := s.mem.trvkGnt
  revbmRvalid := s.mem.trvkRvalid
  revbmRdata := s.mem.trvkRdata
  revbmErr := s.mem.trvkErr

/-- The inputs of the bitmap memory. -/
def bitmapIn : BitmapIn where
  data := i.data
  trvkReq := s.trvk.revbmReq (s.trvkIn i)
  trvkAddr := s.trvk.revbmAddrO (s.trvkIn i)

/-- One clock edge of both blocks. -/
def step : LookupSystem where
  trvk := s.trvk.step (s.trvkIn i)
  mem := s.mem.step crocBitmap (s.bitmapIn i)

/-- The two blocks out of reset. -/
def init : LookupSystem := ⟨Trvk.init, BitmapMemory.init⟩

/-- The two blocks as a clocked machine. -/
def machine : Machine LookupSystem LookupIn := ⟨init, step⟩

/-- The filter's lookup is granted in this cycle. -/
def granted : Bool := s.trvk.revbmReq (s.trvkIn i) && s.mem.trvkGnt

/-- The data port takes the memory in this cycle. -/
def collides : Bool := (s.bitmapIn i).dataHit crocBitmap

/-- The bitmap word that the filter's lookup addresses. -/
def lookupWord : Word := s.mem.bitmap (crocBitmap.wordIndex (s.trvk.revbmAddrO (s.trvkIn i)))

/-- The filter delivers a response to the load/store unit in this cycle. -/
def delivers : Bool := s.trvk.upRvalid (s.trvkIn i)

/-! ### One cycle -/

variable {s i}

theorem inRange_revbmAddr (ptr data : Word) : crocBitmap.inRange (revbmAddr ptr data) = true := by
  have h := revbmAddr_mem_window ptr data
  have hbase : crocBitmap.base.toNat = 0x10020000 := rfl
  have hwords : crocBitmap.numbWords = 256 := rfl
  rw [BitmapParams.inRange_iff, hbase, hwords]
  omega

theorem lookup_bitmapIn : (s.bitmapIn i).lookup crocBitmap = s.granted i := by
  simp [BitmapIn.lookup, bitmapIn, Trvk.revbmAddrO, inRange_revbmAddr, granted,
    BitmapMemory.trvkGnt]

/-- A pulse follows a grant, one cycle later, unless the data port took the memory. -/
theorem trvkRvalid_step : (s.step i).mem.trvkRvalid = (s.granted i && !s.collides i) := by
  rw [step, BitmapMemory.trvkRvalid_step, lookup_bitmapIn]
  rfl

theorem trvkRdata_step (hg : s.granted i = true) (hc : s.collides i = false) :
    (s.step i).mem.trvkRdata = s.lookupWord i :=
  BitmapMemory.trvkRdata_step (lookup_bitmapIn.trans hg) hc

/-- What holds in every cycle, collisions or not: a pulse comes only while a lookup is outstanding,
and while one is outstanding the filter waits for it. -/
structure Waits (s : LookupSystem) : Prop where
  /-- No pulse comes unasked. -/
  outstanding : s.mem.trvkRvalid = true → s.trvk.outstanding = true
  /-- An outstanding lookup is still required. -/
  pending : s.trvk.outstanding = true → s.trvk.Pending

theorem waits_init : init.Waits := ⟨nofun, nofun⟩

/-- While a lookup is outstanding, the filter delivers exactly with its answer. -/
theorem Waits.delivers_eq (h : s.Waits) (ho : s.trvk.outstanding = true) (i : LookupIn) :
    s.delivers i = s.mem.trvkRvalid := by
  have hp := h.pending ho
  have hreq := hp.revbmReqRequired (s.trvkIn i)
  rw [delivers, Trvk.upRvalid_eq, hreq, Trvk.rspOutValid_of_revbmReqRequired hreq]
  simp [trvkIn]

/-- The outstanding flag after an edge. -/
theorem Waits.outstanding_step (h : s.Waits) :
    (s.step i).trvk.outstanding =
      (s.granted i || (s.trvk.outstanding && !s.mem.trvkRvalid)) := by
  have hrsp : (s.mem.trvkRvalid && s.trvk.revbmRspReady (s.trvkIn i)) = s.mem.trvkRvalid := by
    cases hv : s.mem.trvkRvalid with
    | false => rfl
    | true =>
      have ho := h.outstanding hv
      have hd := h.delivers_eq ho i
      rw [hv] at hd
      rw [Trvk.revbmRspReady_eq, (h.pending ho).revbmReqRequired, show
        s.trvk.upRvalid (s.trvkIn i) = true from hd]
      rfl
  have hstep : (s.step i).trvk.outstanding =
      if s.mem.trvkRvalid && s.trvk.revbmRspReady (s.trvkIn i) then false
      else if s.granted i then true else s.trvk.outstanding := rfl
  rw [hstep, hrsp]
  cases hv : s.mem.trvkRvalid with
  | false => cases s.granted i <;> simp
  | true =>
    have ho := h.outstanding hv
    have hg : s.granted i = false := by simp [granted, Trvk.revbmReq, ho]
    simp [hg]

theorem Waits.step (h : s.Waits) (i : LookupIn) : (s.step i).Waits where
  outstanding hv := by
    rw [trvkRvalid_step, Bool.and_eq_true] at hv
    rw [h.outstanding_step, hv.1, Bool.true_or]
  pending ho := Trvk.pending_of_outstanding_step h.pending h.outstanding ho

/-! ### Whole runs -/

variable {ins : ℕ → LookupIn}

theorem waits_stateAt (ins : ℕ → LookupIn) (t : ℕ) : (machine.stateAt ins t).Waits :=
  Machine.stateAt_inv' (I := Waits) waits_init (fun _ i h => h.step i) t

/-- **A lost lookup is lost forever.** After a collision the outstanding flag stays set, no pulse
comes and no response is delivered any more. -/
theorem lost_forever {t : ℕ} (hg : (machine.stateAt ins t).granted (ins t) = true)
    (hc : (machine.stateAt ins t).collides (ins t) = true) {u : ℕ} (hu : t < u) :
    (machine.stateAt ins u).trvk.outstanding = true ∧
      (machine.stateAt ins u).mem.trvkRvalid = false ∧
      (machine.stateAt ins u).delivers (ins u) = false := by
  have hstuck : (machine.stateAt ins u).trvk.outstanding = true ∧
      (machine.stateAt ins u).mem.trvkRvalid = false := by
    refine Machine.stateAt_stable (I := fun s : LookupSystem =>
      s.trvk.outstanding = true ∧ s.mem.trvkRvalid = false) (t := t + 1) ⟨?_, ?_⟩
      (fun v _ hv => ?_) hu
    · exact (waits_stateAt ins t).outstanding_step.trans (by simp [hg])
    · exact trvkRvalid_step.trans (by simp [hc])
    · have hw := waits_stateAt ins v
      have hng : (machine.stateAt ins v).granted (ins v) = false := by
        simp [granted, Trvk.revbmReq, hv.1]
      exact ⟨hw.outstanding_step.trans (by simp [hv.1, hv.2]),
        trvkRvalid_step.trans (by simp [hng])⟩
  exact ⟨hstuck.1, hstuck.2, ((waits_stateAt ins u).delivers_eq hstuck.1 _).trans hstuck.2⟩

end LookupSystem

/-- No lookup is lost in a run: the pulses are the grants, one cycle later, each with the addressed
word; and whenever the filter waits for an answer, the answer is there and the load completes. -/
structure NoLostLookup (ins : ℕ → LookupIn) : Prop where
  /-- Every granted lookup is answered by one pulse, and nothing else is. -/
  pulse : ∀ t, (LookupSystem.machine.stateAt ins (t + 1)).mem.trvkRvalid =
    (LookupSystem.machine.stateAt ins t).granted (ins t)
  /-- The answer carries the addressed word. -/
  word : ∀ t, (LookupSystem.machine.stateAt ins t).granted (ins t) = true →
    (LookupSystem.machine.stateAt ins (t + 1)).mem.trvkRdata =
      (LookupSystem.machine.stateAt ins t).lookupWord (ins t)
  /-- The filter does not wait in vain. -/
  answered : ∀ t, (LookupSystem.machine.stateAt ins t).trvk.outstanding = true →
    (LookupSystem.machine.stateAt ins t).mem.trvkRvalid = true ∧
      (LookupSystem.machine.stateAt ins t).delivers (ins t) = true

/-- **No lost lookup.** Lookups are never lost in exactly those runs in which no granted lookup
meets an access of the data port to the bitmap in the same cycle. -/
theorem noLostLookup_iff (ins : ℕ → LookupIn) :
    NoLostLookup ins ↔
      ∀ t, (LookupSystem.machine.stateAt ins t).granted (ins t) = true →
        (LookupSystem.machine.stateAt ins t).collides (ins t) = false := by
  constructor
  · intro h t hg
    have hpulse := h.pulse t
    rw [Machine.stateAt_succ, hg] at hpulse
    have := LookupSystem.trvkRvalid_step.symm.trans hpulse
    simpa [hg] using this
  · intro h
    have hpulse : ∀ t, (LookupSystem.machine.stateAt ins (t + 1)).mem.trvkRvalid =
        (LookupSystem.machine.stateAt ins t).granted (ins t) := by
      intro t
      refine LookupSystem.trvkRvalid_step.trans ?_
      cases hg : (LookupSystem.machine.stateAt ins t).granted (ins t) with
      | false => rfl
      | true => simp [h t hg]
    refine ⟨hpulse, fun t hg => LookupSystem.trvkRdata_step hg (h t hg), fun t ho => ?_⟩
    have hv : (LookupSystem.machine.stateAt ins t).mem.trvkRvalid = true := by
      induction t with
      | zero => cases ho
      | succ t ih =>
        -- a flag that survived the edge would mean a pulse in the cycle before
        rw [hpulse]
        have hstep := (LookupSystem.waits_stateAt ins t).outstanding_step.symm.trans ho
        rw [Bool.or_eq_true, Bool.and_eq_true, Bool.not_eq_true'] at hstep
        rcases hstep with hg | ⟨ho', hv'⟩
        · exact hg
        · rw [ih ho'] at hv'
          cases hv'
    exact ⟨hv, ((LookupSystem.waits_stateAt ins t).delivers_eq ho _).trans hv⟩

/-! ### A collision -/

/-- A read request of the load/store unit. -/
def readReq (addr : Word) : UpstreamReq :=
  { (default : UpstreamReq) with req := true, addr := addr }

/-- A run with a capability load from `0x1000_0000`. The capability is based at `0x1001_0000`; its
second word arrives in cycle 3, together with a crossbar read of the first bitmap word. -/
def collisionRun : ℕ → LookupIn
  | 1 => { (default : LookupIn) with up := readReq 0x10000000, dsGnt := true }
  | 2 => { (default : LookupIn) with
      up := readReq 0x10000004
      dsGnt := true
      dsRvalid := true
      dsRsp := ⟨0x10010000, 0, true, false⟩ }
  | 3 => { (default : LookupIn) with
      dsRvalid := true
      dsRsp := ⟨0x7e002000, 0, true, false⟩
      data := ⟨true, false, 0x10020000, 0, 0xf⟩ }
  | _ => default

theorem collisionRun_collides :
    (LookupSystem.machine.stateAt collisionRun 3).granted (collisionRun 3) = true ∧
      (LookupSystem.machine.stateAt collisionRun 3).collides (collisionRun 3) = true := by
  decide +kernel

/-- The lookup of cycle 3 is granted and dropped: the filter waits for it in every later cycle, no
pulse comes, and the load is never delivered. -/
theorem collisionRun_loses_lookup :
    ¬ NoLostLookup collisionRun ∧
      (LookupSystem.machine.stateAt collisionRun 3).granted (collisionRun 3) = true ∧
      ∀ u, 3 < u → (LookupSystem.machine.stateAt collisionRun u).trvk.outstanding = true ∧
        (LookupSystem.machine.stateAt collisionRun u).mem.trvkRvalid = false ∧
        (LookupSystem.machine.stateAt collisionRun u).delivers (collisionRun u) = false := by
  obtain ⟨hg, hc⟩ := collisionRun_collides
  have hlost : ∀ u, 3 < u → _ := fun u hu => LookupSystem.lost_forever hg hc hu
  refine ⟨fun h => ?_, hg, hlost⟩
  have hans := (h.answered 4 (hlost 4 (by norm_num)).1).1
  rw [(hlost 4 (by norm_num)).2.1] at hans
  cases hans

end Revocation

end Croc
