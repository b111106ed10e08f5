import Croc.Cheriot.Core

/-!
# Provenance of capabilities

Every tagged capability of the core goes back, step by step, to the roots that reset puts into the
PCC and the special capability registers. Each step that writes one derives it from a single tagged
capability that was there before, inside its bounds and with no permission added, and what is sealed
stays sealed unless it is opened by `CUNSEAL` or by a jump through a sentry.

The RV32I phase before the switch matters in two ways. It fills the entries that are read as
metadata afterwards, but never the bit that is read as the tag; and it moves the addresses of MTCC
and MEPCC, which are the executable root until the switch and have the same bounds at every address.

## Main definitions

* `Loc`, `Core.held`: the places that hold a capability, and what they hold.
* `Core.sources`: the capabilities that a step may derive from.
* `Core.Inv`: the invariant.

## Main results

* `Core.inv_stateAt`: the invariant holds throughout a run.
* `Core.provenance`: provenance and monotonicity, from reset.
-/

namespace Croc

namespace Cheriot

open Clocked

open Bits (Word)

/-! ### Places and sources -/

/-- A place of the core that holds a capability. -/
inductive Loc
  | reg (k : BitVec 4)
  | mtcc
  | mtdc
  | mscratchc
  | mepcc
  | mstackEpc
  | pcc
  deriving DecidableEq, Repr

/-- The capability goes to the PCC without further checks. -/
def Loc.jumpTarget : Loc → Bool
  | .reg _ | .mtdc | .mscratchc => false
  | .mtcc | .mepcc | .mstackEpc | .pcc => true

namespace Core

variable (s : Core)

/-- What the core holds at a place. -/
def held : Loc → Held
  | .reg k => (s.readReg k).held
  | .mtcc => s.mtcc.held
  | .mtdc => s.mtdc.held
  | .mscratchc => s.mscratchc.held
  | .mepcc => s.mepcc.held
  | .mstackEpc => s.mstackEpc.held
  | .pcc => s.pcc.heldPcc

/-- What a step may derive a capability from: the PCC and the special capability registers, for an
instruction also its first source register, and for a load also the capability in memory. -/
def sources (e : Event) : List Held :=
  [s.pcc.heldPcc, s.mtcc.held, s.mtdc.held, s.mscratchc.held, s.mepcc.held, s.mstackEpc.held] ++
    match e with
    | .cheriot instr rsp =>
      (s.exIn instr).cs1.held :: if instr.op = .cloadCap then [(rsp.loaded default).held] else []
    | _ => []

/-- The two ways in which a step may open the sealed capability `src`: `CUNSEAL` under a proper
authority, and a jump through a sentry, which makes it the PCC. -/
def Opens (e : Event) (l : Loc) (src : Held) : Prop :=
  ∃ instr rsp, e = .cheriot instr rsp ∧ ((s.exIn instr).Unseals src ∨
    l = .pcc ∧ instr.op = .cjalr ∧ src = (s.exIn instr).cs1.held ∧ ExIn.IsSentry src.cap)

/-- After the step the place holds what it held before, or something derived from one source. -/
def Provenance (e : Event) (l : Loc) : Prop :=
  (s.step e).held l = s.held l ∨
    ∃ src ∈ s.sources e, DerivedFrom (s.Opens e l src) ((s.step e).held l) src

end Core

/-! ### The invariant -/

/-- A held capability has proper bounds. -/
def Held.Sound (h : Held) : Prop :=
  match h.addr with
  | some a => h.cap.toCap.WellFormed a
  | none => h.cap.Sound

/-- What is held tagged has proper bounds, and is not sealed if it can be jumped to without
checks. -/
def Loc.Ok (l : Loc) (h : Held) : Prop :=
  h.cap.valid = true → h.Sound ∧ (l.jumpTarget = true → isSealed h.cap = false)

/-- The invariant of the core. -/
structure Core.Inv (s : Core) : Prop where
  /-- Every place holds something proper. -/
  held_ok : ∀ l : Loc, l.Ok (s.held l)
  /-- An RV32I program has not set a bit that will be read as a tag. -/
  shared : s.enable = false → ∀ k, (s.rf.shared k).getLsbD 32 = false
  /-- Until the switch MTCC and MEPCC are the executable root. -/
  roots : s.enable = false → s.mtcc.cap = rootCapTx ∧ s.mepcc.cap = rootCapTx
  /-- A tagged granule holds a capability with proper bounds. -/
  mem : ∀ g lo hi, s.mem g = some (lo, hi) → ∀ rsp : BusRsp, rsp.lo.setWidth 32 = lo →
    rsp.hi.setWidth 32 = hi → (rsp.loaded default).Good

/-! ### The roots -/

theorem computeCorrections_root (x : BitVec 9) : computeCorrections 0x100 0 x = 0 := by
  have h : ∀ t a : Bool, t = false → a = false → BitVec.ofBoolListBE [xor t a, a] = 0 := by decide
  exact h _ _ (decide_eq_false BitVec.not_lt_zero) (decide_eq_false BitVec.not_lt_zero)

/-- A root covers the whole address space at every address. -/
theorem rootCap_spec (cperms : BitVec 6) (a : Word) :
    (rootCap cperms).WellFormed a ∧ (decodeCap (rootCap cperms) a).base32.toNat = 0 ∧
      (decodeCap (rootCap cperms) a).top33.toNat = 2 ^ 32 := by
  have hco : (rootCap cperms).Coherent a := (computeCorrections_root _).symm
  have hspan : (rootCap cperms).span = 2 ^ 32 := by
    have htop : (rootCap cperms).top.toNat = 256 := rfl
    have hzero : (rootCap cperms).base.toNat = 0 := rfl
    have hexp : (rootCap cperms).exp = 24 := rfl
    rw [Cap.span, htop, hzero, hexp]
    norm_num
  have hbase : (rootCap cperms).base33 a = 0 := by
    have h := Cap.base33_eq_anchor hco
    have hexp : (rootCap cperms).exp = 24 := rfl
    have hzero : (rootCap cperms).base.toNat = 0 := rfl
    have ha := a.isLt
    rw [hexp, hzero, Window.anchor] at h
    omega
  have hwf : (rootCap cperms).WellFormed a := Cap.wellFormed_iff.mpr ⟨hco, by omega, by omega⟩
  refine ⟨hwf, by rw [hwf.base32_eq, hbase], ?_⟩
  rw [toNat_decodeCap_top33, hwf.top_eq, hbase, hspan, Nat.zero_add]

/-- A root at one address is derived from the same root at another. -/
theorem rootCap_derived {opened : Prop} (cperms : BitVec 6) (a b : Word) :
    DerivedFrom opened (RegVal.held ⟨a, rootCap cperms⟩) (RegVal.held ⟨b, rootCap cperms⟩) := by
  obtain ⟨-, hbase, htop⟩ := rootCap_spec cperms a
  obtain ⟨-, hbase', htop'⟩ := rootCap_spec cperms b
  refine ⟨rfl, ⟨?_, ?_, Perms.le_refl _⟩, fun h => absurd h Bool.false_ne_true⟩
  · exact Nat.le_of_eq (hbase'.trans hbase.symm)
  · exact Nat.le_of_eq (htop.trans htop'.symm)

/-! ### Loads and stores -/

/-- A word with a tag is fixed by the tag and the word. -/
theorem eq_of_tagged {x y : BitVec 33} (h : x.setWidth 32 = y.setWidth 32)
    (htag : x.getLsbD 32 = y.getLsbD 32) : x = y := by
  refine BitVec.eq_of_getLsbD_eq fun k hk => ?_
  by_cases hlt : k < 32
  · have := congrArg (fun v => v.getLsbD k) h
    simpa [BitVec.getLsbD_setWidth, hlt] using this
  · rw [show k = 32 by omega]
    exact htag

/-- What a capability store leaves in memory loads as a capability with proper bounds. -/
theorem loaded_good_of_stored {v : RegVal} (hgood : v.Good) (hv : v.cap.valid = true) {rsp : BusRsp}
    (hlo : rsp.lo.setWidth 32 = v.data) (hhi : rsp.hi.setWidth 32 = (capToMem v.cap).setWidth 32) :
    (rsp.loaded default).Good := by
  intro hload
  have htag : rsp.hi.getLsbD 32 = true :=
    (Bool.and_eq_true_iff.mp (Bool.and_eq_true_iff.mp hload).1).1
  have heq : rsp.hi = capToMem v.cap := by
    refine eq_of_tagged hhi ?_
    rw [htag, getLsbD_capToMem, hv]
  have hwf := hgood hv
  rw [← hlo] at hwf
  refine hwf.congr ?_
  simp only [BusRsp.loaded, heq]
  exact bounds_memToCap_capToMem hwf.coherent

namespace Core

variable {s : Core}

/-- The special capability register that an instruction reads is a source, if it exists. -/
theorem readScr_mem_sources {addr : BitVec 5} (e : Event)
    (hv : (s.readScr addr).cap.valid = true) : (s.readScr addr).held ∈ s.sources e := by
  rw [readScr] at hv ⊢
  split_ifs at hv ⊢
  · simp [sources]
  · simp [sources]
  · simp [sources]
  · simp [sources]
  · exact absurd hv (by decide)

section Inv

variable (hs : s.Inv)
include hs

theorem readReg_good (k : BitVec 4) : (s.readReg k).Good := fun hv => (hs.held_ok (.reg k) hv).1

theorem mtcc_good : s.mtcc.Good := fun hv => (hs.held_ok .mtcc hv).1

theorem mepcc_good : s.mepcc.Good := fun hv => (hs.held_ok .mepcc hv).1

theorem pcc_good : ExIn.PccGood s.pcc := fun hv =>
  ⟨(hs.held_ok .pcc hv).1, (hs.held_ok .pcc hv).2 rfl⟩

theorem readScr_good (addr : BitVec 5) : (s.readScr addr).Good := by
  rw [readScr]
  split_ifs
  · exact mtcc_good hs
  · exact fun hv => (hs.held_ok .mtdc hv).1
  · exact fun hv => (hs.held_ok .mscratchc hv).1
  · exact mepcc_good hs
  · exact fun hv => absurd hv (by decide)

/-! ### What an instruction writes -/

/-- The destination register of a capability instruction. -/
theorem regWrite_derived {instr : CapInstr} {rsp : BusRsp} {v : RegVal}
    (hmem : s.ReturnsLastStored (.cheriot instr rsp)) (hw : s.regWrite instr rsp = some v)
    (hv : v.cap.valid = true) :
    v.Good ∧ ∃ src ∈ s.sources (.cheriot instr rsp),
      DerivedFrom ((s.exIn instr).Unseals src) v.held src := by
  simp only [regWrite] at hw
  by_cases hop : instr.op = .cloadCap
  · rw [if_pos hop] at hw
    split at hw
    · cases hw
    · obtain rfl := Option.some.inj hw
      -- a tagged load had both words tagged, so memory returned what was last stored
      have htags := Bool.and_eq_true_iff.mp (Bool.and_eq_true_iff.mp hv).1
      have hgood := hs.mem _ _ _ (hmem hop htags.2 htags.1) rsp rfl rfl
      have hload : _ ∧ DerivedFrom ((s.exIn instr).Unseals (rsp.loaded default).held) _ _ :=
        memToCap_derived hgood hv
      refine ⟨hload.1, (rsp.loaded default).held, ?_, hload.2⟩
      simp [sources, hop]
  · rw [if_neg hop] at hw
    split at hw
    · obtain rfl := Option.some.inj hw
      obtain ⟨h, src, hsrc, hd⟩ := ExIn.result_derived (readReg_good hs instr.raddrA) (pcc_good hs)
        (readScr_good hs instr.cs2Dec) hv
      refine ⟨h, src, ?_, hd⟩
      simp only [List.mem_cons, List.not_mem_nil, or_false] at hsrc
      rcases hsrc with rfl | rfl | rfl
      · simp [sources]
      · simp [sources, exIn]
      · exact readScr_mem_sources _ hd.tagged
    · cases hw

/-- The special capability register of a capability instruction. -/
theorem scrWrite_derived {instr : CapInstr} {scr : BitVec 5} {v : RegVal}
    (hw : s.scrWrite instr scr = some v) (hv : v.cap.valid = true) {opened : Prop} :
    v.Good ∧ DerivedFrom opened v.held (s.exIn instr).cs1.held ∧
      (scr = scrMtcc ∨ scr = scrMepcc → isSealed v.full = false) := by
  simp only [scrWrite] at hw
  split at hw
  case isFalse => cases hw
  case isTrue hen =>
    obtain rfl := Option.some.inj hw
    rw [Bool.and_eq_true, beq_iff_eq] at hen
    obtain ⟨hop, rfl⟩ := hen
    have hccsr : (s.exIn instr).op = .ccsrRw := by
      rw [ExIn.csrOpEn, Bool.and_eq_true, Bool.and_eq_true, beq_iff_eq] at hop
      exact hop.1.1
    obtain ⟨h, hd, hun⟩ := ExIn.csrWrite_derived hccsr (readReg_good hs instr.raddrA) hv
    refine ⟨h, hd, fun hscr => hun ?_⟩
    rw [ExIn.scrLegalization, Bool.or_eq_true, beq_iff_eq, beq_iff_eq]
    exact hscr

end Inv

/-- What is written to MTCC has its two low address bits clear already. -/
theorem scrWrite_mtcc {instr : CapInstr} {v : RegVal} (hw : s.scrWrite instr scrMtcc = some v) :
    (⟨v.data.extractLsb' 2 30 ++ (0 : BitVec 2), v.cap⟩ : RegVal) = v := by
  simp only [scrWrite] at hw
  split at hw
  case isFalse => cases hw
  case isTrue hen =>
    obtain rfl := Option.some.inj hw
    have hscr : (s.exIn instr).cs2Dec = scrMtcc := by
      rw [Bool.and_eq_true, beq_iff_eq] at hen
      exact hen.2
    rw [ExIn.csrWrite, if_pos hscr, ExIn.csrWdata, if_pos hscr, BitVec.extractLsb'_append_eq_left]

/-! ### One step -/

/-- What a step guarantees of a place. -/
def StepOk (s : Core) (e : Event) (l : Loc) : Prop :=
  l.Ok ((s.step e).held l) ∧ (((s.step e).held l).cap.valid = true → s.Provenance e l)

theorem stepOk_of_eq (hs : s.Inv) {e : Event} {l : Loc} (h : (s.step e).held l = s.held l) :
    s.StepOk e l := ⟨h ▸ hs.held_ok l, fun _ => .inl h⟩

theorem stepOk_of_untagged {e : Event} {l : Loc} (h : ((s.step e).held l).cap.valid = false) :
    s.StepOk e l :=
  ⟨fun hv => absurd (h.symm.trans hv) Bool.false_ne_true,
    fun hv => absurd (h.symm.trans hv) Bool.false_ne_true⟩

/-- A place that takes a value derived from a source. -/
theorem stepOk_of_derived {e : Event} {l : Loc} {h : Held} (heq : (s.step e).held l = h)
    (hd : h.cap.valid = true → (h.Sound ∧ (l.jumpTarget = true → isSealed h.cap = false)) ∧
      ∃ src ∈ s.sources e, DerivedFrom (s.Opens e l src) h src) : s.StepOk e l := by
  subst heq
  exact ⟨fun hv => (hd hv).1, fun hv => .inr (hd hv).2⟩

theorem stepOk_integer (hs : s.Inv) (waddr : BitVec 5) (wdata : Word) (l : Loc) :
    s.StepOk (.integer waddr wdata) l := by
  cases l with
  | reg k =>
    cases hen : s.enable with
    | false =>
      refine stepOk_of_untagged ?_
      simp only [step, held, readReg, hen]
      exact RegFile.valid_read_rv32 _ _
    | true =>
      have hread := s.rf.read_write k waddr (.ofData wdata)
      by_cases hk : k = waddr.setWidth 4 ∧ waddr.getLsbD 4 = false ∧ k ≠ 0
      · rw [if_pos hk] at hread
        refine stepOk_of_untagged ?_
        simp only [step, held, readReg, hen, hread]
        rfl
      · rw [if_neg hk] at hread
        refine stepOk_of_eq hs ?_
        simp only [step, held, readReg, hen, hread]
  | mtcc | mtdc | mscratchc | mepcc | mstackEpc | pcc => exact stepOk_of_eq hs rfl

/-- In RV32I mode the address of a root moves. -/
theorem stepOk_moveRoot {e : Event} {l : Loc} {r : RegVal} {cperms : BitVec 6} (a : Word)
    (hr : r.cap = rootCap cperms) (hsrc : r.held ∈ s.sources e)
    (heq : (s.step e).held l = RegVal.held ⟨a, r.cap⟩) : s.StepOk e l := by
  obtain ⟨b, c⟩ := r
  obtain rfl : c = rootCap cperms := hr
  refine stepOk_of_derived heq fun _ => ⟨⟨(rootCap_spec cperms a).1, fun _ => rfl⟩, ?_⟩
  exact ⟨_, hsrc, rootCap_derived cperms a b⟩

theorem stepOk_csrMtvec (hs : s.Inv) (wdata : Word) (l : Loc) : s.StepOk (.csrMtvec wdata) l := by
  cases hen : s.enable with
  | true =>
    refine stepOk_of_eq hs ?_
    simp [step, hen]
  | false =>
    by_cases hl : l = .mtcc
    · subst hl
      refine stepOk_moveRoot (wdata.extractLsb' 8 24 ++ (1 : BitVec 8)) (hs.roots hen).1
        (by simp [sources]) ?_
      simp only [step, hen, held]
      rfl
    · refine stepOk_of_eq hs ?_
      cases l <;> simp_all [step, held, readReg]

theorem stepOk_csrMepc (hs : s.Inv) (wdata : Word) (l : Loc) : s.StepOk (.csrMepc wdata) l := by
  cases hen : s.enable with
  | true =>
    refine stepOk_of_eq hs ?_
    simp [step, hen]
  | false =>
    by_cases hl : l = .mepcc
    · subst hl
      refine stepOk_moveRoot (wdata.extractLsb' 1 31 ++ (0 : BitVec 1)) (hs.roots hen).2
        (by simp [sources]) ?_
      simp only [step, hen, held]
      rfl
    · refine stepOk_of_eq hs ?_
      cases l <;> simp_all [step, held, readReg]

/-- The PCC after a trap or a return. -/
theorem stepOk_jump {e : Event} {r : RegVal} (hr : r.Good)
    (hun : r.cap.valid = true → isSealed r.full = false) (hsrc : r.held ∈ s.sources e)
    (heq : (s.step e).held .pcc = r.full.heldPcc) : s.StepOk e .pcc := by
  refine stepOk_of_derived heq fun hv => ⟨⟨hr.sound hv, fun _ => hun hv⟩, r.held, hsrc, hv,
    ⟨Nat.le_refl _, Nat.le_refl _, Perms.le_refl _⟩, ?_⟩
  exact fun h => absurd ((hun hv).symm.trans h) Bool.false_ne_true

theorem stepOk_trap (hs : s.Inv) (pc : Word) (clrtag : Bool) (l : Loc) :
    s.StepOk (.trap pc clrtag) l := by
  cases l with
  | reg k | mtcc | mtdc | mscratchc => exact stepOk_of_eq hs rfl
  | mstackEpc =>
    refine stepOk_of_derived rfl fun hv =>
      ⟨hs.held_ok .mepcc hv, s.mepcc.held, by simp [sources], ?_⟩
    exact .refl hv
  | mepcc =>
    cases hen : s.enable with
    | false =>
      exact stepOk_moveRoot pc (hs.roots hen).2 (by simp [sources]) (by simp [step, hen, held])
    | true =>
      have heq : (s.step (.trap pc clrtag)).held .mepcc =
          RegVal.held ⟨pc, pccToMepc s.pcc pc clrtag⟩ := by simp [step, hen, held]
      refine stepOk_of_derived heq fun hv => ?_
      have hset : (setAddress s.pcc pc).valid = true := (Bool.and_eq_true_iff.mp hv).1
      have hval := ExIn.valid_of_setAddress hset
      obtain ⟨hsound, hun⟩ := pcc_good hs hval
      have hd : (RegVal.mk pc (pccToMepc s.pcc pc clrtag)).Good ∧ DerivedFrom
          (s.Opens (.trap pc clrtag) .mepcc s.pcc.heldPcc) _ s.pcc.heldPcc :=
        ExIn.setAddress_derived s.pcc.heldPcc (fun _ => hsound) hun hset hval rfl rfl
      exact ⟨⟨hd.1 hv, fun _ => hun⟩, _, by simp [sources], hd.2⟩
  | pcc =>
    cases hen : s.enable with
    | false =>
      refine stepOk_of_eq hs ?_
      simp [step, hen, held]
    | true =>
      exact stepOk_jump (mtcc_good hs) (fun hv => (hs.held_ok .mtcc hv).2 rfl) (by simp [sources])
        (by simp [step, hen, held])

theorem stepOk_mret (hs : s.Inv) (nmiMode : Bool) (l : Loc) : s.StepOk (.mret nmiMode) l := by
  cases l with
  | reg k | mtcc | mtdc | mscratchc | mstackEpc => exact stepOk_of_eq hs rfl
  | mepcc =>
    cases nmiMode with
    | false => exact stepOk_of_eq hs rfl
    | true =>
      cases hen : s.enable with
      | false =>
        exact stepOk_moveRoot s.mstackEpc.data (hs.roots hen).2 (by simp [sources])
          (by simp [step, hen, held])
      | true =>
        have heq : (s.step (.mret true)).held .mepcc = s.mstackEpc.held := by simp [step, hen, held]
        refine stepOk_of_derived heq fun hv => ?_
        exact ⟨hs.held_ok .mstackEpc hv, s.mstackEpc.held, by simp [sources], .refl hv⟩
  | pcc =>
    cases hen : s.enable with
    | false =>
      refine stepOk_of_eq hs ?_
      simp [step, hen, held]
    | true =>
      exact stepOk_jump (mepcc_good hs) (fun hv => (hs.held_ok .mepcc hv).2 rfl) (by simp [sources])
        (by simp [step, hen, held])

/-- The switch makes no capability: no shared entry has the bit of the tag set. -/
theorem stepOk_cheriotEnable (hs : s.Inv) (l : Loc) : s.StepOk .cheriotEnable l := by
  cases l with
  | reg k =>
    cases hen : s.enable with
    | false =>
      refine stepOk_of_untagged ?_
      simp only [step, held, readReg]
      rw [RegFile.read_cheriot]
      split
      · rfl
      · exact hs.shared hen k
    | true =>
      refine stepOk_of_eq hs ?_
      simp [step, held, readReg, hen]
  | mtcc | mtdc | mscratchc | mepcc | mstackEpc | pcc => exact stepOk_of_eq hs rfl

/-- A register after a capability instruction that writes one. -/
theorem readReg_execCheriot (hen : s.enable = true) {instr : CapInstr} {rsp : BusRsp} {v : RegVal}
    (hw : s.regWrite instr rsp = some v) (k : BitVec 4) :
    (s.execCheriot instr rsp).readReg k = if k = instr.waddr ∧ k ≠ 0 then v else s.readReg k := by
  simp only [execCheriot, readReg, hw, hen]
  rw [RegFile.read_write, RegFile.setWidth_regNumber, RegFile.getLsbD_regNumber]
  simp

/-- A special capability register other than MTCC after a capability instruction. -/
theorem stepOk_scr (hs : s.Inv) {instr : CapInstr} {rsp : BusRsp} {l : Loc} {scr : BitVec 5}
    {r : RegVal} (hr : s.held l = r.held)
    (hjump : l.jumpTarget = true → scr = scrMtcc ∨ scr = scrMepcc)
    (heq : (s.step (.cheriot instr rsp)).held l = ((s.scrWrite instr scr).getD r).held) :
    s.StepOk (.cheriot instr rsp) l := by
  cases hw : s.scrWrite instr scr with
  | none =>
    rw [hw] at heq
    exact stepOk_of_eq hs (heq.trans hr.symm)
  | some v =>
    rw [hw] at heq
    refine stepOk_of_derived heq fun hv => ?_
    obtain ⟨hgood, hd, hun⟩ := scrWrite_derived hs hw hv
    exact ⟨⟨hgood hv, fun hl => hun (hjump hl)⟩, _, by simp [sources], hd⟩

theorem stepOk_cheriot (hs : s.Inv) {instr : CapInstr} {rsp : BusRsp}
    (hmem : s.ReturnsLastStored (.cheriot instr rsp)) (l : Loc) :
    s.StepOk (.cheriot instr rsp) l := by
  cases hen : s.enable with
  | false =>
    refine stepOk_of_eq hs ?_
    simp [step, hen]
  | true =>
    have hstep : s.step (.cheriot instr rsp) = s.execCheriot instr rsp := by simp [step, hen]
    cases l with
    | reg k =>
      cases hw : s.regWrite instr rsp with
      | none =>
        refine stepOk_of_eq hs ?_
        rw [hstep, held, held]
        simp only [execCheriot, readReg, hw]
      | some v =>
        have hread := readReg_execCheriot hen hw k
        by_cases hk : k = instr.waddr ∧ k ≠ 0
        · have heq : (s.step (.cheriot instr rsp)).held (.reg k) = v.held := by
            rw [hstep, held, hread, if_pos hk]
          refine stepOk_of_derived heq fun hv => ?_
          obtain ⟨hgood, src, hsrc, hd⟩ := regWrite_derived hs hmem hw hv
          exact ⟨⟨hgood hv, fun h => absurd h Bool.false_ne_true⟩, src, hsrc,
            hd.mono fun h => ⟨instr, rsp, rfl, .inl h⟩⟩
        · refine stepOk_of_eq hs ?_
          rw [hstep, held, hread, if_neg hk, held]
    | mtcc =>
      refine stepOk_scr hs (r := s.mtcc) rfl (fun _ => .inl rfl) ?_
      rw [hstep, held, execCheriot]
      cases hw : s.scrWrite instr scrMtcc with
      | none => rfl
      | some v => exact congrArg RegVal.held (scrWrite_mtcc hw)
    | mtdc =>
      exact stepOk_scr hs (r := s.mtdc) rfl (fun h => absurd h (by decide)) (by rw [hstep]; rfl)
    | mscratchc =>
      exact stepOk_scr hs (r := s.mscratchc) rfl (fun h => absurd h (by decide))
        (by rw [hstep]; rfl)
    | mepcc => exact stepOk_scr hs (r := s.mepcc) rfl (fun _ => .inr rfl) (by rw [hstep]; rfl)
    | mstackEpc => exact stepOk_of_eq hs (by rw [hstep]; rfl)
    | pcc =>
      by_cases hb : (s.exIn instr).branchReq = true
      · have heq : (s.step (.cheriot instr rsp)).held .pcc = (s.exIn instr).pccCap.heldPcc := by
          rw [hstep, held, execCheriot]
          exact congrArg DecodedCap.heldPcc (if_pos hb)
        refine stepOk_of_derived heq fun hv => ?_
        obtain ⟨hgood, hd⟩ := ExIn.pccCap_derived (readReg_good hs instr.raddrA) hb
        have hop : instr.op = .cjalr := by
          rw [ExIn.branchReq, Bool.and_eq_true, beq_iff_eq] at hb
          exact hb.1
        refine ⟨⟨(hgood hv).1, fun _ => (hgood hv).2⟩, (s.exIn instr).cs1.held, by simp [sources],
          ?_⟩
        exact hd.mono fun h => ⟨instr, rsp, rfl, .inr ⟨rfl, hop, rfl, h⟩⟩
      · refine stepOk_of_eq hs ?_
        rw [hstep, held, execCheriot]
        exact congrArg DecodedCap.heldPcc (if_neg hb)

/-- **One step**: every place keeps what it has or takes something derived from one source. -/
theorem stepOk (hs : s.Inv) {e : Event} (hmem : s.ReturnsLastStored e) (l : Loc) :
    s.StepOk e l := by
  cases e with
  | integer waddr wdata => exact stepOk_integer hs waddr wdata l
  | csrMtvec wdata => exact stepOk_csrMtvec hs wdata l
  | csrMepc wdata => exact stepOk_csrMepc hs wdata l
  | cheriot instr rsp => exact stepOk_cheriot hs hmem l
  | trap pc clrtag => exact stepOk_trap hs pc clrtag l
  | mret nmiMode => exact stepOk_mret hs nmiMode l
  | cheriotEnable => exact stepOk_cheriotEnable hs l
  | dataWrite granule => exact stepOk_of_eq hs (by cases l <;> rfl)

/-! ### Runs -/

theorem inv_init : init.Inv where
  held_ok := by
    have hroot : ∀ l : Loc, ∀ (a : Word) (cperms : BitVec 6),
        l.Ok (RegVal.held ⟨a, rootCap cperms⟩) :=
      fun l a cperms _ => ⟨(rootCap_spec cperms a).1, fun _ => rfl⟩
    intro l
    cases l with
    | reg k =>
      intro hv
      exact absurd ((RegFile.valid_read_rv32 _ _).symm.trans hv) Bool.false_ne_true
    | mtcc | mtdc | mscratchc | mepcc => exact hroot _ _ _
    | mstackEpc => exact fun hv => absurd hv Bool.false_ne_true
    | pcc =>
      intro _
      refine ⟨⟨0, (rootCap_spec cpermsTx 0).1, ?_⟩, fun _ => rfl⟩
      decide
  shared := by
    intro _ k
    exact BitVec.getLsbD_zero
  roots := fun _ => ⟨rfl, rfl⟩
  mem := by
    intro g lo hi h
    cases h

/-- The mode bit is never cleared. -/
theorem enable_of_step {e : Event} (h : (s.step e).enable = false) : s.enable = false := by
  cases hen : s.enable with
  | false => rfl
  | true => cases e <;> simp [step, execCheriot, hen] at h

theorem step_shared (hs : s.enable = false → ∀ k, (s.rf.shared k).getLsbD 32 = false) {e : Event}
    (h : (s.step e).enable = false) (k : BitVec 4) :
    ((s.step e).rf.shared k).getLsbD 32 = false := by
  have hen := enable_of_step h
  have hold := hs hen k
  cases e with
  | integer waddr wdata =>
    simp only [step, hen]
    exact RegFile.tag_write_rv32 _ (hs hen) _ _ _
  | csrMtvec | csrMepc | cheriot =>
    simp only [step, hen]
    exact hold
  | trap | mret | dataWrite => exact hold
  | cheriotEnable => cases h

theorem step_roots (hs : s.enable = false → s.mtcc.cap = rootCapTx ∧ s.mepcc.cap = rootCapTx)
    {e : Event} (h : (s.step e).enable = false) :
    (s.step e).mtcc.cap = rootCapTx ∧ (s.step e).mepcc.cap = rootCapTx := by
  have hen := enable_of_step h
  have hold := hs hen
  cases e with
  | integer | dataWrite => exact hold
  | csrMtvec | csrMepc | cheriot | trap =>
    simp only [step, hen]
    exact hold
  | mret nmiMode =>
    simp only [step, hen]
    cases nmiMode
    · exact hold
    · exact hold
  | cheriotEnable => cases h

theorem step_mem (hs : s.Inv) {e : Event} {g : BitVec 29} {lo hi : Word}
    (h : (s.step e).mem g = some (lo, hi)) {rsp : BusRsp} (hlo : rsp.lo.setWidth 32 = lo)
    (hhi : rsp.hi.setWidth 32 = hi) : (rsp.loaded default).Good := by
  have hold : s.mem g = some (lo, hi) → (rsp.loaded default).Good := fun h =>
    hs.mem g lo hi h rsp hlo hhi
  cases e with
  | integer | trap | mret | cheriotEnable => exact hold h
  | csrMtvec | csrMepc =>
    simp only [step] at h
    split at h
    · exact hold h
    · exact hold h
  | dataWrite granule =>
    simp only [step] at h
    split at h
    · cases h
    · exact hold h
  | cheriot instr rsp' =>
    simp only [step] at h
    split at h
    · simp only [execCheriot] at h
      split at h
      · split at h
        case isTrue hv =>
          -- the granule holds what this instruction stored
          simp only [Option.some.injEq, Prod.mk.injEq] at h
          obtain ⟨rfl, rfl⟩ := h
          have hcs2 : (s.exIn instr).cs2.Good := readReg_good hs instr.raddrB
          have hval : (s.exIn instr).cs2.cap.valid = true := (Bool.and_eq_true_iff.mp hv).1
          have hgood : (RegVal.mk (s.exIn instr).cs2.data (s.exIn instr).cscWcap).Good :=
            fun _ => (hcs2 hval).congr rfl
          exact loaded_good_of_stored hgood hv hlo hhi
        case isFalse => cases h
      · exact hold h
    · exact hold h

/-- **The invariant holds throughout a run** in which memory returns what was stored. -/
theorem inv_stateAt {ins : ℕ → Event}
    (hmem : ∀ t, (machine.stateAt ins t).ReturnsLastStored (ins t))
    (t : ℕ) : (machine.stateAt ins t).Inv := by
  refine Machine.stateAt_inv inv_init (fun s e hs he => ?_) hmem t
  exact
    { held_ok := fun l => (stepOk hs he l).1
      shared := fun h k => step_shared hs.shared h k
      roots := fun h => step_roots hs.roots h
      mem := fun _ _ _ h _ hlo hhi => step_mem hs h hlo hhi }

/-- **Provenance and monotonicity, from reset.** Over any run, with any RV32I phase before the
switch, whatever is tagged in a register, in a special capability register or in the PCC after a
step was there before the step, or is derived from one tagged source. The bounds lie inside the
bounds of the source, the permissions are among its permissions, and a sealed source stays as it is,
up to the loss of GL, unless it is opened by `CUNSEAL` under a tagged, unsealed authority with US or
becomes the PCC by a jump through a sentry. -/
theorem provenance {ins : ℕ → Event} (hmem : ∀ t, (machine.stateAt ins t).ReturnsLastStored (ins t))
    (t : ℕ) (l : Loc) (hv : ((machine.stateAt ins (t + 1)).held l).cap.valid = true) :
    (machine.stateAt ins (t + 1)).held l = (machine.stateAt ins t).held l ∨
      ∃ src ∈ (machine.stateAt ins t).sources (ins t),
        DerivedFrom ((machine.stateAt ins t).Opens (ins t) l src)
          ((machine.stateAt ins (t + 1)).held l) src :=
  (stepOk (inv_stateAt hmem t) (hmem t) l).2 hv

/-- A run that leaves a word in `x17`, switches the mode and reads MTDC, the memory root, into
`x1`. -/
def readMtdc : ℕ → Event
  | 0 => .integer 17 0xffffffff
  | 1 => .cheriotEnable
  | 2 => .cheriot { (default : CapInstr) with op := .ccsrRw, waddr := 1, cs2Dec := scrMtdc } default
  | _ => .dataWrite 0

theorem provenance_readMtdc :
    ((machine.stateAt readMtdc 3).held (.reg 1)).cap.valid = true ∧
      ∃ src ∈ (machine.stateAt readMtdc 2).sources (readMtdc 2),
        DerivedFrom ((machine.stateAt readMtdc 2).Opens (readMtdc 2) (.reg 1) src)
          ((machine.stateAt readMtdc 3).held (.reg 1)) src := by
  have hmem : ∀ t, (machine.stateAt readMtdc t).ReturnsLastStored (readMtdc t)
    | 0 | 1 | _ + 3 => trivial
    | 2 => fun h => by cases h
  have hv : ((machine.stateAt readMtdc 3).held (.reg 1)).cap.valid = true := by decide
  have hold : ((machine.stateAt readMtdc 2).held (.reg 1)).cap.valid = false := by decide
  refine ⟨hv, (provenance hmem 2 (.reg 1) hv).resolve_left fun h => ?_⟩
  rw [h, hold] at hv
  exact Bool.false_ne_true hv

end Core

end Cheriot

end Croc
