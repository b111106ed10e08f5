import Croc.Cheriot.Derivation

/-!
# Deep immutability and deep locality

LM and LG are permissions about what can be reached through a capability. A capability loaded
through an authority without LM loses SD and LM, one loaded through an authority without LG loses GL
and LG. Since what is lost includes the permission that decides about the next load, the effect is
transitive: along a chain of loads of any length nothing becomes writable, or global, again. Sealed
capabilities keep SD, LM and LG while they are sealed, but they are no authority for a load.

Nothing is assumed about memory: every load may return any two words with any tags.

## Main definitions

* `Derivable`: what the instructions that move, narrow or restrict make of a capability.
* `Loaded`: what a chain of loads can reach from a starting capability.

## Main results

* `perms_le_of_derivable`: derivation adds no permission and keeps the type.
* `deepImmutable`, `deepLocal`: one link of the chain.
* `deep_permissions`: every chain.
-/

namespace Croc

namespace Cheriot

/-- The operators along a chain: `CMove`, `CIncAddr`, `CSetAddr`, `CSetBounds` with their variants,
and `CAndPerm`. -/
def CheriotOp.derives : CheriotOp → Bool
  | .cmoveCap | .cincAddr | .cincAddrImm | .csetAddr => true
  | .csetBounds | .csetBoundsImm | .csetBoundsEx | .csetBoundsRndn => true
  | .candPerm => true
  | _ => false

/-- What instructions outside debug mode derive from the register `c`. -/
inductive Derivable (c : RegVal) : RegVal → Prop
  /-- The capability itself. -/
  | refl : Derivable c c
  /-- One more instruction. -/
  | step {i : ExIn} (h : Derivable c i.cs1) (hop : i.op.derives = true) (hdbg : i.debugMode = false)
      (hwe : i.rfWe = true) : Derivable c i.result

/-- A capability load outside debug mode that passes its checks. -/
structure IsLoad (i : ExIn) : Prop where
  /-- The instruction is `CLC`. -/
  op : i.op = .cloadCap
  /-- The core is in CHERIoT mode. -/
  enable : i.enable = true
  /-- The core is not in debug mode. -/
  debugMode : i.debugMode = false
  /-- The authority passes the checks. -/
  ok : i.cheriotLsuErr = false

/-- The register that the load `i` fills from an address word `lo` and a metadata word `hi`. -/
def loadResult (i : ExIn) (hi lo : BitVec 33) : RegVal :=
  ⟨lo.setWidth 32, memToCap hi lo i.lcClrperm⟩

/-- What a chain of loads reaches from `start`, whatever the memory holds. -/
inductive Loaded (start : RegVal) : RegVal → Prop
  /-- The first load. -/
  | first {i : ExIn} (h : Derivable start i.cs1) (hi : IsLoad i) (hi lo : BitVec 33) :
      Loaded start (loadResult i hi lo)
  /-- A load through something derived from the previous one. -/
  | next {c : RegVal} {i : ExIn} (hc : Loaded start c) (h : Derivable c i.cs1) (hi : IsLoad i)
      (hi lo : BitVec 33) : Loaded start (loadResult i hi lo)

/-! ### Derivation -/

/-- An instruction of the chain adds no permission and no tag, and does not change the type. -/
theorem ExIn.derives_spec {i : ExIn} (hop : i.op.derives = true) :
    i.result.full.perms ≤ i.cs1.full.perms ∧ i.result.cap.otype = i.cs1.cap.otype ∧
      (i.result.cap.valid = true → i.cs1.cap.valid = true) := by
  match h : i.op with
  | .cmoveCap =>
    have hr : i.result = i.cs1 := by rw [result, h]
    rw [hr]
    exact ⟨Perms.le_refl _, rfl, id⟩
  | .candPerm =>
    have hr : i.result = ⟨i.cs1.data, i.andPermCap⟩ := by rw [result, h]
    rw [hr]
    refine ⟨Perms.le_trans (expandPerms_compressPerms_le _) (Perms.ofBits_and_le _ _), rfl, ?_⟩
    exact fun hv => (Bool.and_eq_true_iff.mp hv).1
  | .cincAddr | .cincAddrImm | .csetAddr =>
    have hr : i.result = ⟨i.addrResult, i.movedCap⟩ := by rw [result, h]
    have hout : i.setaddr1Outcap = setAddress i.fullcapA i.addrResult := by
      rw [setaddr1Outcap, h]
      rfl
    have hmoved : i.movedCap.cperms = i.cs1.cap.cperms ∧ i.movedCap.otype = i.cs1.cap.otype ∧
        (i.movedCap.valid = true → i.cs1.cap.valid = true) := by
      rw [movedCap, hout]
      refine ⟨rfl, rfl, fun hv => ?_⟩
      exact (Bool.and_eq_true_iff.mp (Bool.and_eq_true_iff.mp hv).1).1
    rw [hr]
    exact ⟨Perms.le_of_eq (congrArg expandPerms hmoved.1), hmoved.2⟩
  | .csetBounds | .csetBoundsImm | .csetBoundsEx | .csetBoundsRndn =>
    have hr : i.result = ⟨i.cs1.data, i.boundedCap⟩ := by rw [result, h]
    have hbounded : i.boundedCap.cperms = i.cs1.cap.cperms ∧ i.boundedCap.otype = i.cs1.cap.otype ∧
        (i.boundedCap.valid = true → i.cs1.cap.valid = true) := by
      rw [boundedCap, h, setboundsRndnOutcap, setboundsResult, setboundsOperands, h]
      refine ⟨rfl, rfl, fun hv => ?_⟩
      have hv' := (Bool.and_eq_true_iff.mp hv).1
      first
        | exact (Bool.and_eq_true_iff.mp hv').1
        | exact (Bool.and_eq_true_iff.mp (Bool.and_eq_true_iff.mp hv').1).1
    rw [hr]
    exact ⟨Perms.le_of_eq (congrArg expandPerms hbounded.1), hbounded.2⟩
  | .cgetField _ | .cseal | .cunseal | .csetHigh | .cauipcc | .cauicgp | .crrl | .cram | .cclearTag
  | .cisSubset | .cisEqual | .csubCap | .cloadCap | .cstoreCap | .ccsrRw | .cjalr | .cjal =>
    rw [h] at hop
    exact absurd hop Bool.false_ne_true

/-- **Derivation** adds no permission and no tag, and keeps the type. -/
theorem perms_le_of_derivable {c d : RegVal} (h : Derivable c d) :
    d.full.perms ≤ c.full.perms ∧ d.cap.otype = c.cap.otype ∧
      (d.cap.valid = true → c.cap.valid = true) := by
  induction h with
  | refl => exact ⟨Perms.le_refl _, rfl, id⟩
  | step _ hop _ _ ih =>
    obtain ⟨hp, ho, hv⟩ := ExIn.derives_spec hop
    exact ⟨Perms.le_trans hp ih.1, ho.trans ih.2.1, fun h => ih.2.2 (hv h)⟩

/-! ### One load -/

/-- The authority of a load is tagged and not sealed. -/
theorem IsLoad.authority {i : ExIn} (h : IsLoad i) :
    i.cs1.cap.valid = true ∧ isSealed i.cs1.full = false := by
  have hok := h.ok
  simp only [ExIn.cheriotLsuErr, h.enable, h.debugMode, Bool.not_false, Bool.true_and,
    Bool.or_eq_false_iff] at hok
  have hp := hok.1.2
  simp only [ExIn.permVio, ExIn.permVioVec, h.op, ExIn.PermVio.any, Bool.or_eq_false_iff,
    Bool.not_eq_false'] at hp
  exact ⟨by tauto, by tauto⟩

/-- The clearing rules of a load are decided by its authority. -/
theorem IsLoad.lcClrperm_eq {i : ExIn} (h : IsLoad i) : i.lcClrperm =
    ⟨!i.cs1.full.perms.mc, !i.cs1.full.perms.lm, !i.cs1.full.perms.lg⟩ := by
  rw [ExIn.lcClrperm, h.debugMode, h.op]
  rfl

/-- A tagged capability without SD and LM, unless it is sealed. -/
def Immutable (r : RegVal) : Prop :=
  r.cap.valid = true → isSealed r.full = false → r.full.perms.sd = false ∧ r.full.perms.lm = false

/-- A tagged capability without GL, and without LG unless it is sealed. -/
def Local (r : RegVal) : Prop :=
  r.cap.valid = true → r.full.perms.gl = false ∧ (isSealed r.full = false → r.full.perms.lg = false)

/-- **Deep immutability, one load.** -/
theorem deepImmutable {i : ExIn} (h : IsLoad i) (hlm : i.cs1.full.perms.lm = false)
    (hi lo : BitVec 33) : Immutable (loadResult i hi lo) := by
  intro hv hs
  have hclr : i.lcClrperm.sdLm = true := by rw [h.lcClrperm_eq, hlm]; rfl
  have hcap : (loadResult i hi lo).cap.cperms = maskLoadedCperms (hi.extractLsb' 25 6) i.lcClrperm
      (loadResult i hi lo).cap.valid (isSealed (loadResult i hi lo).full) := rfl
  change (expandPerms (loadResult i hi lo).cap.cperms).sd = false ∧
    (expandPerms (loadResult i hi lo).cap.cperms).lm = false
  rw [hcap, hv, hs]
  exact maskLoadedCperms_sdLm _ hclr

/-- **Deep locality, one load.** -/
theorem deepLocal {i : ExIn} (h : IsLoad i) (hlg : i.cs1.full.perms.lg = false)
    (hi lo : BitVec 33) : Local (loadResult i hi lo) := by
  intro hv
  have hclr : i.lcClrperm.glLg = true := by rw [h.lcClrperm_eq, hlg]; rfl
  have hcap : (loadResult i hi lo).cap.cperms = maskLoadedCperms (hi.extractLsb' 25 6) i.lcClrperm
      (loadResult i hi lo).cap.valid (isSealed (loadResult i hi lo).full) := rfl
  change (expandPerms (loadResult i hi lo).cap.cperms).gl = false ∧
    (isSealed (loadResult i hi lo).full = false →
      (expandPerms (loadResult i hi lo).cap.cperms).lg = false)
  rw [hcap, hv]
  exact maskLoadedCperms_glLg _ hclr _

/-- A smaller permission set lacks what the larger one lacks. -/
theorem eq_false_of_imp {x y : Bool} (h : x = true → y = true) (hy : y = false) : x = false := by
  cases x
  · rfl
  · exact absurd (hy.symm.trans (h rfl)) Bool.false_ne_true

theorem Immutable.derivable {c d : RegVal} (hc : Immutable c) (h : Derivable c d) :
    Immutable d := by
  obtain ⟨hp, ho, hval⟩ := perms_le_of_derivable h
  intro hv hs
  have hs' : isSealed c.full = false := by
    have hd : (d.cap.otype != otypeUnsealed) = false := hs
    rw [ho] at hd
    exact hd
  obtain ⟨hsd, hlm⟩ := hc (hval hv) hs'
  obtain ⟨-, -, -, -, -, -, -, -, plm, psd, -, -⟩ := hp
  exact ⟨eq_false_of_imp psd hsd, eq_false_of_imp plm hlm⟩

theorem Local.derivable {c d : RegVal} (hc : Local c) (h : Derivable c d) : Local d := by
  obtain ⟨hp, ho, hval⟩ := perms_le_of_derivable h
  intro hv
  obtain ⟨hgl, hlg⟩ := hc (hval hv)
  obtain ⟨-, -, -, -, -, -, -, -, -, -, plg, pgl⟩ := hp
  refine ⟨eq_false_of_imp pgl hgl, fun hs => eq_false_of_imp plg (hlg ?_)⟩
  have hd : (d.cap.otype != otypeUnsealed) = false := hs
  rw [ho] at hd
  exact hd

/-! ### Chains -/

theorem immutable_of_loaded {start c : RegVal} (hc : Loaded start c)
    (hlm : start.full.perms.lm = false) : Immutable c := by
  induction hc with
  | first h hload hi lo =>
    obtain ⟨-, -, -, -, -, -, -, -, plm, -⟩ := (perms_le_of_derivable h).1
    exact deepImmutable hload (eq_false_of_imp plm hlm) hi lo
  | next _ h hload hi lo ih =>
    obtain ⟨hv, hs⟩ := hload.authority
    exact deepImmutable hload (ih.derivable h hv hs).2 hi lo

theorem local_of_loaded {start c : RegVal} (hc : Loaded start c)
    (hlg : start.full.perms.lg = false) : Local c := by
  induction hc with
  | first h hload hi lo =>
    obtain ⟨-, -, -, -, -, -, -, -, -, -, plg, -⟩ := (perms_le_of_derivable h).1
    exact deepLocal hload (eq_false_of_imp plg hlg) hi lo
  | next _ h hload hi lo ih =>
    obtain ⟨hv, hs⟩ := hload.authority
    exact deepLocal hload ((ih.derivable h hv).2 hs) hi lo

/-- **Deep immutability and deep locality.** Let `c` be loaded by a chain that starts at `start`,
and `d` derived from `c`. If `start` lacks LM, then `d`, when tagged and unsealed, has neither SD
nor LM. If `start` lacks LG, then `d`, when tagged, lacks GL, and when unsealed also LG. -/
theorem deep_permissions {start c d : RegVal} (hc : Loaded start c) (hd : Derivable c d)
    (hv : d.cap.valid = true) :
    (start.full.perms.lm = false → isSealed d.full = false →
      d.full.perms.sd = false ∧ d.full.perms.lm = false) ∧
    (start.full.perms.lg = false →
      d.full.perms.gl = false ∧ (isSealed d.full = false → d.full.perms.lg = false)) :=
  ⟨fun hlm hs => (immutable_of_loaded hc hlm).derivable hd hv hs,
    fun hlg => (local_of_loaded hc hlg).derivable hd hv⟩

/-- A load through a capability that lacks LM and LG, from a granule that holds the memory root. -/
def localLoad : ExIn :=
  { (default : ExIn) with
    op := .cloadCap
    cs1 := ⟨0x10000000, rootCap 0b111100⟩
    enable := true }

/-- Moving what `localLoad` has loaded by one granule. -/
def localMove : ExIn :=
  { (default : ExIn) with
    op := .cincAddrImm
    cs1 := loadResult localLoad (capToMem rootCapTm) (BitVec.cons true 0x10001000)
    imm12 := 8
    enable := true }

/-- A load through what `localMove` gives, from a granule that holds the memory root as well. -/
def localLoadAgain : ExIn :=
  { (default : ExIn) with
    op := .cloadCap
    cs1 := localMove.result
    enable := true }

/-- Moving what `localLoadAgain` has loaded by one granule. -/
def localMoveAgain : ExIn :=
  { (default : ExIn) with
    op := .cincAddrImm
    cs1 := loadResult localLoadAgain (capToMem rootCapTm) (BitVec.cons true 0x10002000)
    imm12 := 8
    enable := true }

/-- The memory root has all four permissions; loaded at the end of a chain of two loads it has none
of them. -/
theorem deep_permissions_localMoveAgain :
    (expandPerms rootCapTm.cperms).sd = true ∧ (expandPerms rootCapTm.cperms).lm = true ∧
      (expandPerms rootCapTm.cperms).gl = true ∧ (expandPerms rootCapTm.cperms).lg = true ∧
      localMoveAgain.result.cap.valid = true ∧ localMoveAgain.result.full.perms.sd = false ∧
      localMoveAgain.result.full.perms.lm = false ∧ localMoveAgain.result.full.perms.gl = false ∧
      localMoveAgain.result.full.perms.lg = false := by
  have hload : IsLoad localLoad := ⟨rfl, rfl, rfl, by decide⟩
  have hagain : IsLoad localLoadAgain := ⟨rfl, rfl, rfl, by decide +kernel⟩
  have hmove : Derivable localMove.cs1 localMove.result :=
    .step .refl (by decide) rfl (by decide)
  have hmoveAgain : Derivable localMoveAgain.cs1 localMoveAgain.result :=
    .step .refl (by decide) rfl (by decide +kernel)
  have hv : localMoveAgain.result.cap.valid = true := by decide +kernel
  have hs : isSealed localMoveAgain.result.full = false := by decide +kernel
  have hfirst : Loaded localLoad.cs1 localMove.cs1 := .first .refl hload _ _
  have hsecond : Loaded localLoad.cs1 localMoveAgain.cs1 := .next hfirst hmove hagain _ _
  obtain ⟨hlm, hlg⟩ := deep_permissions hsecond hmoveAgain hv
  exact ⟨by decide, by decide, by decide, by decide, hv, (hlm (by decide) hs).1,
    (hlm (by decide) hs).2, (hlg (by decide)).1, (hlg (by decide)).2 hs⟩

end Cheriot

end Croc
