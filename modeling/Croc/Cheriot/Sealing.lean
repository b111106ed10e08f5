import Croc.Cheriot.Ex
import Croc.Cheriot.Permissions

/-!
# Sealing

A sealed capability cannot be used until it is unsealed by an authority for its type. There are two
name spaces of types, 1 to 7 for executable capabilities and 9 to 15 for the others. Only three bits
of the type are stored; the fourth is read off the EX permission. Unsealing moreover writes the
permissions back through the compressed format. That sealing can be undone rests on both: sealing
leaves EX alone, and permissions that came out of the compressed format go back into it unchanged.

## Main definitions

* `ExIn.csealOf`, `ExIn.cunsealOf`, `ExIn.cgetTypeOf`: the results of the instructions on given
  registers.
* `Cap.withGl`: a capability that stays global only if it may.

## Main results

* `cseal_valid_iff`, `cunseal_valid_iff`: when sealing and unsealing succeed.
* `compressPerms_expandPerms`: permissions survive compression.
* `sealing_exact_invertible`: both, and that unsealing undoes sealing.
-/

namespace Croc

namespace Cheriot

open Bits (Word)

namespace ExIn

variable (i : ExIn)

/-- The result of `CSEAL` on `c` with the authority `k`. -/
def csealOf (c k : RegVal) : RegVal := { i with op := .cseal, cs1 := c, cs2 := k }.result

/-- The result of `CUNSEAL` on `c` with the authority `k`. -/
def cunsealOf (c k : RegVal) : RegVal := { i with op := .cunseal, cs1 := c, cs2 := k }.result

/-- The type of `c` that `CGETTYPE` reports. -/
def cgetTypeOf (c : RegVal) : Word := { i with op := .cgetField .type, cs1 := c }.result.data

end ExIn

/-- A capability that stays global only if `gl` is set. -/
def Cap.withGl (c : Cap) (gl : Bool) : Cap :=
  { c with cperms := if gl then c.cperms else c.cperms &&& 0b011111 }

/-- Without GL a capability is not global, and has its other permissions. -/
theorem expandPerms_withGl (c : Cap) (gl : Bool) :
    expandPerms (c.withGl gl).cperms =
      { expandPerms c.cperms with gl := (expandPerms c.cperms).gl && gl } := by
  have h : ∀ (p : BitVec 6) (gl : Bool), expandPerms (if gl then p else p &&& 0b011111) =
      { expandPerms p with gl := (expandPerms p).gl && gl } := by decide +kernel
  exact h c.cperms gl

/-- **Permissions survive compression.** -/
theorem compressPerms_expandPerms (p : BitVec 6) (gl : Bool) :
    compressPerms { expandPerms p with gl := (expandPerms p).gl && gl } =
      if gl then p else p &&& 0b011111 := by
  revert p gl
  decide +kernel

/-! ### When sealing succeeds -/

section Checks

variable {i : ExIn}

/-- The bounds check of sealing: the type lies between the bounds of the authority. -/
theorem sealing_addrBoundVio_iff (hdebug : i.debugMode = false) {t : Word}
    (h : i.op = .cseal ∧ t = i.cs2.data ∨
      i.op = .cunseal ∧ t = (decodeOtype i.fullcapA.otype i.fullcapA.perms.ex).setWidth 32) :
    i.addrBoundVio = false ↔
      i.fullcapB.base32.toNat ≤ t.toNat ∧ t.toNat < i.fullcapB.top33.toNat := by
  have hdef : i.addrBoundVio = (decide (i.fullcapB.top33 < t.setWidth 33) ||
      decide (t < i.fullcapB.base32) || t.setWidth 33 == i.fullcapB.top33) := by
    rcases h with ⟨hop, rfl⟩ | ⟨hop, rfl⟩ <;> simp [ExIn.addrBoundVio, hop, hdebug, CheriotOp.isCap]
  have ht : (t.setWidth 33).toNat = t.toNat := by
    have := t.isLt
    rw [BitVec.toNat_setWidth]
    omega
  rw [hdef, Bool.or_eq_false_iff, Bool.or_eq_false_iff, decide_eq_false_iff_not,
    decide_eq_false_iff_not, beq_eq_false_iff_ne, ne_eq, BitVec.lt_def, BitVec.lt_def,
    ← BitVec.toNat_inj, ht]
  omega

/-- The types that `CSEAL` may give. -/
theorem chkCs2BadType_iff : i.chkCs2BadType = false ↔
    if i.fullcapA.perms.ex then 1 ≤ i.cs2.data.toNat ∧ i.cs2.data.toNat ≤ 7
    else 9 ≤ i.cs2.data.toNat ∧ i.cs2.data.toNat ≤ 15 := by
  have hlow : ∀ k, (i.cs2.data.extractLsb' 0 k).toNat = i.cs2.data.toNat % 2 ^ k := by
    intro k
    rw [BitVec.extractLsb'_toNat, Nat.shiftRight_zero]
  have hup3 := Bits.toNat_extractLsb'_upper i.cs2.data (k := 3) (n := 29) rfl
  have hup4 := Bits.toNat_extractLsb'_upper i.cs2.data (k := 4) (n := 28) rfl
  rw [ExIn.chkCs2BadType]
  split
  · rw [Bool.or_eq_false_iff, bne_eq_false_iff_eq, beq_eq_false_iff_ne, ne_eq, ← BitVec.toNat_inj,
      ← BitVec.toNat_inj, hup3, hlow, show (0 : BitVec 29).toNat = 0 from rfl,
      show (0 : BitVec 3).toNat = 0 from rfl]
    omega
  · rw [Bool.or_eq_false_iff, bne_eq_false_iff_eq, decide_eq_false_iff_not, BitVec.le_def,
      ← BitVec.toNat_inj, hup4, hlow, show (0 : BitVec 28).toNat = 0 from rfl,
      show (8 : BitVec 4).toNat = 8 from rfl]
    omega

end Checks

variable {i : ExIn} {c k s : RegVal}

/-- **When `CSEAL` succeeds.** -/
theorem cseal_valid_iff (hdebug : i.debugMode = false) :
    (i.csealOf c k).cap.valid = true ↔
      c.cap.valid = true ∧ k.cap.valid = true ∧ isSealed c.full = false ∧ isSealed k.full = false ∧
        k.full.perms.se = true ∧
        (k.full.base32.toNat ≤ k.data.toNat ∧ k.data.toNat < k.full.top33.toNat) ∧
        if c.full.perms.ex then 1 ≤ k.data.toNat ∧ k.data.toNat ≤ 7
        else 9 ≤ k.data.toNat ∧ k.data.toNat ≤ 15 := by
  set j : ExIn := { i with op := .cseal, cs1 := c, cs2 := k } with hj
  have hbound : j.addrBoundVio = false ↔
      k.full.base32.toNat ≤ k.data.toNat ∧ k.data.toNat < k.full.top33.toNat :=
    sealing_addrBoundVio_iff (i := j) hdebug (.inl ⟨rfl, rfl⟩)
  have htype : j.chkCs2BadType = false ↔
      if c.full.perms.ex then 1 ≤ k.data.toNat ∧ k.data.toNat ≤ 7
      else 9 ≤ k.data.toNat ∧ k.data.toNat ≤ 15 := chkCs2BadType_iff
  have hvio : j.permVio = (!k.cap.valid ||
      (isSealed c.full || isSealed k.full || !k.full.perms.se || j.chkCs2BadType)) := by
    show (_ || _ || false || false || false || false || false || false) = _
    simp only [Bool.or_false]
    rfl
  have hdef : (i.csealOf c k).cap.valid = (c.cap.valid && !j.addrBoundVio && !j.permVio) := rfl
  rw [hdef, hvio, ← hbound, ← htype]
  simp only [Bool.and_eq_true, Bool.not_eq_true', Bool.or_eq_false_iff, Bool.not_eq_false']
  tauto

/-- **When `CUNSEAL` succeeds.** -/
theorem cunseal_valid_iff (hdebug : i.debugMode = false) (hv : s.cap.valid = true)
    (hs : isSealed s.full = true) :
    (i.cunsealOf s k).cap.valid = true ↔
      k.cap.valid = true ∧ isSealed k.full = false ∧ k.full.perms.us = true ∧
        k.full.base32.toNat ≤ (i.cgetTypeOf s).toNat ∧
          (i.cgetTypeOf s).toNat < k.full.top33.toNat := by
  set j : ExIn := { i with op := .cunseal, cs1 := s, cs2 := k } with hj
  have hbound : j.addrBoundVio = false ↔
      k.full.base32.toNat ≤ (i.cgetTypeOf s).toNat ∧ (i.cgetTypeOf s).toNat < k.full.top33.toNat :=
    sealing_addrBoundVio_iff (i := j) hdebug (.inr ⟨rfl, rfl⟩)
  have hvio : j.permVio =
      (!k.cap.valid || (!isSealed s.full || isSealed k.full || !k.full.perms.us)) := by
    show (_ || _ || false || false || false || false || false || false) = _
    simp only [Bool.or_false]
    rfl
  have hdef : (i.cunsealOf s k).cap.valid = (s.cap.valid && !j.addrBoundVio && !j.permVio) := rfl
  rw [hdef, hvio, ← hbound, hv, hs]
  generalize j.addrBoundVio = x
  have hbool : ∀ w b u x : Bool, (true && !x && !(!w || (!true || b || !u))) = true ↔
      w = true ∧ b = false ∧ u = true ∧ x = false := by decide
  exact hbool _ _ _ _

/-- What unsealing leaves of a capability that was sealed. -/
theorem cunseal_cseal (hv : c.cap.valid = true) (hs : isSealed c.full = false) {k' : RegVal}
    {i' : ExIn}
    (hunseal : (i'.cunsealOf (i.csealOf c k) k').cap.valid = true) :
    i'.cunsealOf (i.csealOf c k) k' = ⟨c.data, c.cap.withGl k'.full.perms.gl⟩ := by
  have hotype : c.cap.otype = otypeUnsealed := bne_eq_false_iff_eq.mp hs
  have hcperms := compressPerms_expandPerms c.cap.cperms k'.full.perms.gl
  have hres : i'.cunsealOf (i.csealOf c k) k' = ⟨c.data, { c.cap with
      valid := (i'.cunsealOf (i.csealOf c k) k').cap.valid
      otype := otypeUnsealed
      cperms := compressPerms { expandPerms c.cap.cperms with
        gl := (expandPerms c.cap.cperms).gl && k'.full.perms.gl } }⟩ := rfl
  have hcap : ∀ p, ({ c.cap with valid := true, otype := otypeUnsealed, cperms := p } : Cap) =
      { c.cap with cperms := p } := by
    intro p
    rw [← hv, ← hotype]
  rw [hres, hunseal, hcperms, hcap]
  rfl

/-- **Sealing is exact and can be undone.** -/
theorem sealing_exact_invertible (i i' : ExIn) (hdebug : i.debugMode = false)
    (hdebug' : i'.debugMode = false) :
    (∀ c k : RegVal, (i.csealOf c k).cap.valid = true ↔
      c.cap.valid = true ∧ k.cap.valid = true ∧ isSealed c.full = false ∧ isSealed k.full = false ∧
        k.full.perms.se = true ∧
        (k.full.base32.toNat ≤ k.data.toNat ∧ k.data.toNat < k.full.top33.toNat) ∧
        if c.full.perms.ex then 1 ≤ k.data.toNat ∧ k.data.toNat ≤ 7
        else 9 ≤ k.data.toNat ∧ k.data.toNat ≤ 15) ∧
    (∀ s k' : RegVal, s.cap.valid = true → isSealed s.full = true →
      ((i'.cunsealOf s k').cap.valid = true ↔
        k'.cap.valid = true ∧ isSealed k'.full = false ∧ k'.full.perms.us = true ∧
          k'.full.base32.toNat ≤ (i'.cgetTypeOf s).toNat ∧
          (i'.cgetTypeOf s).toNat < k'.full.top33.toNat)) ∧
    ∀ c k k' : RegVal, c.cap.valid = true → (i.csealOf c k).cap.valid = true →
      (i'.cunsealOf (i.csealOf c k) k').cap.valid = true →
      i'.cunsealOf (i.csealOf c k) k' = ⟨c.data, c.cap.withGl k'.full.perms.gl⟩ := by
  refine ⟨fun c k => cseal_valid_iff hdebug, fun s k' => cunseal_valid_iff hdebug', ?_⟩
  intro c k k' hv hseal hunseal
  exact cunseal_cseal hv ((cseal_valid_iff hdebug).mp hseal).2.2.1 hunseal

/-- The memory root, sealed with type 9 by the sealing root and unsealed again. -/
theorem sealing_exact_invertible_root :
    let c : RegVal := ⟨0x10000100, rootCapTm⟩
    let k : RegVal := ⟨9, rootCapTs⟩
    let i : ExIn := default
    (i.csealOf c k).cap.valid = true ∧ i.cunsealOf (i.csealOf c k) k = c := by
  intro c k i
  obtain ⟨h1, h2, h3⟩ := sealing_exact_invertible i i rfl rfl
  have hseal : (i.csealOf c k).cap.valid = true := (h1 c k).mpr (by decide)
  have hunseal : (i.cunsealOf (i.csealOf c k) k).cap.valid = true :=
    (h2 (i.csealOf c k) k hseal (by decide)).mpr (by decide)
  exact ⟨hseal, (h3 c k k rfl hseal hunseal).trans (by decide)⟩

end Cheriot

end Croc
