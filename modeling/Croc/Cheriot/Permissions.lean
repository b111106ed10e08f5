import Croc.Cheriot.Capability

/-!
# The order of permissions

The expanded permissions are ordered by inclusion. The compressed format cannot express every set:
`compressPerms` gives up the permissions that do not fit, and never adds one. The capability load
works on the compressed format directly. Here are the facts about the three conversions that the
results on derivation and on deep immutability rest on; each is a statement about finitely many
encodings.

## Main results

* `expandPerms_compressPerms_le`: compressing never adds a permission.
* `expandPerms_compressPerms_of_gl`: what came from the compressed format survives, with or without
  GL.
* `expandPerms_maskLoadedCperms_le`: a load never adds a permission.
* `maskLoadedCperms_sdLm`, `maskLoadedCperms_glLg`: what the clearing rules clear.
-/

namespace Croc

namespace Cheriot

namespace Perms

/-- Inclusion of permissions. -/
instance : LE Perms where
  le p q := (p.u0 → q.u0) ∧ (p.se → q.se) ∧ (p.us → q.us) ∧ (p.ex → q.ex) ∧ (p.sr → q.sr) ∧
    (p.mc → q.mc) ∧ (p.ld → q.ld) ∧ (p.sl → q.sl) ∧ (p.lm → q.lm) ∧ (p.sd → q.sd) ∧
    (p.lg → q.lg) ∧ (p.gl → q.gl)

theorem le_def {p q : Perms} : p ≤ q ↔
    (p.u0 → q.u0) ∧ (p.se → q.se) ∧ (p.us → q.us) ∧ (p.ex → q.ex) ∧ (p.sr → q.sr) ∧
      (p.mc → q.mc) ∧ (p.ld → q.ld) ∧ (p.sl → q.sl) ∧ (p.lm → q.lm) ∧ (p.sd → q.sd) ∧
      (p.lg → q.lg) ∧ (p.gl → q.gl) := Iff.rfl

instance (p q : Perms) : Decidable (p ≤ q) := decidable_of_iff _ le_def.symm

theorem none_eq :
    none = ⟨false, false, false, false, false, false, false, false, false, false, false,
    false⟩ := rfl

theorem le_refl (p : Perms) : p ≤ p := by simp [le_def]

theorem le_trans {p q r : Perms} (hpq : p ≤ q) (hqr : q ≤ r) : p ≤ r := by
  obtain ⟨h11, h10, h9, h8, h7, h6, h5, h4, h3, h2, h1, h0⟩ := hpq
  obtain ⟨k11, k10, k9, k8, k7, k6, k5, k4, k3, k2, k1, k0⟩ := hqr
  exact ⟨k11 ∘ h11, k10 ∘ h10, k9 ∘ h9, k8 ∘ h8, k7 ∘ h7, k6 ∘ h6, k5 ∘ h5, k4 ∘ h4, k3 ∘ h3,
    k2 ∘ h2, k1 ∘ h1, k0 ∘ h0⟩

theorem le_of_eq {p q : Perms} (h : p = q) : p ≤ q := h ▸ le_refl p

/-- The bits of the packed vector. -/
theorem getLsbD_toBits (p : Perms) :
    p.toBits.getLsbD 11 = p.u0 ∧ p.toBits.getLsbD 10 = p.se ∧ p.toBits.getLsbD 9 = p.us ∧
      p.toBits.getLsbD 8 = p.ex ∧ p.toBits.getLsbD 7 = p.sr ∧ p.toBits.getLsbD 6 = p.mc ∧
      p.toBits.getLsbD 5 = p.ld ∧ p.toBits.getLsbD 4 = p.sl ∧ p.toBits.getLsbD 3 = p.lm ∧
      p.toBits.getLsbD 2 = p.sd ∧ p.toBits.getLsbD 1 = p.lg ∧ p.toBits.getLsbD 0 = p.gl := by
  refine ⟨?_, ?_, ?_, ?_, ?_, ?_, ?_, ?_, ?_, ?_, ?_, ?_⟩ <;>
    exact BitVec.getLsbD_ofBoolListBE ..

/-- Masking the packed vector removes permissions. -/
theorem ofBits_and_le (p : Perms) (mask : BitVec 12) : ofBits (p.toBits &&& mask) ≤ p := by
  obtain ⟨h11, h10, h9, h8, h7, h6, h5, h4, h3, h2, h1, h0⟩ := p.getLsbD_toBits
  simp only [le_def, ofBits, BitVec.getLsbD_and, Bool.and_eq_true, h11, h10, h9, h8, h7, h6, h5, h4,
    h3, h2, h1, h0]
  exact ⟨And.left, And.left, And.left, And.left, And.left, And.left, And.left, And.left, And.left,
    And.left, And.left, And.left⟩

end Perms

/-- The mask test is inclusion. -/
theorem permsCovers_iff {p mask : Perms} : permsCovers p mask = true ↔ mask ≤ p := by
  obtain ⟨h11, h10, h9, h8, h7, h6, h5, h4, h3, h2, h1, h0⟩ := p.getLsbD_toBits
  obtain ⟨k11, k10, k9, k8, k7, k6, k5, k4, k3, k2, k1, k0⟩ := mask.getLsbD_toBits
  have hbit : ∀ x y : Bool, (x || !y) = true ↔ (y = true → x = true) := by decide
  have hall : permsCovers p mask = true ↔
      ∀ i, i < 12 → (p.toBits.getLsbD i || !mask.toBits.getLsbD i) = true := by
    have hget : ∀ i, i < 12 → (p.toBits ||| ~~~mask.toBits).getLsbD i =
        (p.toBits.getLsbD i || !mask.toBits.getLsbD i) := by
      intro i hi
      rw [BitVec.getLsbD_or, BitVec.getLsbD_not, decide_eq_true hi, Bool.true_and]
    rw [permsCovers, beq_iff_eq]
    constructor
    · intro h i hi
      rw [← hget i hi, h, BitVec.getLsbD_allOnes, decide_eq_true hi]
    · intro h
      refine BitVec.eq_of_getLsbD_eq fun i hi => ?_
      rw [hget i hi, h i hi, BitVec.getLsbD_allOnes, decide_eq_true hi]
  rw [hall, Perms.le_def]
  simp only [← k11, ← k10, ← k9, ← k8, ← k7, ← k6, ← k5, ← k4, ← k3, ← k2, ← k1, ← k0, ← h11, ← h10,
    ← h9, ← h8, ← h7, ← h6, ← h5, ← h4, ← h3, ← h2, ← h1, ← h0, ← hbit]
  constructor
  · intro h
    exact ⟨h 11 (by omega), h 10 (by omega), h 9 (by omega), h 8 (by omega), h 7 (by omega),
      h 6 (by omega), h 5 (by omega), h 4 (by omega), h 3 (by omega), h 2 (by omega),
      h 1 (by omega), h 0 (by omega)⟩
  · rintro ⟨g11, g10, g9, g8, g7, g6, g5, g4, g3, g2, g1, g0⟩ i hi
    have : i = 0 ∨ i = 1 ∨ i = 2 ∨ i = 3 ∨ i = 4 ∨ i = 5 ∨ i = 6 ∨ i = 7 ∨ i = 8 ∨ i = 9 ∨ i = 10 ∨
        i = 11 := by omega
    rcases this with rfl | rfl | rfl | rfl | rfl | rfl | rfl | rfl | rfl | rfl | rfl | rfl <;>
      assumption

/-! ### Compressing and expanding -/

section Formats

variable (gl x y z : Bool)

/-- The executable format. -/
theorem expandPerms_exe : expandPerms (cpermsOfBits gl false true x y z) =
    { permExeImsk with sr := x, lm := y, lg := z, gl := gl } := by
  revert gl x y z
  decide

/-- The capability read-write format. -/
theorem expandPerms_mrw : expandPerms (cpermsOfBits gl true true x y z) =
    { permMrwImsk with sl := x, lm := y, lg := z, gl := gl } := by
  revert gl x y z
  decide

/-- The capability read-only format. -/
theorem expandPerms_mro : expandPerms (cpermsOfBits gl true false true y z) =
    { permMroImsk with lm := y, lg := z, gl := gl } := by
  revert gl y z
  decide

/-- The capability write-only format. -/
theorem expandPerms_mwo : expandPerms (cpermsOfBits gl true false false false false) =
    { permMwoImsk with gl := gl } := by
  revert gl
  decide

/-- The data-only format. -/
theorem expandPerms_mdo (h : (x || y) = true) : expandPerms (cpermsOfBits gl true false false x y) =
    { permMdoImsk with ld := x, sd := y, gl := gl } := by
  revert gl x y
  decide

/-- The sealing format. -/
theorem expandPerms_sea : expandPerms (cpermsOfBits gl false false x y z) =
    { permSeaImsk with u0 := x, se := y, us := z, gl := gl } := by
  revert gl x y z
  decide

end Formats

/-- **Compressing never adds a permission.** -/
theorem expandPerms_compressPerms_le (p : Perms) : expandPerms (compressPerms p) ≤ p := by
  rw [compressPerms]
  split_ifs with hexe hmrw hmro hmwo hmdo
  · rw [permsCovers_iff, Perms.le_def] at hexe
    rw [expandPerms_exe, Perms.le_def]
    simp_all [permExeImsk, Perms.none_eq]
  · rw [permsCovers_iff, Perms.le_def] at hmrw
    rw [expandPerms_mrw, Perms.le_def]
    simp_all [permMrwImsk, Perms.none_eq]
  · rw [permsCovers_iff, Perms.le_def] at hmro
    rw [expandPerms_mro, Perms.le_def]
    simp_all [permMroImsk, Perms.none_eq]
  · rw [permsCovers_iff, Perms.le_def] at hmwo
    rw [expandPerms_mwo, Perms.le_def]
    simp_all [permMwoImsk, Perms.none_eq]
  · rw [expandPerms_mdo _ _ _ (Bool.or_comm p.sd p.ld ▸ hmdo), Perms.le_def]
    simp [permMdoImsk, Perms.none_eq]
  · rw [expandPerms_sea, Perms.le_def]
    simp [permSeaImsk, Perms.none_eq]

/-- What was expanded from the compressed format, with GL kept or removed, survives compression. -/
theorem expandPerms_compressPerms_of_gl (c : BitVec 6) (gl : Bool) :
    expandPerms (compressPerms { expandPerms c with gl := gl }) =
      { expandPerms c with gl := gl } := by
  revert c gl
  decide +kernel

/-! ### Loading -/

/-- The clearing rules apply to tagged capabilities only, and SD, LM and LG are cleared in unsealed
ones only. -/
theorem maskLoadedCperms_eq (c : BitVec 6) (clrperm : CapClrperm) (valid sealed : Bool) :
    maskLoadedCperms c clrperm valid sealed =
      maskLoadedCperms c ⟨false, clrperm.sdLm && valid && !sealed, clrperm.glLg && valid⟩ true
        sealed := by
  cases sealed <;> simp [maskLoadedCperms]

/-- **A load never adds a permission.** -/
theorem expandPerms_maskLoadedCperms_le (c : BitVec 6) (clrperm : CapClrperm)
    (valid sealed : Bool) :
    expandPerms (maskLoadedCperms c clrperm valid sealed) ≤ expandPerms c := by
  have h : ∀ (c : BitVec 6) (sdLm glLg sealed : Bool),
      expandPerms (maskLoadedCperms c ⟨false, sdLm, glLg⟩ true sealed) ≤ expandPerms c := by
    decide +kernel
  rw [maskLoadedCperms_eq]
  exact h c _ _ sealed

/-- Without LM in the authority, an unsealed capability loses SD and LM. -/
theorem maskLoadedCperms_sdLm (c : BitVec 6) {clrperm : CapClrperm} (h : clrperm.sdLm = true) :
    (expandPerms (maskLoadedCperms c clrperm true false)).sd = false ∧
      (expandPerms (maskLoadedCperms c clrperm true false)).lm = false := by
  have hall : ∀ (c : BitVec 6) (glLg : Bool),
      (expandPerms (maskLoadedCperms c ⟨false, true, glLg⟩ true false)).sd = false ∧
        (expandPerms (maskLoadedCperms c ⟨false, true, glLg⟩ true false)).lm = false := by
    decide +kernel
  rw [maskLoadedCperms_eq, h]
  exact hall c _

/-- Without LG in the authority, a capability loses GL, and an unsealed one LG too. -/
theorem maskLoadedCperms_glLg (c : BitVec 6) {clrperm : CapClrperm} (h : clrperm.glLg = true)
    (sealed : Bool) : (expandPerms (maskLoadedCperms c clrperm true sealed)).gl = false ∧
      (sealed = false → (expandPerms (maskLoadedCperms c clrperm true sealed)).lg = false) := by
  have hall : ∀ (c : BitVec 6) (sdLm sealed : Bool),
      (expandPerms (maskLoadedCperms c ⟨false, sdLm, true⟩ true sealed)).gl = false ∧
        (sealed = false →
          (expandPerms (maskLoadedCperms c ⟨false, sdLm, true⟩ true sealed)).lg = false) := by
    decide +kernel
  rw [maskLoadedCperms_eq, h]
  exact hall c _ sealed

/-- A sealed capability loses nothing but GL. -/
theorem maskLoadedCperms_sealed (c : BitVec 6) (clrperm : CapClrperm) (valid : Bool) :
    expandPerms (maskLoadedCperms c clrperm valid true) = expandPerms c ∨
      expandPerms (maskLoadedCperms c clrperm valid true) = { expandPerms c with gl := false } := by
  have h : ∀ (c : BitVec 6) (glLg : Bool),
      expandPerms (maskLoadedCperms c ⟨false, false, glLg⟩ true true) = expandPerms c ∨
        expandPerms (maskLoadedCperms c ⟨false, false, glLg⟩ true true) =
          { expandPerms c with gl := false } := by
    decide +kernel
  rw [maskLoadedCperms_eq, Bool.not_true, Bool.and_false]
  exact h c _

end Cheriot

end Croc
