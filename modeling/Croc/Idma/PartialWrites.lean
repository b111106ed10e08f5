import Croc.Idma.ConfigPort

/-!
# Partial writes to the configuration registers

A write to a configuration register carries byte enables. What it should do is told by a shadow that
keeps every register as four bytes: a byte takes its new value exactly if it is enabled. A job is
then what the registers of the shadow say when it is launched.

Six of the seven registers are whole words and follow the shadow. `CONF` is one bit, kept at bit 0
of a flop and written from bit 11 of the bus, and the mask under which the old bit is kept is cut to
bit 0. So the old bit goes by the enable of byte 0 and the new one by the enable of byte 1.

## Main definitions

* `JobReg`, `Regs.value`: the registers that describe a job, and what they read as.
* `Regs.WritesBytes`: a write takes the enabled bytes and leaves the others.
* `Regs.misplaces`: a write to `CONF` for which the two enables matter.
* `Shadow`, `ConfigPort.shadowAt`: the shadow, and the shadow of a run.

## Main results

* `Regs.writesBytes_iff`: one write.
* `Shadow.agrees_write_iff`, `ConfigPort.agrees_stateAt_iff`: one step of the shadow, and a run.
* `ConfigPort.partialWrites_iff`: writes and jobs are those of the shadow exactly if no write to
  `CONF` is misplaced.
-/

namespace Croc

namespace Idma

open Clocked

open Bits (Word)

/-! ### The registers, one by one -/

/-- A register that describes a job. -/
inductive JobReg
  | conf
  | dstAddr
  | srcAddr
  | tfLen
  | dstStr
  | srcStr
  | numRep
  deriving DecidableEq, Repr

namespace JobReg

/-- The offset of the register. -/
def offset : JobReg → BitVec 9
  | .conf => confOffset
  | .dstAddr => dstAddrOffset
  | .srcAddr => srcAddrOffset
  | .tfLen => lengthOffset
  | .dstStr => dstStride2Offset
  | .srcStr => srcStride2Offset
  | .numRep => reps2Offset

/-- The bits that exist. Of `CONF` it is the ND enable only. -/
def implemented : JobReg → ℕ → Bool
  | .conf, j => j == 11
  | _, j => decide (j < 32)

theorem implemented_lt {reg : JobReg} {j : ℕ} (h : reg.implemented j = true) : j < 32 := by
  cases reg with
  | conf =>
    have : j = 11 := by simpa [implemented] using h
    omega
  | dstAddr | srcAddr | tfLen | dstStr | srcStr | numRep => exact of_decide_eq_true h

end JobReg

/-- The request writes the register. -/
def CfgReq.writes (q : CfgReq) (reg : JobReg) : Bool := q.we && q.req && q.wordAddr == reg.offset

namespace Regs

variable (r : Regs) (q : CfgReq)

/-- What a read of the register returns. -/
def value : JobReg → Word
  | .conf => (BitVec.ofBool r.ndEna).setWidth 32 <<< 11
  | .dstAddr => r.dstAddr
  | .srcAddr => r.srcAddr
  | .tfLen => r.tfLen
  | .dstStr => r.dstStr
  | .srcStr => r.srcStr
  | .numRep => r.numRep

/-- The bit of a register that a bytewise write leaves there. -/
def byteBit (old : Word) (reg : JobReg) (j : ℕ) : Bool :=
  if q.writes reg && q.be.getLsbD (j / 8) then q.wdata.getLsbD j else old.getLsbD j

/-- **The law of byte enables.** The implemented bits of an enabled byte take the data, all others
keep their value. -/
def WritesBytes : Prop :=
  ∀ reg : JobReg, ∀ j, reg.implemented j = true →
    ((r.write q).1.value reg).getLsbD j = byteBit q (r.value reg) reg j

/-- A write to `CONF` while the ND enable is set, which enables byte 0 alone of the two low bytes,
or byte 1 alone to clear the bit. -/
def misplaces : Prop :=
  q.writes .conf = true ∧ r.ndEna = true ∧
    (q.be.getLsbD 0 = true ∧ q.be.getLsbD 1 = false ∨
      q.be.getLsbD 0 = false ∧ q.be.getLsbD 1 = true ∧ q.wdata.getLsbD 11 = false)

instance : Decidable (r.misplaces q) := inferInstanceAs (Decidable (_ ∧ _))

variable {r q}

theorem getLsbD_value_conf : (r.value .conf).getLsbD 11 = r.ndEna := by
  cases h : r.ndEna <;> simp [value, h]

/-- The ND enable after a write. -/
theorem ndEna_write : (r.write q).1.ndEna =
    if q.writes .conf then (!q.be.getLsbD 0 && r.ndEna) || (q.be.getLsbD 1 && q.wdata.getLsbD 11)
    else r.ndEna := by
  simp only [write, CfgReq.writes, JobReg.offset]
  by_cases hw : (q.we && q.req) = true
  · simp only [hw, if_true, Bool.true_and, beq_iff_eq]
    by_cases hc : q.wordAddr = confOffset
    · rw [if_pos hc, if_pos hc]
    · rw [if_neg hc, if_neg hc]
      split_ifs <;> rfl
  · simp [hw]

/-- The other registers merge the enabled bytes. -/
theorem value_write {reg : JobReg} (hreg : reg ≠ .conf) : (r.write q).1.value reg =
    if q.writes reg then Bits.mergeBytes (r.value reg) q.wdata q.be else r.value reg := by
  simp only [write, CfgReq.writes]
  by_cases hw : (q.we && q.req) = true
  · simp only [hw, if_true, Bool.true_and, beq_iff_eq]
    by_cases ha : q.wordAddr = reg.offset
    · rw [if_pos ha]
      -- no other offset comes before this one
      cases reg with
      | conf => exact absurd rfl hreg
      | dstAddr | srcAddr | tfLen | dstStr | srcStr | numRep =>
        simp only [ha, JobReg.offset]
        rfl
    · rw [if_neg ha]
      -- whichever register is written, it is not this one
      split_ifs
      all_goals
        cases reg with
        | conf => exact absurd rfl hreg
        | dstAddr | srcAddr | tfLen | dstStr | srcStr | numRep =>
          first | rfl | exact absurd (by assumption) ha
  · simp [hw]

/-- **One write** obeys the law of byte enables exactly if it is not misplaced. -/
theorem writesBytes_iff : r.WritesBytes q ↔ ¬r.misplaces q := by
  have hconf : r.WritesBytes q ↔ (r.write q).1.ndEna =
      if q.writes .conf && q.be.getLsbD 1 then q.wdata.getLsbD 11 else r.ndEna := by
    constructor
    · intro h
      have h11 := h .conf 11 rfl
      rwa [byteBit, getLsbD_value_conf, getLsbD_value_conf] at h11
    · intro h reg j hj
      by_cases hreg : reg = .conf
      · subst hreg
        have hj11 : j = 11 := by simpa [JobReg.implemented] using hj
        subst hj11
        rwa [byteBit, getLsbD_value_conf, getLsbD_value_conf]
      · rw [value_write hreg, byteBit]
        cases q.writes reg with
        | false => simp
        | true =>
          simp only [if_true, Bool.true_and]
          rw [Bits.getLsbD_mergeBytes _ _ _ (JobReg.implemented_lt hj)]
          split_ifs <;> rfl
  rw [hconf, ndEna_write, misplaces]
  cases q.writes .conf with
  | false => simp
  | true =>
    cases r.ndEna <;> cases q.be.getLsbD 0 <;> cases q.be.getLsbD 1 <;> cases q.wdata.getLsbD 11 <;>
      decide

end Regs

/-! ### The shadow -/

/-- The bytes of every register. -/
abbrev Shadow := JobReg → ℕ → BitVec 8

namespace Shadow

variable (sh : Shadow) (q : CfgReq)

/-- A write replaces the enabled bytes. -/
def write : Shadow := fun reg b =>
  if q.writes reg && q.be.getLsbD b then q.wdata.extractLsb' (8 * b) 8 else sh reg b

/-- A register as a word. -/
def word (reg : JobReg) : Word := Bits.ofFn fun j => (sh reg (j / 8)).getLsbD (j % 8)

/-- The job that the shadow describes. -/
def job : NdReq :=
  let ndEna := (sh.word .conf).getLsbD 11
  { length := sh.word .tfLen
    srcAddr := sh.word .srcAddr
    dstAddr := sh.word .dstAddr
    reps := if ndEna then sh.word .numRep else 1
    srcStrides := if ndEna then sh.word .srcStr else 0
    dstStrides := if ndEna then sh.word .dstStr else 0 }

/-- The implemented bits of the registers are those of the shadow. -/
def Agrees (r : Regs) : Prop :=
  ∀ reg : JobReg, ∀ j, reg.implemented j = true → (r.value reg).getLsbD j = (sh.word reg).getLsbD j

variable {sh q} {r : Regs}

theorem getLsbD_word_write (reg : JobReg) {j : ℕ} (hj : j < 32) :
    ((sh.write q).word reg).getLsbD j = Regs.byteBit q (sh.word reg) reg j := by
  have hmod : j % 8 < 8 := Nat.mod_lt j (by omega)
  rw [word, Regs.byteBit, word, Bits.getLsbD_ofFn, Bits.getLsbD_ofFn, decide_eq_true hj,
    Bool.true_and, Bool.true_and, write]
  split_ifs
  · rw [BitVec.getLsbD_extractLsb', decide_eq_true hmod, Bool.true_and, Nat.div_add_mod]
  · rfl

/-- **One step of the shadow.** The registers go on agreeing exactly if the write obeys the law. -/
theorem agrees_write_iff (h : sh.Agrees r) :
    (sh.write q).Agrees (r.write q).1 ↔ r.WritesBytes q := by
  refine forall_congr' fun reg => forall_congr' fun j => imp_congr_right fun hj => ?_
  rw [getLsbD_word_write reg (JobReg.implemented_lt hj), Regs.byteBit, Regs.byteBit, h reg j hj]

/-- Registers that agree with the shadow describe its job. -/
theorem Agrees.jobReq_eq (h : sh.Agrees r) : r.jobReq = sh.job := by
  have hword : ∀ reg : JobReg, reg ≠ .conf → r.value reg = sh.word reg := by
    intro reg hreg
    refine BitVec.eq_of_getLsbD_eq fun j hj => h reg j ?_
    cases reg with
    | conf => exact absurd rfl hreg
    | dstAddr | srcAddr | tfLen | dstStr | srcStr | numRep => exact decide_eq_true hj
  have hena : r.ndEna = (sh.word .conf).getLsbD 11 := by
    rw [← h .conf 11 rfl, Regs.getLsbD_value_conf]
  rw [Regs.jobReq, job, ← hena, ← hword .tfLen (by decide), ← hword .srcAddr (by decide),
    ← hword .dstAddr (by decide), ← hword .numRep (by decide), ← hword .srcStr (by decide),
    ← hword .dstStr (by decide)]
  rfl

end Shadow

/-! ### Runs -/

namespace ConfigPort

/-- The shadow before cycle `t`. -/
def shadowAt (ins : ℕ → PortIn) : ℕ → Shadow
  | 0 => fun _ _ => 0
  | t + 1 => (shadowAt ins t).write (ins t).cfg

theorem agrees_init (ins : ℕ → PortIn) : (shadowAt ins 0).Agrees (machine.stateAt ins 0).regs := by
  intro reg j hj
  have hzero : (machine.stateAt ins 0).regs.value reg = 0 := by cases reg <;> rfl
  rw [hzero, Shadow.word, Bits.getLsbD_ofFn]
  simp [shadowAt]

/-- **A run** agrees with its shadow as long as no write is misplaced, and no longer. -/
theorem agrees_stateAt_iff (ins : ℕ → PortIn) (t : ℕ) :
    (∀ u ≤ t, (shadowAt ins u).Agrees (machine.stateAt ins u).regs) ↔
      ∀ u < t, ¬(machine.stateAt ins u).regs.misplaces (ins u).cfg := by
  induction t with
  | zero =>
    refine iff_of_true (fun u hu => ?_) fun u hu => absurd hu (Nat.not_lt_zero u)
    rw [Nat.le_zero.mp hu]
    exact agrees_init ins
  | succ t ih =>
    have hnext : (machine.stateAt ins (t + 1)).regs =
        ((machine.stateAt ins t).regs.write (ins t).cfg).1 := rfl
    rw [Nat.forall_lt_succ_right, ← ih, ← Regs.writesBytes_iff]
    constructor
    · intro h
      refine ⟨fun u hu => h u (Nat.le_succ_of_le hu), ?_⟩
      have hlast := h (t + 1) le_rfl
      rw [hnext] at hlast
      exact (Shadow.agrees_write_iff (h t t.le_succ)).mp hlast
    · rintro ⟨h, hw⟩ u hu
      obtain hu | rfl := Nat.of_le_succ hu
      · exact h u hu
      · rw [hnext]
        exact (Shadow.agrees_write_iff (h t le_rfl)).mpr hw

/-- **Partial writes.** A write obeys the law of byte enables exactly if it is not misplaced. The
registers of a run agree with their shadow exactly as long as no write is, and every job that is
launched before that is the job of the shadow. -/
theorem partialWrites_iff (r : Regs) (q : CfgReq) (ins : ℕ → PortIn) (t : ℕ) :
    (r.WritesBytes q ↔ ¬r.misplaces q) ∧
    ((∀ u ≤ t, (shadowAt ins u).Agrees (machine.stateAt ins u).regs) ↔
      ∀ u < t, ¬(machine.stateAt ins u).regs.misplaces (ins u).cfg) ∧
    ((∀ u < t, ¬(machine.stateAt ins u).regs.misplaces (ins u).cfg) →
      (machine.stateAt ins t).jobReqValid = true →
      (machine.stateAt ins t).regs.jobReq = (shadowAt ins t).job) := by
  refine ⟨Regs.writesBytes_iff, agrees_stateAt_iff ins t, fun h _ => ?_⟩
  exact ((agrees_stateAt_iff ins t).mpr h t le_rfl).jobReq_eq

/-- A write of a word with byte enables. -/
def partialWrite (addr : Word) (be : BitVec 4) (wdata : Word) : PortIn :=
  ⟨⟨true, addr, true, be, wdata, 0⟩, false, false⟩

/-- The ND enable is set and two repetitions are asked for; then one byte of `CONF` is written with
zero and the job is launched. -/
def confByte (be : BitVec 4) : ℕ → PortIn
  | 0 => partialWrite 0x00 0b1111 0x800
  | 1 => partialWrite 0xf8 0b1111 2
  | 2 => partialWrite 0x00 be 0
  | 3 => ⟨launch, false, false⟩
  | _ => default

/-- A write of byte 0 clears the ND enable, and a write of byte 1 does not clear it: the job
launched repeats once instead of twice, or twice instead of once. -/
theorem confByte_misplaced :
    ((machine.stateAt (confByte 0b0001) 4).jobReqValid = true ∧
      (machine.stateAt (confByte 0b0001) 4).regs.jobReq.reps = 1 ∧
      (shadowAt (confByte 0b0001) 4).job.reps = 2) ∧
    (machine.stateAt (confByte 0b0010) 4).jobReqValid = true ∧
      (machine.stateAt (confByte 0b0010) 4).regs.jobReq.reps = 2 ∧
      (shadowAt (confByte 0b0010) 4).job.reps = 1 := by
  decide +kernel

end ConfigPort

end Idma

end Croc
