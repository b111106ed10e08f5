import Croc.Lib.Bits
import Mathlib.Logic.Function.Basic

/-!
# A small RV32I machine

The instructions that a hand-written trap handler is made of, decoded from their words and run on
registers and a byte-addressed memory. Straight-line stretches of stores or loads relative to the
stack pointer are run as a whole, which is what saving and restoring registers comes down to.

What a called function does is not run but described: `Returns` says what the integer calling
convention promises of a call.

## Main definitions

* `Instr`, `decode`: instructions and their words.
* `Hart`, `exec`, `step`, `run`: the machine and its execution.
* `CodeAt`: the instructions that a memory of code holds from an address on.
* `Returns`: the promise of the calling convention.

## Main results

* `run_add`: runs compose.
* `run_spills`, `run_fills`: saving and restoring registers.
* `loadWord_spilled`: what was saved is there, if the places do not overlap.
-/

namespace Rv32

open Bits (Word)

/-- The number of a register. -/
abbrev Reg := BitVec 5

/-! ### Memory -/

/-- A byte-addressed memory. -/
abbrev Mem := Word → BitVec 8

/-- The word at an address, least significant byte first. -/
def loadWord (m : Mem) (a : Word) : Word := m (a + 3) ++ m (a + 2) ++ m (a + 1) ++ m a

/-- The memory after a word is stored. -/
def storeWord (m : Mem) (a w : Word) : Mem := fun b =>
  if b - a < 4 then w.extractLsb' (8 * (b - a).toNat) 8 else m b

/-- The words at two addresses share no byte. -/
def Separate (a b : Word) : Prop := ∀ k : Fin 4, ¬b + BitVec.ofNat 32 k - a < 4

instance (a b : Word) : Decidable (Separate a b) := inferInstanceAs (Decidable (∀ _, _))

theorem storeWord_of_not_lt {m : Mem} {a w b : Word} (h : ¬b - a < 4) : storeWord m a w b = m b :=
  if_neg h

/-- Separation only depends on the distance of the two words. -/
theorem separate_add_left_iff (s a b : Word) : Separate (s + a) (s + b) ↔ Separate a b := by
  have hsub : ∀ k : Word, s + b + k - (s + a) = b + k - a := by
    intro k
    rw [BitVec.add_assoc, add_sub_add_left_eq_sub]
  simp only [Separate, hsub]

/-- Words in different places that do not run past the end of the address space are separate. -/
theorem separate_of_toNat {a b : Word} (ha : a.toNat + 4 ≤ 2 ^ 32) (hb : b.toNat + 4 ≤ 2 ^ 32)
    (h : a.toNat + 4 ≤ b.toNat ∨ b.toNat + 4 ≤ a.toNat) : Separate a b := by
  intro k
  have hk := k.isLt
  rw [BitVec.lt_def, BitVec.toNat_sub, BitVec.toNat_add, BitVec.toNat_ofNat]
  show ¬_ < 4
  omega

theorem loadWord_congr {m m' : Mem} {a : Word}
    (h : ∀ k : Fin 4, m (a + BitVec.ofNat 32 k) = m' (a + BitVec.ofNat 32 k)) :
    loadWord m a = loadWord m' a := by
  have h0 : m a = m' a := by simpa using h 0
  have h1 : m (a + 1) = m' (a + 1) := h 1
  have h2 : m (a + 2) = m' (a + 2) := h 2
  have h3 : m (a + 3) = m' (a + 3) := h 3
  rw [loadWord, loadWord, h0, h1, h2, h3]

theorem append_bytes (w : Word) :
    w.extractLsb' 24 8 ++ w.extractLsb' 16 8 ++ w.extractLsb' 8 8 ++ w.extractLsb' 0 8 = w := by
  rw [BitVec.extractLsb'_append_extractLsb'_eq_extractLsb' (by decide),
    BitVec.extractLsb'_append_extractLsb'_eq_extractLsb' (by decide),
    BitVec.extractLsb'_append_extractLsb'_eq_extractLsb' (by decide)]
  exact BitVec.extractLsb'_eq_self

@[simp]
theorem loadWord_storeWord_self (m : Mem) (a w : Word) : loadWord (storeWord m a w) a = w := by
  have hbyte : ∀ k : Word, k < 4 → storeWord m a w (a + k) = w.extractLsb' (8 * k.toNat) 8 := by
    intro k hk
    have hsub : a + k - a = k := by rw [BitVec.add_comm, BitVec.add_sub_cancel]
    rw [storeWord, hsub, if_pos hk]
  have h0 : storeWord m a w a = w.extractLsb' 0 8 := by simpa using hbyte 0 (by decide)
  rw [loadWord, hbyte 3 (by decide), hbyte 2 (by decide), hbyte 1 (by decide), h0]
  exact append_bytes w

theorem loadWord_storeWord_of_separate {m : Mem} {a b w : Word} (h : Separate a b) :
    loadWord (storeWord m a w) b = loadWord m b :=
  loadWord_congr fun k => storeWord_of_not_lt (h k)

/-! ### Instructions -/

/-- The instructions of the machine. Offsets and immediates are kept in the width of their
encoding. -/
inductive Instr
  | lui (rd : Reg) (imm : BitVec 20)
  | addi (rd rs1 : Reg) (imm : BitVec 12)
  | slli (rd rs1 : Reg) (shamt : BitVec 5)
  | srli (rd rs1 : Reg) (shamt : BitVec 5)
  | lw (rd rs1 : Reg) (imm : BitVec 12)
  | sw (rs2 rs1 : Reg) (imm : BitVec 12)
  | blt (rs1 rs2 : Reg) (imm : BitVec 13)
  | jal (rd : Reg) (imm : BitVec 21)
  | jalr (rd rs1 : Reg) (imm : BitVec 12)
  | csrrMcause (rd : Reg)
  | mret
  deriving DecidableEq, Repr

/-- The instruction that a word encodes, `none` for one the machine does not have. -/
def decode (w : Word) : Option Instr :=
  let rd := w.extractLsb' 7 5
  let funct3 := w.extractLsb' 12 3
  let rs1 := w.extractLsb' 15 5
  let rs2 := w.extractLsb' 20 5
  let funct7 := w.extractLsb' 25 7
  let immI := w.extractLsb' 20 12
  let immS := w.extractLsb' 25 7 ++ w.extractLsb' 7 5
  let immB := w.extractLsb' 31 1 ++ w.extractLsb' 7 1 ++ w.extractLsb' 25 6 ++
    w.extractLsb' 8 4 ++ 0#1
  let immJ := w.extractLsb' 31 1 ++ w.extractLsb' 12 8 ++ w.extractLsb' 20 1 ++
    w.extractLsb' 21 10 ++ 0#1
  match (w.extractLsb' 0 7).toNat, funct3.toNat with
  | 0x37, _ => some (.lui rd (w.extractLsb' 12 20))
  | 0x13, 0 => some (.addi rd rs1 immI)
  | 0x13, 1 => if funct7 = 0 then some (.slli rd rs1 rs2) else none
  | 0x13, 5 => if funct7 = 0 then some (.srli rd rs1 rs2) else none
  | 0x03, 2 => some (.lw rd rs1 immI)
  | 0x23, 2 => some (.sw rs2 rs1 immS)
  | 0x63, 4 => some (.blt rs1 rs2 immB)
  | 0x6F, _ => some (.jal rd immJ)
  | 0x67, 0 => some (.jalr rd rs1 immI)
  -- `csrrs rd, mcause, zero` only reads
  | 0x73, 2 => if immI = 0x342 ∧ rs1 = 0 then some (.csrrMcause rd) else none
  | 0x73, 0 => if w = 0x30200073 then some .mret else none
  | _, _ => none

/-! ### The machine -/

/-- The architectural state that the instructions read and write. Register 0 is a place like any
other here, and `get` and `set` make it read as zero. -/
structure Hart where
  x : Reg → Word
  pc : Word
  mem : Mem
  mepc : Word
  mcause : Word

namespace Hart

variable (h : Hart)

/-- The value of a register. -/
def get (r : Reg) : Word := if r = 0 then 0 else h.x r

/-- The state after a register is written. -/
def set (r : Reg) (v : Word) : Hart :=
  if r = 0 then h else { h with x := Function.update h.x r v }

/-- The state at the next instruction. -/
def next : Hart := { h with pc := h.pc + 4 }

theorem get_of_ne {r : Reg} (hr : r ≠ 0) : h.get r = h.x r := if_neg hr

theorem set_of_ne {r : Reg} (hr : r ≠ 0) (v : Word) :
    h.set r v = { h with x := Function.update h.x r v } :=
  if_neg hr

end Hart

/-- The effect of an instruction. -/
def exec (i : Instr) (h : Hart) : Hart :=
  match i with
  | .lui rd imm => (h.set rd (imm ++ 0#12)).next
  | .addi rd rs1 imm => (h.set rd (h.get rs1 + imm.signExtend 32)).next
  | .slli rd rs1 shamt => (h.set rd (h.get rs1 <<< shamt.toNat)).next
  | .srli rd rs1 shamt => (h.set rd (h.get rs1 >>> shamt.toNat)).next
  | .lw rd rs1 imm => (h.set rd (loadWord h.mem (h.get rs1 + imm.signExtend 32))).next
  | .sw rs2 rs1 imm =>
    { h.next with mem := storeWord h.mem (h.get rs1 + imm.signExtend 32) (h.get rs2) }
  | .blt rs1 rs2 imm =>
    if (h.get rs1).slt (h.get rs2) then { h with pc := h.pc + imm.signExtend 32 } else h.next
  | .jal rd imm => { h.set rd (h.pc + 4) with pc := h.pc + imm.signExtend 32 }
  -- the target is read before the link is written
  | .jalr rd rs1 imm =>
    { h.set rd (h.pc + 4) with pc := (h.get rs1 + imm.signExtend 32) &&& ~~~1#32 }
  | .csrrMcause rd => (h.set rd h.mcause).next
  | .mret => { h with pc := h.mepc }

section Exec

variable {rd rs1 rs2 : Reg} (h : Hart)

theorem exec_lui (hd : rd ≠ 0) (imm : BitVec 20) : exec (.lui rd imm) h =
    { h with pc := h.pc + 4, x := Function.update h.x rd (imm ++ 0#12) } := by
  rw [exec, h.set_of_ne hd]; rfl

theorem exec_addi (hd : rd ≠ 0) (hs : rs1 ≠ 0) (imm : BitVec 12) : exec (.addi rd rs1 imm) h =
    { h with pc := h.pc + 4, x := Function.update h.x rd (h.x rs1 + imm.signExtend 32) } := by
  rw [exec, h.set_of_ne hd, h.get_of_ne hs]; rfl

theorem exec_slli (hd : rd ≠ 0) (hs : rs1 ≠ 0) (n : BitVec 5) : exec (.slli rd rs1 n) h =
    { h with pc := h.pc + 4, x := Function.update h.x rd (h.x rs1 <<< n.toNat) } := by
  rw [exec, h.set_of_ne hd, h.get_of_ne hs]; rfl

theorem exec_srli (hd : rd ≠ 0) (hs : rs1 ≠ 0) (n : BitVec 5) : exec (.srli rd rs1 n) h =
    { h with pc := h.pc + 4, x := Function.update h.x rd (h.x rs1 >>> n.toNat) } := by
  rw [exec, h.set_of_ne hd, h.get_of_ne hs]; rfl

theorem exec_lw (hd : rd ≠ 0) (hs : rs1 ≠ 0) (imm : BitVec 12) : exec (.lw rd rs1 imm) h =
    { h with
      pc := h.pc + 4
      x := Function.update h.x rd (loadWord h.mem (h.x rs1 + imm.signExtend 32)) } := by
  rw [exec, h.set_of_ne hd, h.get_of_ne hs]; rfl

theorem exec_sw (h2 : rs2 ≠ 0) (hs : rs1 ≠ 0) (imm : BitVec 12) : exec (.sw rs2 rs1 imm) h =
    { h with
      pc := h.pc + 4
      mem := storeWord h.mem (h.x rs1 + imm.signExtend 32) (h.x rs2) } := by
  rw [exec, h.get_of_ne h2, h.get_of_ne hs]; rfl

theorem exec_csrrMcause (hd : rd ≠ 0) : exec (.csrrMcause rd) h =
    { h with pc := h.pc + 4, x := Function.update h.x rd h.mcause } := by
  rw [exec, h.set_of_ne hd]; rfl

/-- A branch on a negative number. -/
theorem exec_bltz (hs : rs1 ≠ 0) (imm : BitVec 13) (hneg : (h.x rs1).msb = true) :
    exec (.blt rs1 0 imm) h = { h with pc := h.pc + imm.signExtend 32 } := by
  have hslt : (h.x rs1).slt 0#32 = true := by rw [BitVec.slt_zero_eq_msb, hneg]
  rw [exec, h.get_of_ne hs]
  exact if_pos hslt

/-- A jump without a link. -/
theorem exec_j (imm : BitVec 21) :
    exec (.jal 0 imm) h = { h with pc := h.pc + imm.signExtend 32 } := rfl

theorem exec_jalr (hd : rd ≠ 0) (hs : rs1 ≠ 0) (imm : BitVec 12) : exec (.jalr rd rs1 imm) h =
    { h with
      pc := (h.x rs1 + imm.signExtend 32) &&& ~~~1#32
      x := Function.update h.x rd (h.pc + 4) } := by
  rw [exec, h.set_of_ne hd, h.get_of_ne hs]

theorem exec_mret : exec .mret h = { h with pc := h.mepc } := rfl

end Exec

/-- One instruction, fetched from a memory of code. Outside of it, and on a word that is no
instruction of the machine, there is no next state. -/
def step (code : Word → Option Word) (h : Hart) : Option Hart :=
  ((code h.pc).bind decode).map fun i => exec i h

/-- A number of instructions. -/
def run (code : Word → Option Word) : ℕ → Hart → Option Hart
  | 0, h => some h
  | n + 1, h => (step code h).bind (run code n)

/-- The code holds a list of instructions from an address on. -/
def CodeAt (code : Word → Option Word) : Word → List Instr → Prop
  | _, [] => True
  | a, i :: is => (code a).bind decode = some i ∧ CodeAt code (a + 4) is

instance CodeAt.decidable (code : Word → Option Word) :
    (a : Word) → (is : List Instr) → Decidable (CodeAt code a is)
  | _, [] => inferInstanceAs (Decidable True)
  | a, _ :: is =>
    have := CodeAt.decidable code (a + 4) is
    inferInstanceAs (Decidable (_ ∧ _))

section Run

variable {code : Word → Option Word}

/-- **Runs compose**. -/
theorem run_add (m n : ℕ) (h : Hart) :
    run code (m + n) h = (run code m h).bind (run code n) := by
  induction m generalizing h with
  | zero => rw [Nat.zero_add]; rfl
  | succ m ih =>
    rw [Nat.succ_add]
    show (step code h).bind _ = ((step code h).bind _).bind _
    rw [Option.bind_assoc]
    congr 1
    funext h'
    exact ih h'

theorem run_trans {m n : ℕ} {h h' h'' : Hart} (hm : run code m h = some h')
    (hn : run code n h' = some h'') : run code (m + n) h = some h'' := by
  rw [run_add, hm]
  exact hn

theorem run_one {h : Hart} {i : Instr} (hc : CodeAt code h.pc [i]) :
    run code 1 h = some (exec i h) := by
  show (((code h.pc).bind decode).map _).bind some = _
  rw [hc.1]
  rfl

/-- The first instruction of a stretch of code that starts at the program counter. -/
theorem run_cons {h : Hart} {i : Instr} {is : List Instr} (hc : CodeAt code h.pc (i :: is))
    (n : ℕ) : run code (n + 1) h = run code n (exec i h) := by
  show (((code h.pc).bind decode).map _).bind _ = _
  rw [hc.1]
  rfl

/-- The address behind `n` more instructions. -/
theorem add_four_add (a : Word) (n : ℕ) :
    a + 4 + BitVec.ofNat 32 (4 * n) = a + BitVec.ofNat 32 (4 * (n + 1)) := by
  rw [Nat.mul_succ, Nat.add_comm (4 * n), BitVec.ofNat_add, BitVec.add_assoc]
  rfl

/-- The first part of a stretch of code. -/
theorem CodeAt.left {a : Word} {is js : List Instr} (hc : CodeAt code a (is ++ js)) :
    CodeAt code a is := by
  induction is generalizing a with
  | nil => trivial
  | cons i is ih => exact ⟨hc.1, ih hc.2⟩

/-- The rest of a stretch of code. -/
theorem CodeAt.right {a : Word} {is js : List Instr} (hc : CodeAt code a (is ++ js)) :
    CodeAt code (a + BitVec.ofNat 32 (4 * is.length)) js := by
  induction is generalizing a with
  | nil => simpa using hc
  | cons i is ih =>
    have htail := ih hc.2
    rwa [add_four_add] at htail

end Run

/-! ### Saving and restoring registers -/

/-- Registers with the offsets from the stack pointer at which they are kept. -/
abbrev Frame := List (Reg × BitVec 12)

/-- The stack pointer. -/
def sp : Reg := 2

theorem sp_ne_zero : sp ≠ 0 := by decide

/-- The address of a place in a frame. -/
def place (base : Word) (o : BitVec 12) : Word := base + o.signExtend 32

/-- The memory after the registers of a frame are stored. -/
def spill (x : Reg → Word) (base : Word) (f : Frame) (m : Mem) : Mem :=
  f.foldl (fun m p => storeWord m (place base p.2) (x p.1)) m

/-- The registers after those of a frame are loaded. -/
def fill (m : Mem) (base : Word) (f : Frame) (x : Reg → Word) : Reg → Word :=
  f.foldl (fun x p => Function.update x p.1 (loadWord m (place base p.2))) x

/-- The frame keeps neither the zero register nor the stack pointer. -/
def Frame.Proper (f : Frame) : Prop := ∀ p ∈ f, p.1 ≠ 0 ∧ p.1 ≠ sp

instance (f : Frame) : Decidable f.Proper := List.decidableBAll _ f

section Frame

variable {code : Word → Option Word}

/-- **Saving registers**: a stretch of stores leaves the registers and writes their values. -/
theorem run_spills {f : Frame} (hf : f.Proper) {h : Hart}
    (hc : CodeAt code h.pc (f.map fun p => .sw p.1 sp p.2)) :
    run code f.length h = some { h with
      pc := h.pc + BitVec.ofNat 32 (4 * f.length)
      mem := spill h.x (h.x sp) f h.mem } := by
  induction f generalizing h with
  | nil => simp [run, spill]
  | cons p f ih =>
    have hp := (hf p List.mem_cons_self).1
    have hf' : Frame.Proper f := fun q hq => hf q (List.mem_cons_of_mem _ hq)
    rw [List.length_cons, run_cons hc, exec_sw _ hp sp_ne_zero, ih hf' hc.2]
    simp only [add_four_add]
    rfl

/-- **Restoring registers**: a stretch of loads leaves the memory and the stack pointer. -/
theorem run_fills {f : Frame} (hf : f.Proper) {h : Hart}
    (hc : CodeAt code h.pc (f.map fun p => .lw p.1 sp p.2)) :
    run code f.length h = some { h with
      pc := h.pc + BitVec.ofNat 32 (4 * f.length)
      x := fill h.mem (h.x sp) f h.x } := by
  induction f generalizing h with
  | nil => simp [run, fill]
  | cons p f ih =>
    obtain ⟨hp, hsp⟩ := hf p List.mem_cons_self
    have hbase : ∀ v, Function.update h.x p.1 v sp = h.x sp :=
      fun v => Function.update_of_ne (Ne.symm hsp) _ _
    have hf' : Frame.Proper f := fun q hq => hf q (List.mem_cons_of_mem _ hq)
    rw [List.length_cons, run_cons hc, exec_lw _ hp sp_ne_zero, ih hf' hc.2]
    simp only [hbase, add_four_add]
    rfl

/-- Storing a frame leaves every word that is separate from all of its places. -/
theorem loadWord_spill_of_separate {x : Reg → Word} {base a : Word} {f : Frame} {m : Mem}
    (h : ∀ p ∈ f, Separate (place base p.2) a) : loadWord (spill x base f m) a = loadWord m a := by
  induction f generalizing m with
  | nil => rfl
  | cons p f ih =>
    show loadWord (spill x base f _) a = _
    rw [ih fun q hq => h q (List.mem_cons_of_mem _ hq)]
    exact loadWord_storeWord_of_separate (h p List.mem_cons_self)

/-- Storing a frame leaves every byte outside of its places. -/
theorem spill_of_not_lt {x : Reg → Word} {base b : Word} {f : Frame} {m : Mem}
    (h : ∀ p ∈ f, ¬b - place base p.2 < 4) : spill x base f m b = m b := by
  induction f generalizing m with
  | nil => rfl
  | cons p f ih =>
    show spill x base f _ b = _
    rw [ih fun q hq => h q (List.mem_cons_of_mem _ hq)]
    exact storeWord_of_not_lt (h p List.mem_cons_self)

/-- No two places of the frame overlap. -/
def Frame.Laid (f : Frame) : Prop :=
  f.Pairwise fun p q => Separate (q.2.signExtend 32) (p.2.signExtend 32)

instance (f : Frame) : Decidable f.Laid := inferInstanceAs (Decidable (f.Pairwise _))

/-- **What was saved is there**. -/
theorem loadWord_spilled {x : Reg → Word} {base : Word} {f : Frame} (hf : f.Laid) {m : Mem}
    {p : Reg × BitVec 12} (hp : p ∈ f) :
    loadWord (spill x base f m) (place base p.2) = x p.1 := by
  induction f generalizing m with
  | nil => cases hp
  | cons q f ih =>
    obtain ⟨hq, hrest⟩ := List.pairwise_cons.mp hf
    show loadWord (spill x base f _) _ = _
    rcases List.mem_cons.mp hp with rfl | hp
    · -- the places stored later do not touch this one
      have hsep : ∀ r ∈ f, Separate (place base r.2) (place base p.2) := fun r hr =>
        (separate_add_left_iff ..).mpr (hq r hr)
      rw [loadWord_spill_of_separate hsep]
      exact loadWord_storeWord_self ..
    · exact ih hrest hp

theorem fill_of_notMem {m : Mem} {base : Word} {f : Frame} {x : Reg → Word} {r : Reg}
    (h : r ∉ f.map Prod.fst) : fill m base f x r = x r := by
  induction f generalizing x with
  | nil => rfl
  | cons p f ih =>
    obtain ⟨hp, hf⟩ := not_or.mp (mt List.mem_cons.mpr h)
    show fill m base f _ r = _
    rw [ih hf]
    exact Function.update_of_ne hp _ _

/-- A register that the frame keeps is loaded from its place. -/
theorem fill_of_mem {m : Mem} {base : Word} {f : Frame} (hf : (f.map Prod.fst).Nodup)
    {x : Reg → Word} {p : Reg × BitVec 12} (hp : p ∈ f) :
    fill m base f x p.1 = loadWord m (place base p.2) := by
  induction f generalizing x with
  | nil => cases hp
  | cons q f ih =>
    obtain ⟨hq, hrest⟩ := List.nodup_cons.mp hf
    show fill m base f _ p.1 = _
    rcases List.mem_cons.mp hp with rfl | hp
    · rw [fill_of_notMem hq]
      exact Function.update_self ..
    · exact ih hrest hp

end Frame

/-! ### Calls -/

/-- The registers that a called function leaves as they are: `sp`, `gp`, `tp` and `s0` to `s11`. -/
def calleeSaved : List Reg := [2, 3, 4, 8, 9, 18, 19, 20, 21, 22, 23, 24, 25, 26, 27]

/-- What the integer calling convention promises of a call with entry state `c` that comes back in
state `r`: execution goes on at the return address, the callee-saved registers are as before, and so
is the stack of the caller, from the stack pointer up to `top`. Nothing else is promised. -/
structure Returns (top : ℕ) (c r : Hart) : Prop where
  pc : r.pc = c.x 1
  saved : ∀ k ∈ calleeSaved, r.x k = c.x k
  stack : ∀ a : Word, c.x sp ≤ a → a.toNat < top → r.mem a = c.mem a

end Rv32
