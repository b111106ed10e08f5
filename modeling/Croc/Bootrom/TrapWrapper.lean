import Croc.Bootrom.Rom

/-!
# The trap wrapper of the boot ROM

An interrupt in RV32I mode enters the ROM through one of its vectors, the wrapper saves registers
on the stack of the interrupted program, calls the handler from the table in SRAM, restores the
registers and returns with `mret`. Everything up to the call and everything after it is run from
the words of the ROM; the handler in between is any function that keeps the calling convention.

The wrapper saves ten registers. The calling convention lets the handler overwrite sixteen, and
`a6`, `a7` and `t3` to `t6` are not among the ten, so the interrupted program gets back what the
handler left in them.

## Main definitions

* `takeInterrupt`: the state in which the core starts on an interrupt.
* `ValidStack`: room for the frame of the wrapper below the stack pointer.
* `unsaved`: the caller-saved registers that the wrapper does not save.

## Main results

* `run_entry`, `run_exit`: the wrapper up to the call, and from the return on.
* `wrapper_transparent_iff`: the wrapper is transparent exactly for the handlers that leave the
  unsaved registers alone.
-/

namespace Croc

namespace Bootrom

open Rv32

open Bits (Word)

/-! ### Entry -/

/-- The cause of a trap, as the core keeps it. -/
structure ExcCause where
  irqExt : Bool
  irqInt : Bool
  lowerCause : BitVec 5

/-- The value of `mcause` that software reads. -/
def ExcCause.mcause (c : ExcCause) : Word :=
  BitVec.ofBool (c.irqExt || c.irqInt) ++ (if c.irqInt then BitVec.allOnes 26 else 0#26) ++
    c.lowerCause

/-- The vector of an interrupt. Internal interrupts share that of the non-maskable one. -/
def ExcCause.irqVec (c : ExcCause) : BitVec 5 := if c.irqInt then 31 else c.lowerCause

/-- The value that `_start` writes to `mtvec`. -/
def mtvec : Word := 0x02000200

/-- The address at which the core goes on, in the vectored mode of `mtvec`. -/
def vectorAddr (irqVec : BitVec 5) : Word := mtvec.extractLsb' 8 24 ++ 0#1 ++ irqVec ++ 0#2

/-- An interrupt is taken before the instruction at `pc`. -/
def takeInterrupt (s : Hart) (c : ExcCause) : Hart :=
  { s with pc := vectorAddr c.irqVec, mepc := s.pc, mcause := c.mcause }

/-- The place of the pointer to the interrupt handler in SRAM. -/
def handlerSlot : Word := 0x10000008

/-- The registers that the wrapper saves, with their places. -/
def frame : Frame :=
  [(1, 72), (5, 64), (6, 56), (7, 48), (10, 40), (11, 32), (12, 24), (13, 16), (14, 8), (15, 0)]

/-- The size of the frame. -/
def frameSize : ℕ := 80

/-- `a6`, `a7` and `t3` to `t6`, which a called function may overwrite and the wrapper does not
save. -/
def unsaved : List Reg := [16, 17, 28, 29, 30, 31]

/-- The stack reaches up to `top`, there is room for the frame below the stack pointer, and the
frame does not lie over the pointer to the handler. -/
structure ValidStack (s : Hart) (top : ℕ) : Prop where
  room : frameSize ≤ (s.x sp).toNat
  top : (s.x sp).toNat ≤ top
  table : (s.x sp).toNat ≤ handlerSlot.toNat ∨ handlerSlot.toNat + 4 + frameSize ≤ (s.x sp).toNat

theorem frame_proper : frame.Proper := by decide

theorem frame_laid : frame.Laid := by decide

theorem frame_nodup : (frame.map Prod.fst).Nodup := by decide

/-! ### Code -/

/-- Every vector jumps to the wrapper. -/
theorem codeAt_vector (v : BitVec 5) :
    ∃ imm : BitVec 21, CodeAt fetch (vectorAddr v) [.jal 0 imm] ∧
      vectorAddr v + imm.signExtend 32 = 0x02000300 := by
  have hall : ∀ v : BitVec 5,
      CodeAt fetch (vectorAddr v) [.jal 0 ((0x02000300 - vectorAddr v).setWidth 21)] ∧
        vectorAddr v + ((0x02000300 - vectorAddr v).setWidth 21).signExtend 32 = 0x02000300 := by
    decide
  exact ⟨_, hall v⟩

theorem codeAt_wrapper :
    CodeAt fetch 0x02000300 ([.addi sp sp (-80)] ++ (frame.map (fun p => .sw p.1 sp p.2) ++
      [.lui 5 0x10000, .csrrMcause 10, .blt 10 0 16])) := by
  decide

theorem codeAt_handleInterrupt :
    CodeAt fetch 0x02000344
      [.slli 10 10 1, .srli 10 10 1, .lw 6 5 8, .jalr 1 6 0, .jal 0 0xAC] := by
  decide

theorem codeAt_exit :
    CodeAt fetch 0x02000400 (frame.map (fun p => .lw p.1 sp p.2) ++ [.addi sp sp 80, .mret]) := by
  decide

/-! ### Up to the call -/

theorem run_vector (s : Hart) (c : ExcCause) :
    run fetch 1 (takeInterrupt s c) =
      some { s with pc := 0x02000300, mepc := s.pc, mcause := c.mcause } := by
  obtain ⟨imm, hcode, htarget⟩ := codeAt_vector c.irqVec
  rw [run_one (h := takeInterrupt s c) hcode, exec_j]
  show some { s with pc := vectorAddr c.irqVec + _, mepc := s.pc, mcause := c.mcause } = _
  rw [htarget]

/-- The base of the frame that the wrapper makes. -/
def base (s : Hart) : Word := s.x sp - 80

/-- Making room for the frame and saving the registers. -/
theorem run_save {h : Hart} (hpc : h.pc = 0x02000300) :
    run fetch 11 h = some { h with
      pc := 0x0200032C
      x := Function.update h.x sp (base h)
      mem := spill (Function.update h.x sp (base h)) (base h) frame h.mem } := by
  have hcode : CodeAt fetch h.pc _ := hpc ▸ codeAt_wrapper
  have hroom : run fetch 1 h = some { h with
      pc := 0x02000304
      x := Function.update h.x sp (base h) } := by
    have hoff : (-80 : BitVec 12).signExtend 32 = -80 := by decide
    have hnext : (0x02000300 : Word) + 4 = 0x02000304 := by decide
    rw [run_one hcode.left, exec_addi _ sp_ne_zero sp_ne_zero, hpc, hoff, hnext, base,
      BitVec.sub_eq_add_neg]
  have hstores := run_spills frame_proper
    (h := { h with pc := 0x02000304, x := Function.update h.x sp (base h) })
    codeAt_wrapper.right.left
  simp only [Function.update_self] at hstores
  exact run_trans hroom hstores

/-- Reading the cause; an interrupt takes the branch. -/
theorem run_cause {h : Hart} (hpc : h.pc = 0x0200032C) (hirq : h.mcause.msb = true) :
    run fetch 3 h = some { h with
      pc := 0x02000344
      x := Function.update (Function.update h.x 5 0x10000000) 10 h.mcause } := by
  obtain ⟨x, pc, mem, mepc, mcause⟩ := h
  subst hpc
  have hcode : CodeAt fetch 0x0200032C [.lui 5 0x10000, .csrrMcause 10, .blt 10 0 16] :=
    codeAt_wrapper.right.right
  have hpc : (0x0200032C : Word) + 4 + 4 + (16 : BitVec 13).signExtend 32 = 0x02000344 := by decide
  have hlui : (0x10000 : BitVec 20) ++ 0#12 = (0x10000000 : Word) := by decide
  rw [run_cons hcode, exec_lui _ (by decide), run_cons hcode.2, exec_csrrMcause _ (by decide),
    run_cons hcode.2.2, exec_bltz _ (by decide) _ (by simpa using hirq), run]
  simp only [hpc, hlui]

/-- The call of the interrupt handler, with the number of the interrupt in `a0`. -/
theorem run_handleInterrupt {h : Hart} (hpc : h.pc = 0x02000344) (ht0 : h.x 5 = 0x10000000) :
    run fetch 4 h = some { h with
      pc := loadWord h.mem handlerSlot &&& ~~~1#32
      x := Function.update (Function.update (Function.update h.x 10 (h.x 10 <<< 1 >>> 1))
        6 (loadWord h.mem handlerSlot)) 1 0x02000354 } := by
  obtain ⟨x, pc, mem, mepc, mcause⟩ := h
  subst hpc
  have hcode := codeAt_handleInterrupt
  have hslot : (0x10000000 : Word) + (8 : BitVec 12).signExtend 32 = handlerSlot := by decide
  have hlink : (0x02000344 : Word) + 4 + 4 + 4 + 4 = 0x02000354 := by decide
  have hzero : ∀ w : Word, w + (0 : BitVec 12).signExtend 32 = w := fun w => BitVec.add_zero w
  have ht0' : ∀ v w, Function.update (Function.update x 10 v) 10 w 5 = 0x10000000 := by
    intro v w
    rw [Function.update_of_ne (by decide), Function.update_of_ne (by decide)]
    exact ht0
  rw [run_cons hcode, exec_slli _ (by decide) (by decide), run_cons hcode.2,
    exec_srli _ (by decide) (by decide), run_cons hcode.2.2, exec_lw _ (by decide) (by decide),
    run_cons hcode.2.2.2, exec_jalr _ (by decide) (by decide), run]
  simp only [ht0', hslot, hlink, hzero, Function.update_self, Function.update_idem]
  rfl

/-- The state in which the handler is called. -/
structure Called (s c : Hart) : Prop where
  pc : c.pc = loadWord s.mem handlerSlot &&& ~~~1#32
  ra : c.x 1 = 0x02000354
  sp : c.x sp = base s
  mem : c.mem = spill (Function.update s.x Rv32.sp (base s)) (base s) frame s.mem
  mepc : c.mepc = s.pc
  /-- Apart from the return address and the stack pointer, the wrapper only uses `t0`, `t1` and
  `a0`. -/
  rest : ∀ k ∉ ([1, 2, 5, 6, 10] : List Reg), c.x k = s.x k

theorem toNat_base {s : Hart} (h : frameSize ≤ (s.x sp).toNat) :
    (base s).toNat + frameSize = (s.x sp).toNat := by
  have hlt := (s.x sp).isLt
  rw [base, BitVec.toNat_sub]
  simp only [frameSize, BitVec.reduceToNat] at h ⊢
  omega

/-- The places of the frame lie between its base and the stack pointer. -/
theorem toNat_place {s : Hart} (h : frameSize ≤ (s.x sp).toNat) {p : Reg × BitVec 12}
    (hp : p ∈ frame) : (place (base s) p.2).toNat = (base s).toNat + p.2.toNat ∧
      p.2.toNat + 4 ≤ frameSize := by
  have hoff : frame.all (fun p =>
      (p.2.signExtend 32).toNat = p.2.toNat ∧ p.2.toNat + 4 ≤ frameSize) = true := by
    decide
  obtain ⟨hext, hle⟩ := of_decide_eq_true (List.all_eq_true.mp hoff p hp)
  have hbase := toNat_base h
  have hlt := (s.x sp).isLt
  refine ⟨?_, hle⟩
  rw [place, BitVec.toNat_add, hext, Nat.mod_eq_of_lt (by omega)]

/-- Saving the registers leaves the pointer to the handler. -/
theorem loadWord_handlerSlot {s : Hart} {top : ℕ} (hs : ValidStack s top) (x : Reg → Word) :
    loadWord (spill x (base s) frame s.mem) handlerSlot = loadWord s.mem handlerSlot := by
  refine loadWord_spill_of_separate fun p hp => ?_
  obtain ⟨hplace, hle⟩ := toNat_place hs.room hp
  have hbase := toNat_base hs.room
  have hlt := (s.x sp).isLt
  have hslot : handlerSlot.toNat = 0x10000008 := by decide
  have htable := hs.table
  refine separate_of_toNat (by omega) (by omega) ?_
  rw [hplace]
  omega

/-- The wrapper up to the call, with what it passes to the handler. -/
theorem run_entry_number {s : Hart} {top : ℕ} (hs : ValidStack s top) (cause : ExcCause)
    (hirq : cause.irqExt = true ∨ cause.irqInt = true) :
    ∃ c, run fetch 19 (takeInterrupt s cause) = some c ∧ Called s c ∧
      c.x 10 = cause.mcause <<< 1 >>> 1 := by
  have hmsb : cause.mcause.msb = true := by
    have hor : (cause.irqExt || cause.irqInt) = true := Bool.or_eq_true_iff.mpr hirq
    rw [ExcCause.mcause, hor, BitVec.msb_append, BitVec.msb_append]
    rfl
  set x := Function.update s.x sp (base s) with hx
  have hsave := run_save
    (h := { s with pc := 0x02000300, mepc := s.pc, mcause := cause.mcause }) rfl
  have hcause := run_cause (h := { s with
    pc := 0x0200032C
    x := x
    mem := spill x (base s) frame s.mem
    mepc := s.pc
    mcause := cause.mcause }) rfl hmsb
  have hcall := run_handleInterrupt (h := { s with
    pc := 0x02000344
    x := Function.update (Function.update x 5 0x10000000) 10 cause.mcause
    mem := spill x (base s) frame s.mem
    mepc := s.pc
    mcause := cause.mcause }) rfl rfl
  refine ⟨_, run_trans (run_trans (run_trans (run_vector s cause) hsave) hcause) hcall, ?_, rfl⟩
  constructor
  case pc => exact congrArg (· &&& ~~~1#32) (loadWord_handlerSlot hs x)
  case ra => rfl
  case sp => rfl
  case mem => rfl
  case mepc => rfl
  case rest =>
    intro k hk
    simp only [List.mem_cons, List.not_mem_nil, or_false, not_or] at hk
    obtain ⟨h1, h2, h5, h6, h10⟩ := hk
    simp only [Function.update_of_ne, ne_eq, h1, h5, h6, h10, not_false_eq_true, hx]
    exact Function.update_of_ne h2 _ _

/-- **The wrapper up to the call**. -/
theorem run_entry {s : Hart} {top : ℕ} (hs : ValidStack s top) (cause : ExcCause)
    (hirq : cause.irqExt = true ∨ cause.irqInt = true) :
    ∃ c, run fetch 19 (takeInterrupt s cause) = some c ∧ Called s c := by
  obtain ⟨c, hrun, hc, -⟩ := run_entry_number hs cause hirq
  exact ⟨c, hrun, hc⟩

/-! ### After the return -/

/-- **The wrapper from the return of the handler on**. -/
theorem run_exit {r : Hart} (hpc : r.pc = 0x02000354) :
    run fetch 13 r = some { r with
      pc := r.mepc
      x := Function.update (fill r.mem (r.x sp) frame r.x) sp (r.x sp + 80) } := by
  obtain ⟨x, pc, mem, mepc, mcause⟩ := r
  subst hpc
  have hj : run fetch 1 ⟨x, 0x02000354, mem, mepc, mcause⟩ =
      some ⟨x, 0x02000400, mem, mepc, mcause⟩ := by
    rw [run_one codeAt_handleInterrupt.2.2.2.2, exec_j]
    rfl
  have hfill := run_fills frame_proper (h := ⟨x, 0x02000400, mem, mepc, mcause⟩)
    codeAt_exit.left
  have hsp : fill mem (x sp) frame x sp = x sp := fill_of_notMem (by decide)
  have hret : run fetch 2 ⟨fill mem (x sp) frame x, 0x02000428, mem, mepc, mcause⟩ =
      some ⟨Function.update (fill mem (x sp) frame x) sp (x sp + 80), mepc, mem, mepc, mcause⟩ := by
    have hcode : CodeAt fetch 0x02000428 [.addi sp sp 80, .mret] := codeAt_exit.right
    have hoff : (80 : BitVec 12).signExtend 32 = 80 := by decide
    rw [run_cons hcode, exec_addi _ sp_ne_zero sp_ne_zero, run_cons hcode.2, exec_mret, run]
    simp only [hsp, hoff]
  exact run_trans (run_trans hj hfill) hret

section Return

variable {s c r : Hart} {top : ℕ}

/-- What the wrapper saved, it finds again after the return. -/
theorem loadWord_saved (hs : ValidStack s top) (hc : Called s c) (hr : Returns top c r)
    {p : Reg × BitVec 12} (hp : p ∈ frame) : loadWord r.mem (place (base s) p.2) = s.x p.1 := by
  obtain ⟨hplace, hle⟩ := toNat_place hs.room hp
  have hbase := toNat_base hs.room
  have hlt := (s.x sp).isLt
  have htop := hs.top
  have hkept : loadWord r.mem (place (base s) p.2) = loadWord c.mem (place (base s) p.2) := by
    refine loadWord_congr fun k => hr.stack _ ?_ ?_
    all_goals
      have hk := k.isLt
      have haddr : (place (base s) p.2 + BitVec.ofNat 32 k).toNat =
          (base s).toNat + p.2.toNat + k := by
        rw [BitVec.toNat_add, BitVec.toNat_ofNat, hplace]
        omega
    · rw [BitVec.le_def, hc.sp, haddr]
      omega
    · rw [haddr]
      omega
  rw [hkept, hc.mem, loadWord_spilled frame_laid hp]
  exact Function.update_of_ne (frame_proper p hp).2 _ _

/-- Saving the registers leaves the stack of the interrupted program. -/
theorem mem_of_sp_le (hs : ValidStack s top) (hc : Called s c) {a : Word} (ha : s.x sp ≤ a) :
    c.mem a = s.mem a := by
  rw [hc.mem]
  refine spill_of_not_lt fun p hp => ?_
  obtain ⟨hplace, hle⟩ := toNat_place hs.room hp
  have hbase := toNat_base hs.room
  have hlt := a.isLt
  rw [BitVec.le_def] at ha
  rw [BitVec.lt_def, BitVec.toNat_sub, hplace]
  show ¬_ < 4
  omega

/-- The registers that the interrupted program gets back: the handler's value for an unsaved one,
its own for every other. -/
theorem restored (hs : ValidStack s top) (hc : Called s c) (hr : Returns top c r) {k : Reg}
    (hk : k ≠ 0) :
    Function.update (fill r.mem (r.x sp) frame r.x) sp (r.x sp + 80) k =
      if k ∈ unsaved then r.x k else s.x k := by
  have hsp : r.x sp = base s := (hr.saved sp (by decide)).trans hc.sp
  rw [hsp]
  -- the stack pointer, a saved register, an unsaved one, or one that the handler keeps
  have hcases : ∀ k : Reg, k ≠ 0 → k = sp ∨ k ∈ frame.map Prod.fst ∧ k ≠ sp ∧ k ∉ unsaved ∨
      k ∉ frame.map Prod.fst ∧ k ≠ sp ∧ (k ∈ unsaved ∨ k ∉ unsaved ∧ k ∈ calleeSaved ∧
        k ∉ ([1, 2, 5, 6, 10] : List Reg)) := by
    decide
  rcases hcases k hk with rfl | ⟨hmem, hne, hun⟩ | ⟨hmem, hne, hun | ⟨hun, hcallee, hrest⟩⟩
  · rw [Function.update_self, if_neg (by decide), base, BitVec.sub_add_cancel]
  · obtain ⟨p, hp, rfl⟩ := List.mem_map.mp hmem
    rw [Function.update_of_ne hne, fill_of_mem frame_nodup hp, if_neg hun]
    exact loadWord_saved hs hc hr hp
  · rw [Function.update_of_ne hne, fill_of_notMem hmem, if_pos hun]
  · rw [Function.update_of_ne hne, fill_of_notMem hmem, if_neg hun, hr.saved k hcallee]
    exact hc.rest k hrest

/-- The wrapper returns to the interrupted instruction. -/
theorem run_return (hs : ValidStack s top) (hc : Called s c) (hr : Returns top c r)
    (hmepc : r.mepc = c.mepc) :
    ∃ f, run fetch 13 r = some f ∧ f.pc = s.pc ∧ f.mem = r.mem ∧
      ∀ k, k ≠ 0 → f.x k = if k ∈ unsaved then r.x k else s.x k :=
  ⟨_, run_exit (hr.pc.trans hc.ra), hmepc.trans hc.mepc, rfl, fun _ hk => restored hs hc hr hk⟩

/-- The unsaved registers reach the handler as they were. -/
theorem Called.unsaved_eq (hc : Called s c) {k : Reg} (hk : k ∈ unsaved) :
    k ≠ 0 ∧ c.x k = s.x k := by
  have hfree : ∀ k ∈ unsaved, k ≠ 0 ∧ k ∉ ([1, 2, 5, 6, 10] : List Reg) := by decide
  exact ⟨(hfree k hk).1, hc.rest k (hfree k hk).2⟩

end Return

/-- A handler that leaves the unsaved registers alone is not noticed: the interrupted program goes
on with its registers and its stack as they were. -/
theorem run_return_of_unsaved {s c r : Hart} {top : ℕ} (hs : ValidStack s top) (hc : Called s c)
    (hr : Returns top c r) (hmepc : r.mepc = c.mepc) (hun : ∀ k ∈ unsaved, r.x k = c.x k) :
    ∃ f, run fetch 13 r = some f ∧ f.pc = s.pc ∧ (∀ k, k ≠ 0 → f.x k = s.x k) ∧
      ∀ a, s.x sp ≤ a → a.toNat < top → f.mem a = s.mem a := by
  obtain ⟨f, hf, hpc, hmem, hregs⟩ := run_return hs hc hr hmepc
  refine ⟨f, hf, hpc, fun k hk0 => ?_, fun a ha htop => ?_⟩
  · rw [hregs k hk0]
    split_ifs with hk
    · exact (hun k hk).trans (hc.unsaved_eq hk).2
    · rfl
  · have hbase : c.x sp ≤ a := by
      have hle := toNat_base hs.room
      rw [BitVec.le_def] at ha ⊢
      rw [hc.sp]
      omega
    rw [hmem]
    exact (hr.stack a hbase htop).trans (mem_of_sp_le hs hc ha)

/-- **The wrapper is transparent exactly for the handlers that leave the unsaved registers alone**:
an interrupt reaches the handler, and if the handler comes back by the calling convention and with
`mepc` as it was, the wrapper returns to the interrupted instruction; the interrupted program then
finds its registers and its stack as they were if and only if the handler has not changed any of
`a6`, `a7` and `t3` to `t6`. -/
theorem wrapper_transparent_iff (s : Hart) (top : ℕ) (cause : ExcCause) (hs : ValidStack s top)
    (hirq : cause.irqExt = true ∨ cause.irqInt = true) :
    ∃ c, run fetch 19 (takeInterrupt s cause) = some c ∧
      c.pc = loadWord s.mem handlerSlot &&& ~~~1#32 ∧
      ∀ r, Returns top c r → r.mepc = c.mepc →
        ∃ f, run fetch 13 r = some f ∧ f.pc = s.pc ∧
          (((∀ k, k ≠ 0 → f.x k = s.x k) ∧
              ∀ a, s.x sp ≤ a → a.toNat < top → f.mem a = s.mem a) ↔
            ∀ k ∈ unsaved, r.x k = c.x k) := by
  obtain ⟨c, hrun, hc⟩ := run_entry hs cause hirq
  refine ⟨c, hrun, hc.pc, fun r hr hmepc => ?_⟩
  obtain ⟨f, hf, hpc, hmem, hregs⟩ := run_return hs hc hr hmepc
  refine ⟨f, hf, hpc, ?_, ?_⟩
  · rintro ⟨hkeep, -⟩ k hk
    obtain ⟨hk0, hck⟩ := hc.unsaved_eq hk
    have hfk := hkeep k hk0
    rw [hregs k hk0, if_pos hk] at hfk
    exact hfk.trans hck.symm
  · intro hun
    obtain ⟨f', hf', -, hkeep⟩ := run_return_of_unsaved hs hc hr hmepc hun
    obtain rfl : f = f' := Option.some.inj (hf.symm.trans hf')
    exact hkeep

/-- A program with its stack at `0x10001000` and the handler at `0x10000100`. -/
def running : Hart where
  x := fun k => if k = sp then 0x10001000 else k.setWidth 32
  pc := 0x10000200
  mem := storeWord (fun _ => 0) handlerSlot 0x10000100
  mepc := 0
  mcause := 0

/-- The machine timer interrupt. -/
def timerIrq : ExcCause := ⟨true, false, 7⟩

theorem running_validStack : ValidStack running 0x10002000 := by
  constructor <;> decide

/-- A handler that returns at once is transparent. -/
theorem wrapper_transparent_idle :
    ∃ c f, run fetch 19 (takeInterrupt running timerIrq) = some c ∧ c.pc = 0x10000100 ∧
      run fetch 13 { c with pc := c.x 1 } = some f ∧ f.pc = 0x10000200 ∧
      (∀ k, k ≠ 0 → f.x k = running.x k) ∧
      ∀ a, 0x10001000 ≤ a → a.toNat < 0x10002000 → f.mem a = running.mem a := by
  obtain ⟨c, hc, hcall, hret⟩ :=
    wrapper_transparent_iff running 0x10002000 timerIrq running_validStack (.inl rfl)
  obtain ⟨f, hf, hpc, hiff⟩ :=
    hret { c with pc := c.x 1 } ⟨rfl, fun _ _ => rfl, fun _ _ _ => rfl⟩ rfl
  obtain ⟨hregs, hmem⟩ := hiff.mpr fun _ _ => rfl
  have hptr : loadWord running.mem handlerSlot = 0x10000100 := loadWord_storeWord_self ..
  rw [hptr] at hcall
  exact ⟨c, f, hc, hcall, hf, hpc, hregs, hmem⟩

/-- A handler that puts 0 in `a6` and returns. -/
def clearA6 (c : Hart) : Hart := { c with pc := c.x 1, x := Function.update c.x 16 0 }

/-- **The interrupted program loses `a6`**, which was 16, to a handler that keeps the calling
convention. -/
theorem wrapper_loses_a6 :
    ValidStack running 0x10002000 ∧
      ∃ c f, run fetch 19 (takeInterrupt running timerIrq) = some c ∧ c.pc = 0x10000100 ∧
        Returns 0x10002000 c (clearA6 c) ∧ (clearA6 c).mepc = c.mepc ∧
        run fetch 13 (clearA6 c) = some f ∧ f.pc = running.pc ∧
        running.x 16 = 16 ∧ f.x 16 = 0 := by
  obtain ⟨c, hrun, hc⟩ := run_entry running_validStack timerIrq (.inl rfl)
  have hret : Returns 0x10002000 c (clearA6 c) := by
    refine ⟨rfl, fun k hk => ?_, fun _ _ _ => rfl⟩
    have hne : ∀ k ∈ calleeSaved, k ≠ 16 := by decide
    exact Function.update_of_ne (hne k hk) _ _
  obtain ⟨f, hf, hpc, -, hregs⟩ := run_return running_validStack hc hret rfl
  have hptr : loadWord running.mem handlerSlot = 0x10000100 := loadWord_storeWord_self ..
  have hcall := hc.pc
  rw [hptr] at hcall
  exact ⟨running_validStack, c, f, hrun, hcall, hret, rfl, hf, hpc, by decide, hregs 16 (by decide)⟩

end Bootrom

end Croc
