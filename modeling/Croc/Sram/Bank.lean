import Croc.Cheriot.Capability
import Croc.Lib.Bits
import Croc.Lib.Queue

/-!
# The memory banks

The SRAM of the SoC is two banks of 16384 words behind the crossbar. A bank grants every access and
answers it in the next cycle. Beside each bank sits `tag_memory`, with one tag bit for every word: a
write of any width sets the bit to the tag that comes with it, and a read returns the bit with the
data. The two memories form their index from the address in different ways, and it is the same
index.

The multiplexer in front of a bank lets one manager through in a cycle and remembers for whom the
answer is. Which manager that is depends on the arbiter and on what the others do, so it is an input
here: the arbiter picks the core's data port or an access of somebody else. Nobody else writes a
tag.

## Main definitions

* `BankReq`: an access to a bank.
* `SramBank`, `SramBank.step`: `tc_sram`, `tag_memory` and `obi_sram_shim`.
* `OtherReq`: an access of another manager.
* `BankPort`, `BankPort.step`: a bank behind its multiplexer.

## Main results

* `tagIdx_eq_wordAddr`: both memories use the same index.
* `SramBank.step_of_write`, `SramBank.step_of_not_writes`, `SramBank.step_of_read`: what one access
  does to a word and to its tag.
* `BankPort.Synced.step`: the multiplexer knows for whom the answer is.
-/

namespace Croc

namespace Sram

open Cheriot Clocked

open Bits (Word)

/-- `SramBankAddrWidth` bits. -/
abbrev Index := BitVec 14

/-- The first bank. -/
def bank0 : Fin 2 := ⟨0, Nat.zero_lt_two⟩

/-- The second bank. -/
def bank1 : Fin 2 := ⟨1, Nat.one_lt_two⟩

/-- An access to a bank. -/
structure BankReq where
  /-- `a.addr`. -/
  addr : Word
  /-- `a.we`. -/
  we : Bool
  /-- `a.be`. -/
  be : BitVec 4
  /-- `a.wdata`. -/
  wdata : Word
  /-- `a.a_optional`: the tag that a write sets. -/
  tag : Bool
  deriving DecidableEq, Repr, Inhabited

/-- `BankBaseAddr`. -/
def bankBaseAddr (k : Fin 2) : Word := 0x10000000 + BitVec.ofNat 32 (k * 16384 * 4)

/-- `bank_word_addr`. -/
def wordAddr (addr : Word) : Index := addr.extractLsb' 2 14

/-- `idx` of `tag_memory`. -/
def tagIdx (k : Fin 2) (addr : Word) : Index := ((addr - bankBaseAddr k) >>> 2).setWidth 14

/-- **The two memories index alike.** -/
theorem tagIdx_eq_wordAddr (k : Fin 2) (addr : Word) : tagIdx k addr = wordAddr addr := by
  have hbase : (bankBaseAddr k).toNat % 2 ^ 16 = 0 := by revert k; decide
  have hlt := (bankBaseAddr k).isLt
  apply BitVec.eq_of_toNat_eq
  rw [tagIdx, wordAddr, BitVec.toNat_setWidth, BitVec.toNat_ushiftRight, BitVec.toNat_sub,
    BitVec.extractLsb'_toNat, Nat.shiftRight_eq_div_pow, Nat.shiftRight_eq_div_pow]
  omega

/-! ### A bank -/

/-- A bank with its tags. -/
structure SramBank where
  /-- `sram` of `tc_sram`. -/
  sram : Index → Word
  /-- `r_addr_q`: the address that was last read. -/
  rAddr : Index
  /-- `rdata_q`. -/
  rdata : Word
  /-- `tag_mem_q`. -/
  tagMem : Index → Bool
  /-- `tag_read_q`. -/
  tagRead : Bool
  /-- `rvalid_q` of the shim. -/
  rvalid : Bool

namespace SramBank

/-- The bank out of reset. The words are whatever they are, the tags are clear. -/
def init (boot : Index → Word) : SramBank := ⟨boot, 0, 0, fun _ => false, false, false⟩

/-- One clock edge, with the access that the bank is given. -/
def step (k : Fin 2) (s : SramBank) : Option BankReq → SramBank
  | none => { s with rdata := s.sram s.rAddr, rvalid := false }
  | some q =>
    if q.we then
      { s with
        sram := fun a =>
          if a = wordAddr q.addr then Bits.mergeBytes (s.sram a) q.wdata q.be else s.sram a
        rdata := s.sram s.rAddr
        tagMem := fun a => if a = tagIdx k q.addr then q.tag else s.tagMem a
        rvalid := true }
    else
      { s with
        rAddr := wordAddr q.addr
        rdata := s.sram (wordAddr q.addr)
        tagRead := s.tagMem (tagIdx k q.addr)
        rvalid := true }

/-- The access writes word `a`. -/
def Writes (a : Index) (q : Option BankReq) : Prop :=
  ∃ r, q = some r ∧ r.we = true ∧ wordAddr r.addr = a

instance (a : Index) (q : Option BankReq) : Decidable (Writes a q) :=
  decidable_of_iff ((q.any fun r => r.we && wordAddr r.addr == a) = true) (by
    cases q <;> simp [Writes])

variable {k : Fin 2} {s : SramBank} {a : Index} {q : BankReq}

@[simp] theorem rvalid_step (o : Option BankReq) : (s.step k o).rvalid = o.isSome := by
  cases o with
  | none => rfl
  | some q => cases hw : q.we <;> simp [step, hw]

/-- A word that is not written keeps its value and its tag. -/
theorem step_of_not_writes {o : Option BankReq} (h : ¬ Writes a o) :
    (s.step k o).sram a = s.sram a ∧ (s.step k o).tagMem a = s.tagMem a := by
  cases o with
  | none => exact ⟨rfl, rfl⟩
  | some q =>
    cases hw : q.we with
    | false => simp [step, hw]
    | true =>
      have hne : a ≠ wordAddr q.addr := fun ha => h ⟨q, rfl, hw, ha.symm⟩
      simp [step, hw, hne, tagIdx_eq_wordAddr]

/-- A write of a whole word replaces it and sets its tag. -/
theorem step_of_write (hw : q.we = true) (hbe : q.be = 0b1111) :
    (s.step k (some q)).sram (wordAddr q.addr) = q.wdata ∧
      (s.step k (some q)).tagMem (wordAddr q.addr) = q.tag := by
  simp [step, hw, hbe, tagIdx_eq_wordAddr, Bits.mergeBytes_full]

/-- A word that is tagged after a write was written with a tag. -/
theorem tag_of_writes {o : Option BankReq} (h : Writes a o) (ht : (s.step k o).tagMem a = true) :
    ∃ r, o = some r ∧ r.we = true ∧ wordAddr r.addr = a ∧ r.tag = true := by
  obtain ⟨r, rfl, hw, rfl⟩ := h
  refine ⟨r, rfl, hw, rfl, ?_⟩
  simpa [step, hw, tagIdx_eq_wordAddr] using ht

/-- A read returns the word and its tag. -/
theorem step_of_read (hw : q.we = false) :
    (s.step k (some q)).rdata = s.sram (wordAddr q.addr) ∧
      (s.step k (some q)).tagRead = s.tagMem (wordAddr q.addr) := by
  simp [step, hw, tagIdx_eq_wordAddr]

end SramBank

/-! ### The multiplexer -/

/-- An access of a manager other than the core's data port. Its tag is tied to zero. -/
structure OtherReq where
  /-- `a.addr`. -/
  addr : Word
  /-- `a.we`. -/
  we : Bool
  /-- `a.be`. -/
  be : BitVec 4
  /-- `a.wdata`. -/
  wdata : Word
  deriving DecidableEq, Repr, Inhabited

/-- The access as the bank sees it. -/
def OtherReq.toBankReq (q : OtherReq) : BankReq := ⟨q.addr, q.we, q.be, q.wdata, false⟩

/-- A bank behind its multiplexer. -/
structure BankPort where
  /-- The bank. -/
  bank : SramBank
  /-- `i_fifo`: for every access that is not answered, whether it is the core's. -/
  ids : Queue Bool 2

namespace BankPort

/-- The port out of reset. -/
def init (boot : Index → Word) : BankPort := ⟨.init boot, Queue.empty⟩

variable (p : BankPort) (core : Option BankReq) (arb : Option OtherReq)

/-- The grant to the core's data port. The arbiter picks `arb`, or the data port if that is
`none`. -/
def gnt : Bool := arb.isNone && !p.ids.full

/-- The access that the bank is given, and whether it is the core's. -/
def selected : Option (BankReq × Bool) :=
  if p.ids.full then none
  else
    match arb with
    | some q => some (q.toBankReq, false)
    | none => core.map fun q => (q, true)

/-- The answer to the core's data port is valid. -/
def rvalid : Bool := p.bank.rvalid && p.ids.items.headD false

/-- One clock edge. -/
def step (k : Fin 2) : BankPort where
  bank := p.bank.step k ((p.selected core arb).map Prod.fst)
  ids := p.ids.edge ((p.selected core arb).map Prod.snd) p.bank.rvalid

/-- One access is unanswered exactly in the cycle in which the bank answers it. -/
def Synced : Prop := p.ids.items.length = p.bank.rvalid.toNat

variable {p core arb} {k : Fin 2}

theorem synced_init (boot : Index → Word) : (init boot).Synced := rfl

theorem Synced.full (h : p.Synced) : p.ids.full = false := by
  have hle : p.bank.rvalid.toNat ≤ 1 := by cases p.bank.rvalid <;> simp
  have : ¬ p.ids.full = true := by
    rw [Queue.full_iff, h]
    omega
  simpa using this

theorem Synced.selected_some (h : p.Synced) (o : OtherReq) :
    p.selected core (some o) = some (o.toBankReq, false) := by
  simp [selected, h.full]

theorem Synced.selected_none (h : p.Synced) :
    p.selected core none = core.map fun q => (q, true) := by
  simp [selected, h.full]

/-- **The multiplexer knows for whom the answer is.** -/
theorem Synced.ids_step (h : p.Synced) :
    (p.step core arb k).ids.items = ((p.selected core arb).map Prod.snd).toList := by
  have hacc : p.ids.accepted ((p.selected core arb).map Prod.snd) =
      ((p.selected core arb).map Prod.snd).toList := by
    rw [Queue.accepted, h.full]
    rfl
  rw [step, Queue.items_edge, hacc, ← h, List.drop_left]

theorem Synced.step (h : p.Synced) : (p.step core arb k).Synced := by
  rw [Synced, h.ids_step, BankPort.step]
  cases p.selected core arb <;> simp

/-- The core gets an answer in the cycle after its access and in no other. -/
theorem Synced.rvalid_step (h : p.Synced) :
    (p.step core arb k).rvalid = (core.isSome && arb.isNone) := by
  rw [rvalid, h.ids_step, BankPort.step, SramBank.rvalid_step]
  cases arb with
  | some o => simp [h.selected_some]
  | none => cases core <;> simp [h.selected_none]

end BankPort

end Sram

end Croc
