import Croc.Lib.Bits
import Mathlib.Logic.Function.Basic

/-!
# Words and bytes

A memory of 32-bit words whose writes have a byte enable for each lane, seen as a memory of bytes in
little-endian order. An access of the byte memory at any address is one access of the word that
holds its first byte, and a second one of the next word if it goes beyond the first. Addresses wrap
around.

## Main definitions

* `wordIndex`, `wordOf`, `lane`: the word of a byte, its address, and the place in it.
* `WordMem`, `WordMem.write`: the word memory and a write with byte enables.
* `ByteMem`, `WordMem.bytes`: the byte memory and the view of a word memory as one.
* `ByteMem.store`, `ByteMem.word`, `ByteMem.half`: little-endian accesses.
* `ByteMem.storeList`: bytes stored one after the other.

## Main results

* `WordMem.bytes_write_write`: two writes with the right byte enables are a store.
* `WordMem.word_eq`, `WordMem.half_eq`: a word or halfword at any address is a slice of two words.
-/

namespace ByteMemory

open Bits

/-- The word that holds a byte. -/
def wordIndex (x : BitVec 32) : BitVec 30 := x.extractLsb' 2 30

/-- The address of the word that holds a byte. -/
def wordOf (x : BitVec 32) : BitVec 32 := wordIndex x ++ 0#2

/-- The lane of a byte in its word. -/
def lane (x : BitVec 32) : ℕ := (x.extractLsb' 0 2).toNat

/-- A byte of a word. -/
def byteOf (v : BitVec 32) (k : ℕ) : BitVec 8 := v.extractLsb' (8 * k) 8

/-- A memory of words. -/
abbrev WordMem := BitVec 30 → BitVec 32

/-- A memory of bytes. -/
abbrev ByteMem := BitVec 32 → BitVec 8

namespace ByteMem

variable (M : ByteMem) (addr : BitVec 32)

/-- The memory after the low `size` bytes of `v` are stored at `addr`. -/
def store (size : ℕ) (v : BitVec 32) : ByteMem := fun x =>
  if (x - addr).toNat < size then byteOf v (x - addr).toNat else M x

/-- The word at `addr`. -/
def word : BitVec 32 := M (addr + 3) ++ M (addr + 2) ++ M (addr + 1) ++ M addr

/-- The halfword at `addr`. -/
def half : BitVec 16 := M (addr + 1) ++ M addr

/-- The memory after a list of bytes is stored, one after the other. -/
def storeList (l : List (BitVec 32 × BitVec 8)) : ByteMem :=
  l.foldl (fun M p => Function.update M p.1 p.2) M

end ByteMem

namespace WordMem

variable (m : WordMem)

/-- The memory as one of bytes. -/
def bytes : ByteMem := fun x => byteOf (m (wordIndex x)) (lane x)

/-- A write with byte enables. -/
def write (w : BitVec 30) (v : BitVec 32) (be : BitVec 4) : WordMem :=
  Function.update m w (mergeBytes (m w) v be)

end WordMem

/-! ### Lists of bytes -/

section StoreList

variable {M : ByteMem} {l l' : List (BitVec 32 × BitVec 8)} {x : BitVec 32}

theorem storeList_cons (p : BitVec 32 × BitVec 8) :
    M.storeList (p :: l) = ByteMem.storeList (Function.update M p.1 p.2) l := rfl

theorem storeList_append : M.storeList (l ++ l') = (M.storeList l).storeList l' := List.foldl_append

/-- What is at an address after a store depends on what was there before, and on nothing else. -/
theorem storeList_congr {M' : ByteMem} (h : M x = M' x) : M.storeList l x = M'.storeList l x := by
  induction l generalizing M M' with
  | nil => exact h
  | cons p l ih =>
    rw [storeList_cons, storeList_cons]
    refine ih ?_
    by_cases hx : x = p.1
    · rw [hx, Function.update_self, Function.update_self]
    · rw [Function.update_of_ne hx, Function.update_of_ne hx, h]

/-- Addresses that are not stored keep their bytes. -/
theorem storeList_of_not_mem (h : x ∉ l.map Prod.fst) : M.storeList l x = M x := by
  induction l generalizing M with
  | nil => rfl
  | cons p l ih =>
    rw [List.map_cons, List.mem_cons, not_or] at h
    rw [storeList_cons, ih h.2, Function.update_of_ne h.1]

/-- An address that is stored once has the byte that is stored there. -/
theorem storeList_of_mem {v : BitVec 8} (hnd : (l.map Prod.fst).Nodup) (h : (x, v) ∈ l) :
    M.storeList l x = v := by
  induction l generalizing M with
  | nil => cases h
  | cons p l ih =>
    rw [List.map_cons, List.nodup_cons] at hnd
    rw [storeList_cons]
    rcases List.mem_cons.mp h with rfl | h
    · rw [storeList_of_not_mem hnd.1, Function.update_self]
    · exact ih hnd.2 h

end StoreList

/-! ### Addresses -/

theorem lane_lt (x : BitVec 32) : lane x < 4 := (x.extractLsb' 0 2).isLt

theorem toNat_eq (x : BitVec 32) : x.toNat = 4 * (wordIndex x).toNat + lane x := by
  rw [wordIndex, lane, BitVec.extractLsb'_toNat, BitVec.extractLsb'_toNat, Nat.shiftRight_zero,
    Nat.shiftRight_eq_div_pow]
  have hx := x.isLt
  omega

theorem toNat_wordOf (x : BitVec 32) : (wordOf x).toNat = x.toNat / 4 * 4 :=
  toNat_extractLsb'_append_zero x rfl

/-- A word address is its own. -/
theorem wordOf_eq {x : BitVec 32} (h : x.toNat % 4 = 0) : wordOf x = x := by
  apply BitVec.eq_of_toNat_eq
  rw [toNat_wordOf]
  omega

theorem wordIndex_wordOf (x : BitVec 32) : wordIndex (wordOf x) = wordIndex x := by
  have hx := toNat_eq x
  have hword := toNat_eq (wordOf x)
  have hnat := toNat_wordOf x
  have hlane := lane_lt x
  have hlane' := lane_lt (wordOf x)
  apply BitVec.eq_of_toNat_eq
  omega

section Addresses

variable (addr : BitVec 32) {j : ℕ}

theorem toNat_wordIndex_succ : (wordIndex addr + 1).toNat = ((wordIndex addr).toNat + 1) % 2 ^ 30 :=
  BitVec.toNat_add _ _

theorem toNat_add_ofNat (hj : j < 4) :
    (addr + BitVec.ofNat 32 j).toNat = (addr.toNat + j) % 2 ^ 32 := by
  rw [BitVec.toNat_add, BitVec.toNat_ofNat, Nat.mod_eq_of_lt (show j < 2 ^ 32 by omega)]

theorem lane_add (hj : j < 4) : lane (addr + BitVec.ofNat 32 j) = (lane addr + j) % 4 := by
  have hsum := toNat_add_ofNat addr hj
  have haddr := toNat_eq addr
  have hnew := toNat_eq (addr + BitVec.ofNat 32 j)
  have hlane := lane_lt (addr + BitVec.ofNat 32 j)
  omega

theorem wordIndex_add (hj : j < 4) : wordIndex (addr + BitVec.ofNat 32 j) =
    if lane addr + j < 4 then wordIndex addr else wordIndex addr + 1 := by
  have hsum := toNat_add_ofNat addr hj
  have haddr := toNat_eq addr
  have hnew := toNat_eq (addr + BitVec.ofNat 32 j)
  have hlane := lane_lt (addr + BitVec.ofNat 32 j)
  have hlane' := lane_lt addr
  have hlt := addr.isLt
  have hnext := toNat_wordIndex_succ addr
  apply BitVec.eq_of_toNat_eq
  split_ifs with h <;> omega

theorem wordIndex_add_four : wordIndex (addr + 4) = wordIndex addr + 1 := by
  have hsum : (addr + 4).toNat = (addr.toNat + 4) % 2 ^ 32 := BitVec.toNat_add _ _
  have haddr := toNat_eq addr
  have hnew := toNat_eq (addr + 4)
  have hlane := lane_lt (addr + 4)
  have hlane' := lane_lt addr
  have hnext := toNat_wordIndex_succ addr
  have hlt := addr.isLt
  apply BitVec.eq_of_toNat_eq
  omega

theorem lane_add_four : lane (addr + 4) = lane addr := by
  have hsum : (addr + 4).toNat = (addr.toNat + 4) % 2 ^ 32 := BitVec.toNat_add _ _
  have haddr := toNat_eq addr
  have hnew := toNat_eq (addr + 4)
  have hlane := lane_lt (addr + 4)
  have hlane' := lane_lt addr
  omega

/-- The bytes of an access, by word and lane. -/
theorem toNat_sub_lt_iff {size : ℕ} (hsize : size ≤ 4) (x : BitVec 32) : (x - addr).toNat < size ↔
    (wordIndex x = wordIndex addr + 1 ∧ lane x + 4 < lane addr + size) ∨
      (wordIndex x = wordIndex addr ∧ lane addr ≤ lane x ∧ lane x < lane addr + size) := by
  have hsub := BitVec.toNat_sub x addr
  have hx := toNat_eq x
  have haddr := toNat_eq addr
  have hlx := lane_lt x
  have hla := lane_lt addr
  have hnext := toNat_wordIndex_succ addr
  have hlt := x.isLt
  have hlt' := addr.isLt
  rw [← BitVec.toNat_inj, ← BitVec.toNat_inj]
  omega

/-- The place of a byte in its access. -/
theorem toNat_sub_eq {size : ℕ} (hsize : size ≤ 4) {x : BitVec 32} (h : (x - addr).toNat < size) :
    (x - addr).toNat = (lane x + 4 - lane addr) % 4 := by
  have hsub := BitVec.toNat_sub x addr
  have hx := toNat_eq x
  have haddr := toNat_eq addr
  have hla := lane_lt addr
  omega

end Addresses

/-! ### Bytes of words -/

/-- The bytes of a word that is put together from four. -/
theorem byteOf_append (f : ℕ → BitVec 8) {k : ℕ} (hk : k < 4) :
    byteOf (f 3 ++ f 2 ++ f 1 ++ f 0) k = f k := by
  refine BitVec.eq_of_getLsbD_eq fun j hj => ?_
  rw [byteOf, BitVec.getLsbD_extractLsb', decide_eq_true hj, Bool.true_and]
  simp only [BitVec.getLsbD_append]
  rcases (by omega : k = 0 ∨ k = 1 ∨ k = 2 ∨ k = 3) with rfl | rfl | rfl | rfl
  · rw [if_pos (by omega), Nat.mul_zero, Nat.zero_add]
  · rw [if_neg (by omega), if_pos (by omega), show 8 * 1 + j - 8 = j by omega]
  · rw [if_neg (by omega), if_neg (by omega), if_pos (by omega),
      show 8 * 2 + j - 8 - 8 = j by omega]
  · rw [if_neg (by omega), if_neg (by omega), if_neg (by omega),
      show 8 * 3 + j - 8 - 8 - 8 = j by omega]

theorem ByteMem.byteOf_word (M : ByteMem) (addr : BitVec 32) {k : ℕ} (hk : k < 4) :
    byteOf (M.word addr) k = M (addr + BitVec.ofNat 32 k) := by
  have hword : M.word addr = M (addr + BitVec.ofNat 32 3) ++ M (addr + BitVec.ofNat 32 2) ++
      M (addr + BitVec.ofNat 32 1) ++ M (addr + BitVec.ofNat 32 0) := by
    rw [ByteMem.word, show addr + BitVec.ofNat 32 0 = addr from BitVec.add_zero addr]
    rfl
  rw [hword, byteOf_append (fun j => M (addr + BitVec.ofNat 32 j)) hk]

theorem byteOf_mergeBytes (old new : BitVec 32) (be : BitVec 4) {k : ℕ} (hk : k < 4) :
    byteOf (mergeBytes old new be) k = if be.getLsbD k then byteOf new k else byteOf old k := by
  apply BitVec.eq_of_getLsbD_eq
  intro i hi
  have hdiv : (8 * k + i) / 8 = k := by omega
  rw [byteOf, BitVec.getLsbD_extractLsb', getLsbD_mergeBytes old new be (by omega), hdiv]
  split_ifs <;> simp [byteOf]

namespace WordMem

variable (m : WordMem) (addr : BitVec 32) {j : ℕ}

theorem bytes_write (w : BitVec 30) (v : BitVec 32) (be : BitVec 4) (x : BitVec 32) :
    (m.write w v be).bytes x =
      if wordIndex x = w ∧ be.getLsbD (lane x) = true then byteOf v (lane x) else m.bytes x := by
  rw [bytes, write, Function.update_apply]
  by_cases hw : wordIndex x = w
  · rw [if_pos hw, byteOf_mergeBytes _ _ _ (lane_lt x), bytes, hw]
    simp
  · rw [if_neg hw, if_neg fun h => hw h.1, bytes]

/-- The word that holds an address, with the next one above it. -/
def double : BitVec 64 := m (wordIndex addr + 1) ++ m (wordIndex addr)

/-- **The bytes behind an address** are slices of a double word. -/
theorem bytes_add (hj : j < 4) :
    m.bytes (addr + BitVec.ofNat 32 j) = (m.double addr).extractLsb' (8 * (lane addr + j)) 8 := by
  have hlane := lane_lt addr
  rw [bytes, wordIndex_add addr hj, lane_add addr hj]
  apply BitVec.eq_of_getLsbD_eq
  intro i hi
  rw [byteOf, double, BitVec.getLsbD_extractLsb', BitVec.getLsbD_extractLsb', BitVec.getLsbD_append]
  split_ifs with hfirst hlow hlow
  · rw [Nat.mod_eq_of_lt hfirst]
  · omega
  · omega
  · have hbit : 8 * ((lane addr + j) % 4) + i = 8 * (lane addr + j) + i - 32 := by omega
    rw [hbit]

theorem bytes_eq : m.bytes addr = (m.double addr).extractLsb' (8 * lane addr) 8 := by
  have hzero : addr + BitVec.ofNat 32 0 = addr := BitVec.add_zero addr
  rw [← hzero, bytes_add m addr (by decide), hzero, Nat.add_zero]

theorem half_eq : ByteMem.half m.bytes addr = (m.double addr).extractLsb' (8 * lane addr) 16 := by
  have h₁ : m.bytes (addr + 1) = _ := bytes_add m addr (j := 1) (by decide)
  rw [ByteMem.half, h₁, bytes_eq m addr]
  exact BitVec.extractLsb'_append_extractLsb'_eq_extractLsb' (by omega)

theorem word_eq : ByteMem.word m.bytes addr = (m.double addr).extractLsb' (8 * lane addr) 32 := by
  have h₁ : m.bytes (addr + 1) = _ := bytes_add m addr (j := 1) (by decide)
  have h₂ : m.bytes (addr + 2) = _ := bytes_add m addr (j := 2) (by decide)
  have h₃ : m.bytes (addr + 3) = _ := bytes_add m addr (j := 3) (by decide)
  rw [ByteMem.word, h₁, h₂, h₃, bytes_eq m addr,
    BitVec.extractLsb'_append_extractLsb'_eq_extractLsb' (by omega),
    BitVec.extractLsb'_append_extractLsb'_eq_extractLsb' (by omega)]
  exact BitVec.extractLsb'_append_extractLsb'_eq_extractLsb' (by omega)

/-- **A store in two writes.** The first enables the bytes up to the end of the word, the second the
others in the next word; the data is rotated to its lanes. -/
theorem bytes_write_write {size : ℕ} {v r : BitVec 32} {be be' : BitVec 4} (hsize : size ≤ 4)
    (hbe : ∀ k < 4, be.getLsbD k = true ↔ lane addr ≤ k ∧ k < lane addr + size)
    (hbe' : ∀ k < 4, be'.getLsbD k = true ↔ k + 4 < lane addr + size)
    (hr : ∀ k < 4, byteOf r k = byteOf v ((k + 4 - lane addr) % 4)) :
    ((m.write (wordIndex addr) r be).write (wordIndex addr + 1) r be').bytes =
      ByteMem.store m.bytes addr size v := by
  funext x
  rw [bytes_write, bytes_write, ByteMem.store]
  simp only [hbe _ (lane_lt x), hbe' _ (lane_lt x), hr _ (lane_lt x), toNat_sub_lt_iff addr hsize x]
  by_cases hmem : (x - addr).toNat < size
  · rw [toNat_sub_eq addr hsize hmem]
    rw [toNat_sub_lt_iff addr hsize x] at hmem
    rcases hmem with hsecond | hfirst
    · rw [if_pos hsecond, if_pos (.inl hsecond)]
    · rw [if_pos hfirst, ite_self, if_pos (.inr hfirst)]
  · rw [toNat_sub_lt_iff addr hsize x] at hmem
    rw [if_neg fun h => hmem (.inl h), if_neg fun h => hmem (.inr h), if_neg hmem]

/-- A store within one word. -/
theorem bytes_write_one {size : ℕ} {v r : BitVec 32} {be : BitVec 4} (hsize : lane addr + size ≤ 4)
    (hbe : ∀ k < 4, be.getLsbD k = true ↔ lane addr ≤ k ∧ k < lane addr + size)
    (hr : ∀ k < 4, byteOf r k = byteOf v ((k + 4 - lane addr) % 4)) :
    (m.write (wordIndex addr) r be).bytes = ByteMem.store m.bytes addr size v := by
  have hnone : ∀ k < 4, (0#4).getLsbD k = true ↔ k + 4 < lane addr + size := by
    intro k _
    refine iff_of_false (by simp) (by omega)
  rw [← bytes_write_write m addr (by omega) hbe hnone hr]
  funext x
  rw [bytes_write _ (wordIndex addr + 1), if_neg fun h => by simp at h]

end WordMem

end ByteMemory
