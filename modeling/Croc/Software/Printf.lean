import Croc.Lib.Bits
import Mathlib.Data.Nat.Digits.Lemmas

/-!
# `printf`

The `printf` of the software library knows one conversion, `%x`. It walks over the format with a
pointer that is advanced once for a character and twice for a conversion, and the end of the string
is tested only before the first of the two.

What it should print is told by a reading of the format as tokens: a character stands for itself,
`%x` for the next argument, any other pair for nothing, and a `%` that is left over at the end for
nothing either. The two agree on every format but those with a `%` left over, for which the pointer
steps over the terminator.

Memory is a function of the address, and pointers are not taken modulo `2 ^ 32`: no string lies
across the end of the address space.

## Main definitions

* `formatHex32`, `Printer`, `Printer.loop`, `printf`: the code.
* `Token`, `tokens`, `render`: what a format stands for.
* `StringAt`: a string in memory with its terminator.

## Main results

* `formatHex32_spec`: the digits of a number.
* `Printer.pass_of_token`, `Printer.loop_render`: one pass of the loop, and the whole loop.
* `Printer.loop_overrun`: what a `%` at the end does.
* `printf_asSpecified_iff`: `printf` prints as specified exactly if no `%` is left over.
-/

namespace Croc

namespace Print

open Bits (Word)

/-- A `char`. -/
abbrev Byte := BitVec 8

/-- A character of the source text. -/
def ch (c : Char) : Byte := BitVec.ofNat 8 c.toNat

/-! ### The digits of a number -/

/-- `hex_symbols`. -/
def hexSymbols : List Byte :=
  ['0', '1', '2', '3', '4', '5', '6', '7', '8', '9', 'A', 'B', 'C', 'D', 'E', 'F'].map ch

/-- `char buffer[12]`. -/
abbrev Buffer := Fin 12 → Byte

namespace Buffer

variable (buffer : Buffer)

/-- `buffer[idx] = c`, which is not defined outside the array. -/
def store (idx : ℕ) (c : Byte) : Option Buffer :=
  if idx < 12 then some (fun k => if k.val = idx then c else buffer k) else none

/-- `buffer[idx]`, which is not defined outside the array. -/
def load (idx : ℕ) : Option Byte := if h : idx < 12 then some (buffer ⟨idx, h⟩) else none

end Buffer

/-- The loop of `format_hex32`: the digits of `num`, the lowest first. -/
def hexLoop (buffer : Buffer) (idx : ℕ) (num : Word) : Option (Buffer × ℕ) :=
  if _h : 0 < num then
    match Buffer.store buffer idx (hexSymbols.getD (num &&& 0xf).toNat 0) with
    | none => none
    | some buffer => hexLoop buffer (idx + 1) (num >>> 4)
  else some (buffer, idx)
termination_by num.toNat
decreasing_by
  have hpos : 0 < num.toNat := _h
  rw [BitVec.toNat_ushiftRight, Nat.shiftRight_eq_div_pow]
  exact Nat.div_lt_self hpos (by decide)

/-- `format_hex32`: the buffer, and the number of characters written to it. -/
def formatHex32 (buffer : Buffer) (num : Word) : Option (Buffer × ℕ) :=
  if num = 0 then (Buffer.store buffer 0 (hexSymbols.getD 0 0)).map fun buffer => (buffer, 1)
  else hexLoop buffer 0 num

/-- The loop that prints the buffer from its end: `j` characters are left. -/
def putBuffer (buffer : Buffer) : ℕ → List Byte → Option (List Byte)
  | 0, out => some out
  | j + 1, out =>
    match Buffer.load buffer j with
    | none => none
    | some c => putBuffer buffer j (out ++ [c])

/-! ### The loop over the format -/

/-- The variables of `printf`, with what has been printed and the addresses that were read. -/
structure Printer where
  /-- `fmt`. -/
  fmt : ℕ
  /-- `args`. -/
  args : List Word
  /-- `buffer`. -/
  buffer : Buffer
  /-- The characters printed. -/
  out : List Byte
  /-- The addresses that `*fmt` was read at. -/
  reads : List ℕ

namespace Printer

variable (mem : ℕ → Byte) (s : Printer)

/-- `*fmt` is read. -/
def deref : Printer := { s with reads := s.reads ++ [s.fmt] }

/-- `fmt++`. -/
def advance : Printer := { s with fmt := s.fmt + 1 }

/-- `putchar`. -/
def putchar (c : Byte) : Printer := { s with out := s.out ++ [c] }

/-- The conversion `%x`. Without an argument it is not defined. -/
def putHex : Option Printer :=
  match s.args with
  | [] => none
  | num :: args =>
    match formatHex32 s.buffer num with
    | none => none
    | some (buffer, idx) =>
      (putBuffer buffer idx s.out).map fun out =>
        { s with args := args, buffer := buffer, out := out }

/-- The body of the loop. -/
def body : Option Printer :=
  let s := s.deref
  if mem s.fmt = ch '%' then
    let s := s.advance.deref
    (if mem s.fmt = ch 'x' then s.putHex else some s).map advance
  else some (s.deref.putchar (mem s.fmt)).advance

/-- The loop, with a bound on the number of times that its condition is tested. -/
def loop : ℕ → Printer → Option Printer
  | 0, _ => none
  | fuel + 1, s => if mem s.fmt = 0 then some s.deref else (s.deref.body mem).bind (loop fuel)

end Printer

/-- `printf`, with a bound on the number of passes of its loop. -/
def printf (mem : ℕ → Byte) (fuel : ℕ) (fmt : ℕ) (args : List Word) (buffer : Buffer) :
    Option Printer :=
  Printer.loop mem fuel ⟨fmt, args, buffer, [], []⟩

/-! ### What a format stands for -/

/-- A part of a format. -/
inductive Token where
  /-- A character that stands for itself. -/
  | char (c : Byte)
  /-- `%x`. -/
  | hex
  /-- Another pair. -/
  | other (c : Byte)
  /-- A `%` left over at the end. -/
  | dangling
  deriving DecidableEq, Repr

/-- The parts of a format. -/
def tokens : List Byte → List Token
  | [] => []
  | [c] => if c = ch '%' then [.dangling] else [.char c]
  | c :: d :: rest =>
    if c = ch '%' then (if d = ch 'x' then .hex else .other d) :: tokens rest
    else .char c :: tokens (d :: rest)

/-- A digit, in upper case. -/
def hexDigit (d : ℕ) : Byte := if d < 10 then BitVec.ofNat 8 (48 + d) else BitVec.ofNat 8 (55 + d)

/-- A number in hexadecimal without leading zeros. -/
def hexText (num : Word) : List Byte :=
  if num = 0 then [ch '0'] else ((Nat.digits 16 num.toNat).map hexDigit).reverse

/-- What the parts of a format print. -/
def render : List Token → List Word → List Byte
  | [], _ => []
  | .char c :: ts, args => c :: render ts args
  | .hex :: ts, num :: args => hexText num ++ render ts args
  | .hex :: ts, [] => render ts []
  | .other _ :: ts, args => render ts args
  | .dangling :: ts, args => render ts args

/-- The string `l` with its terminator is at address `p`. -/
def StringAt (mem : ℕ → Byte) : ℕ → List Byte → Prop
  | p, [] => mem p = 0
  | p, c :: l => mem p = c ∧ c ≠ 0 ∧ StringAt mem (p + 1) l

/-- The output is the one specified, and nothing beyond the terminator was read. -/
def AsSpecified (p : ℕ) (l : List Byte) (args : List Word) (s : Printer) : Prop :=
  s.out = render (tokens l) args ∧ ∀ a ∈ s.reads, p ≤ a ∧ a ≤ p + l.length

/-! ### The digits are right -/

theorem hexSymbols_getD {d : ℕ} (hd : d < 16) : hexSymbols.getD d 0 = hexDigit d := by
  have h : ∀ d : Fin 16, hexSymbols.getD d.val 0 = hexDigit d.val := by decide
  exact h ⟨d, hd⟩

theorem Buffer.load_store_self {buffer b : Buffer} {idx : ℕ} {c : Byte}
    (h : Buffer.store buffer idx c = some b) : Buffer.load b idx = some c := by
  simp only [Buffer.store] at h
  split_ifs at h with hidx
  obtain rfl := Option.some.inj h
  simp [Buffer.load, hidx]

theorem Buffer.load_store_ne {buffer b : Buffer} {idx j : ℕ} {c : Byte}
    (h : Buffer.store buffer idx c = some b) (hj : j ≠ idx) :
    Buffer.load b j = Buffer.load buffer j := by
  simp only [Buffer.store] at h
  split_ifs at h with hidx
  obtain rfl := Option.some.inj h
  simp [Buffer.load, hj]

/-- The buffer holds `l` from `idx` on. -/
def Buffer.Holds (buffer : Buffer) (idx : ℕ) (l : List Byte) : Prop :=
  ∀ k c, l[k]? = some c → Buffer.load buffer (idx + k) = some c

/-- The loop writes the digits after what is in the buffer already. -/
theorem hexLoop_spec (num : Word) (buffer : Buffer) (idx : ℕ)
    (hlen : idx + (Nat.digits 16 num.toNat).length ≤ 12) :
    ∃ b, hexLoop buffer idx num = some (b, idx + (Nat.digits 16 num.toNat).length) ∧
      b.Holds idx ((Nat.digits 16 num.toNat).map hexDigit) ∧
      ∀ j, j < idx → Buffer.load b j = Buffer.load buffer j := by
  induction hn : num.toNat using Nat.strong_induction_on generalizing num buffer idx with
  | _ n ih =>
    subst hn
    rw [hexLoop]
    by_cases hpos : 0 < num
    · have hpos' : 0 < num.toNat := hpos
      rw [dif_pos hpos]
      have hshift : (num >>> 4).toNat = num.toNat / 16 := by
        rw [BitVec.toNat_ushiftRight, Nat.shiftRight_eq_div_pow]
      have hlow : (num &&& 0xf).toNat = num.toNat % 16 := by
        rw [BitVec.toNat_and]
        exact Nat.and_two_pow_sub_one_eq_mod num.toNat 4
      have hdigits : Nat.digits 16 num.toNat =
          num.toNat % 16 :: Nat.digits 16 (num >>> 4).toNat := by
        rw [hshift]
        exact Nat.digits_def' (by decide) hpos'
      rw [hdigits, List.length_cons] at hlen
      obtain ⟨b, hb⟩ : ∃ b, Buffer.store buffer idx (hexDigit (num.toNat % 16)) = some b :=
        ⟨_, if_pos (by omega)⟩
      rw [hlow, hexSymbols_getD (Nat.mod_lt _ (by decide)), hb]
      obtain ⟨b', hb', hholds, hbefore⟩ := ih (num >>> 4).toNat
        (by rw [hshift]; exact Nat.div_lt_self hpos' (by decide)) (num >>> 4) b (idx + 1)
        (by omega) rfl
      refine ⟨b', ?_, ?_, ?_⟩
      · rw [hdigits, List.length_cons]
        refine hb'.trans ?_
        rw [Nat.add_right_comm, Nat.add_assoc]
      · rw [hdigits]
        intro k c hk
        cases k with
        | zero =>
          obtain rfl : hexDigit (num.toNat % 16) = c := Option.some.inj hk
          rw [Nat.add_zero, hbefore idx (Nat.lt_succ_self idx), Buffer.load_store_self hb]
        | succ k =>
          rw [show idx + (k + 1) = idx + 1 + k by omega]
          exact hholds k c hk
      · intro j hj
        rw [hbefore j (by omega), Buffer.load_store_ne hb (by omega)]
    · have hzero : num.toNat = 0 := Nat.eq_zero_of_not_pos hpos
      rw [dif_neg hpos, hzero, Nat.digits_zero]
      exact ⟨buffer, rfl, fun k c hk => absurd hk (by simp), fun j _ => rfl⟩

/-- Printing the buffer from its end reverses it. -/
theorem putBuffer_spec {buffer : Buffer} (l : List Byte) (h : buffer.Holds 0 l) (out : List Byte) :
    putBuffer buffer l.length out = some (out ++ l.reverse) := by
  induction l using List.reverseRecOn generalizing out with
  | nil => simp [putBuffer]
  | append_singleton l c ih =>
    have hc : Buffer.load buffer l.length = some c := by
      have := h l.length c (by simp)
      rwa [Nat.zero_add] at this
    have hl : buffer.Holds 0 l := fun k d hk => h k d (by
      rw [List.getElem?_append_left (List.getElem?_eq_some_iff.mp hk).1]
      exact hk)
    rw [List.length_append, List.length_singleton, putBuffer, hc]
    refine (ih hl (out ++ [c])).trans ?_
    simp

/-- **The digits of a number**, as they are printed. -/
theorem formatHex32_spec (buffer : Buffer) (num : Word) (out : List Byte) :
    ∃ b idx, formatHex32 buffer num = some (b, idx) ∧
      putBuffer b idx out = some (out ++ hexText num) := by
  by_cases hzero : num = 0
  · obtain ⟨b, hb⟩ : ∃ b, Buffer.store buffer 0 (hexSymbols.getD 0 0) = some b := ⟨_, rfl⟩
    refine ⟨b, 1, by rw [formatHex32, if_pos hzero, hb]; rfl, ?_⟩
    have hload := Buffer.load_store_self hb
    rw [putBuffer, hload, hexText, if_pos hzero]
    rfl
  · have hlen : (Nat.digits 16 num.toNat).length ≤ 8 := by
      rw [Nat.digits_length_le_iff (by decide)]
      exact num.isLt
    obtain ⟨b, hb, hholds, -⟩ := hexLoop_spec num buffer 0 (by omega)
    refine ⟨b, _, by rw [formatHex32, if_neg hzero, hb], ?_⟩
    rw [Nat.zero_add, hexText, if_neg hzero]
    have := putBuffer_spec _ hholds out
    rwa [List.length_map] at this

/-! ### One pass of the loop -/

namespace Printer

variable {mem : ℕ → Byte} {s : Printer}

/-- A conversion takes one argument and prints its digits. -/
theorem putHex_spec {num : Word} {args : List Word} (h : s.args = num :: args) :
    ∃ b, s.putHex = some { s with args := args, buffer := b, out := s.out ++ hexText num } := by
  obtain ⟨b, idx, hformat, hput⟩ := formatHex32_spec s.buffer num s.out
  refine ⟨b, ?_⟩
  rw [putHex, h]
  simp only [hformat, hput]
  rfl

/-- What one pass of the loop does for a token `t`, with `k` characters. -/
structure Pass (mem : ℕ → Byte) (t : Token) (k : ℕ) (s s' : Printer) : Prop where
  /-- The pass ends normally. -/
  body : s.deref.body mem = some s'
  /-- The pointer is behind the token. -/
  fmt : s'.fmt = s.fmt + k
  /-- What is printed, and the arguments that are left, are those of the token. -/
  out : ∀ ts, s'.out ++ render ts s'.args = s.out ++ render (t :: ts) s.args
  /-- A conversion takes one argument. -/
  args : s'.args.length + (if t = .hex then 1 else 0) = s.args.length
  /-- Only the characters of the token are read. -/
  reads : ∀ a ∈ s'.reads, a ∈ s.reads ∨ s.fmt ≤ a ∧ a < s.fmt + k

theorem pass_char {c : Byte} (hc : mem s.fmt = c) (hne : c ≠ ch '%') :
    ∃ s', Pass mem (.char c) 1 s s' := by
  refine ⟨(s.deref.deref.deref.putchar c).advance, ?_, rfl, ?_, rfl, ?_⟩
  · have h : mem s.deref.deref.fmt = c := hc
    rw [Printer.body]
    simp only [h, if_neg hne]
  · intro ts
    simp [advance, putchar, deref, render]
  · intro a ha
    simp only [advance, putchar, deref, List.mem_append, List.mem_singleton] at ha
    rcases ha with ((h | rfl) | rfl) | rfl
    · exact .inl h
    all_goals exact .inr (by omega)

/-- A pair whose second character is not `x`: the pass for `%` followed by anything else. -/
theorem body_other {d : Byte} (hc : mem s.fmt = ch '%') (hd : mem (s.fmt + 1) = d)
    (hne : d ≠ ch 'x') :
    s.deref.body mem = some s.deref.deref.advance.deref.advance := by
  have h : mem s.deref.deref.fmt = ch '%' := hc
  have h' : mem s.deref.deref.advance.deref.fmt = d := hd
  rw [Printer.body]
  simp only [h, if_true, h', if_neg hne]
  rfl

theorem pass_other {d : Byte} (hc : mem s.fmt = ch '%') (hd : mem (s.fmt + 1) = d)
    (hne : d ≠ ch 'x') :
    ∃ s', Pass mem (.other d) 2 s s' := by
  refine ⟨_, body_other hc hd hne, rfl, fun ts => rfl, rfl, ?_⟩
  intro a ha
  simp only [advance, deref, List.mem_append, List.mem_singleton] at ha
  rcases ha with ((h | rfl) | rfl) | rfl
  · exact .inl h
  all_goals exact .inr (by omega)

theorem pass_hex (hc : mem s.fmt = ch '%') (hd : mem (s.fmt + 1) = ch 'x')
    (hargs : 1 ≤ s.args.length) :
    ∃ s', Pass mem .hex 2 s s' := by
  obtain ⟨num, args, h⟩ := List.exists_cons_of_length_pos hargs
  obtain ⟨b, hput⟩ := putHex_spec (s := s.deref.deref.advance.deref) h
  have h1 : mem s.deref.deref.fmt = ch '%' := hc
  have h2 : mem s.deref.deref.advance.deref.fmt = ch 'x' := hd
  refine ⟨{ s.deref.deref.advance.deref.advance with
    args := args, buffer := b, out := s.out ++ hexText num }, ?_, rfl, ?_, ?_, ?_⟩
  · rw [Printer.body]
    simp only [h1, h2, if_true, hput]
    rfl
  · intro ts
    simp [h, render]
  · simp [h]
  · intro a ha
    simp only [advance, deref, List.mem_append, List.mem_singleton] at ha
    rcases ha with ((h | rfl) | rfl) | rfl
    · exact .inl h
    all_goals exact .inr (by omega)

/-- **One pass.** For the first token of a string the loop makes a pass, after which the rest of the
string is left, unless the token is a `%` at the end. -/
theorem pass_of_token {l : List Byte} (hl : StringAt mem s.fmt l) {t : Token} {ts : List Token}
    (ht : tokens l = t :: ts) (hdangling : t ≠ .dangling) (hargs : t = .hex → 1 ≤ s.args.length) :
    mem s.fmt ≠ 0 ∧ ∃ k rest s', Pass mem t k s s' ∧ StringAt mem s'.fmt rest ∧ tokens rest = ts ∧
      k + rest.length = l.length := by
  match l, hl with
  | [], _ => cases ht
  | [c], hl =>
    obtain ⟨hc, hne, hend⟩ := hl
    rw [tokens] at ht
    split_ifs at ht with hpercent
    · obtain ⟨rfl, -⟩ := List.cons.inj ht
      exact absurd rfl hdangling
    · obtain ⟨rfl, rfl⟩ := List.cons.inj ht
      obtain ⟨s', hpass⟩ := pass_char hc hpercent
      refine ⟨hc ▸ hne, 1, [], s', hpass, ?_, rfl, rfl⟩
      rw [hpass.fmt]
      exact hend
  | c :: d :: rest, hl =>
    obtain ⟨hc, hne, hd, hdne, hrest⟩ := hl
    rw [tokens] at ht
    refine ⟨hc ▸ hne, ?_⟩
    by_cases hpercent : c = ch '%'
    · rw [if_pos hpercent] at ht
      obtain ⟨htoken, rfl⟩ := List.cons.inj ht
      have hpass : ∃ s', Pass mem t 2 s s' := by
        by_cases hx : d = ch 'x'
        · rw [if_pos hx] at htoken
          subst htoken
          exact pass_hex (hc.trans hpercent) (hd.trans hx) (hargs rfl)
        · rw [if_neg hx] at htoken
          subst htoken
          exact pass_other (hc.trans hpercent) hd hx
      obtain ⟨s', hpass⟩ := hpass
      refine ⟨2, rest, s', hpass, ?_, rfl, ?_⟩
      · rw [hpass.fmt]
        exact hrest
      · rw [List.length_cons, List.length_cons, Nat.add_comm]
    · rw [if_neg hpercent] at ht
      obtain ⟨rfl, rfl⟩ := List.cons.inj ht
      obtain ⟨s', hpass⟩ := pass_char hc hpercent
      refine ⟨1, d :: rest, s', hpass, ?_, rfl, ?_⟩
      · rw [hpass.fmt]
        exact ⟨hd, hdne, hrest⟩
      · rw [List.length_cons, List.length_cons, List.length_cons, Nat.add_comm]

/-! ### The whole loop -/

theorem one_le_of_count {t : Token} {ts : List Token} {n : ℕ} (h : (t :: ts).count .hex ≤ n)
    (ht : t = .hex) : 1 ≤ n := by
  subst ht
  rw [List.count_cons_self] at h
  omega

/-- Enough arguments are left for the rest. -/
theorem Pass.count_le {t : Token} {k : ℕ} {s' : Printer} (hpass : Pass mem t k s s')
    {ts : List Token}
    (h : (t :: ts).count .hex ≤ s.args.length) : ts.count .hex ≤ s'.args.length := by
  have hargs := hpass.args
  rw [List.count_cons] at h
  by_cases ht : t = .hex
  · simp only [ht, if_true, beq_self_eq_true] at hargs h
    omega
  · simp only [ht, if_false, beq_iff_eq] at hargs h
    omega

/-- A string without tokens is empty. -/
theorem eq_nil_of_tokens_eq_nil {l : List Byte} (h : tokens l = []) : l = [] := by
  match l with
  | [] => rfl
  | [c] =>
    rw [tokens] at h
    split_ifs at h
  | c :: d :: rest =>
    rw [tokens] at h
    split_ifs at h

/-- **The loop prints what the format stands for**, and reads up to the terminator, if no `%` is
left over. -/
theorem loop_render {l : List Byte} (hl : StringAt mem s.fmt l) (hdangling : .dangling ∉ tokens l)
    (hargs : (tokens l).count .hex ≤ s.args.length) :
    ∃ fuel s', loop mem fuel s = some s' ∧ s'.out = s.out ++ render (tokens l) s.args ∧
      ∀ a ∈ s'.reads, a ∈ s.reads ∨ s.fmt ≤ a ∧ a ≤ s.fmt + l.length := by
  induction ht : tokens l generalizing l s with
  | nil =>
    obtain rfl := eq_nil_of_tokens_eq_nil ht
    have hend : mem s.fmt = 0 := hl
    refine ⟨1, s.deref, by rw [loop, if_pos hend], (List.append_nil _).symm, ?_⟩
    intro a ha
    simp only [deref, List.mem_append, List.mem_singleton] at ha
    simpa using ha.imp_right fun h => by omega
  | cons t ts ih =>
    rw [ht] at hdangling hargs
    obtain ⟨hne, k, rest, s1, hpass, hrest, htokens, hlen⟩ := pass_of_token hl ht
      (fun h => hdangling (h ▸ List.mem_cons_self)) (one_le_of_count hargs)
    obtain ⟨fuel, s', hloop, hout, hreads⟩ := ih hrest
      (htokens ▸ fun h => hdangling (List.mem_cons_of_mem _ h)) (htokens ▸ hpass.count_le hargs)
        htokens
    refine ⟨fuel + 1, s', ?_, ?_, ?_⟩
    · rw [loop, if_neg hne, hpass.body]
      exact hloop
    · rw [hout]
      exact hpass.out ts
    · intro a ha
      have hfmt := hpass.fmt
      rcases hreads a ha with h | h
      · rcases hpass.reads a h with h | h
        · exact .inl h
        · exact .inr (by omega)
      · exact .inr (by omega)

theorem reads_subset_body {s' : Printer} (h : s.body mem = some s') : s.reads ⊆ s'.reads := by
  intro a ha
  simp only [body] at h
  split_ifs at h
  · obtain ⟨s1, hput, rfl⟩ := Option.map_eq_some_iff.mp h
    rw [putHex] at hput
    split at hput
    · cases hput
    · split at hput
      · cases hput
      · obtain ⟨out, -, rfl⟩ := Option.map_eq_some_iff.mp hput
        simp [advance, deref, ha]
  · obtain rfl := Option.some.inj h
    simp [advance, deref, ha]
  · obtain rfl := Option.some.inj h
    simp [advance, putchar, deref, ha]

/-- The loop reads at its pointer, and what has been read stays read. -/
theorem reads_subset_loop {fuel : ℕ} {s' : Printer} (h : loop mem fuel s = some s') :
    s.deref.reads ⊆ s'.reads := by
  induction fuel generalizing s with
  | zero => cases h
  | succ fuel ih =>
    rw [loop] at h
    split_ifs at h
    · obtain rfl := Option.some.inj h
      exact List.Subset.refl _
    · obtain ⟨s1, hbody, hloop⟩ := Option.bind_eq_some_iff.mp h
      have hs1 : s1.reads ⊆ s1.deref.reads := List.subset_append_left _ _
      exact fun a ha => ih hloop (hs1 (reads_subset_body hbody ha))

/-- The `%` left over is the last character. -/
theorem eq_of_tokens_dangling {l : List Byte} {ts : List Token} (h : tokens l = .dangling :: ts) :
    l = [ch '%'] := by
  match l with
  | [] => cases h
  | [c] =>
    rw [tokens] at h
    split_ifs at h with hc
    · rw [hc]
    · cases (List.cons.inj h).1
  | c :: d :: rest =>
    rw [tokens] at h
    split_ifs at h <;> cases (List.cons.inj h).1

/-- **With a `%` left over the loop runs on.** If it ends at all, it has read behind the
terminator. -/
theorem loop_overrun {l : List Byte} (hl : StringAt mem s.fmt l) (hdangling : .dangling ∈ tokens l)
    (hargs : (tokens l).count .hex ≤ s.args.length) {fuel : ℕ} {s' : Printer}
    (hloop : loop mem fuel s = some s') : s.fmt + l.length + 1 ∈ s'.reads := by
  induction ht : tokens l generalizing l s fuel with
  | nil =>
    rw [ht] at hdangling
    exact absurd hdangling List.not_mem_nil
  | cons t ts ih =>
    obtain _ | fuel := fuel
    · cases hloop
    rw [loop] at hloop
    by_cases hd : t = .dangling
    · -- the terminator is taken for the second character of a pair
      subst hd
      obtain rfl := eq_of_tokens_dangling ht
      obtain ⟨hc, hne, hend⟩ := hl
      rw [if_neg (hc ▸ hne), body_other hc hend (by decide)] at hloop
      exact reads_subset_loop hloop (List.mem_append_right _ List.mem_cons_self)
    · rw [ht] at hdangling hargs
      obtain ⟨hne, k, rest, s1, hpass, hrest, htokens, hlen⟩ := pass_of_token hl ht hd
        (one_le_of_count hargs)
      rw [if_neg hne, hpass.body] at hloop
      have hmem : Token.dangling ∈ ts := (List.mem_cons.mp hdangling).resolve_left (Ne.symm hd)
      have := ih hrest (htokens ▸ hmem) (htokens ▸ hpass.count_le hargs) hloop htokens
      rwa [hpass.fmt, Nat.add_assoc s.fmt, hlen] at this

end Printer

/-- **`printf` prints as specified exactly if no `%` is left over.** For a string in memory and
enough arguments, it returns with the output that the format stands for, and without a read behind
the terminator, exactly if the format does not end in a `%` that is not the second character of a
pair. -/
theorem printf_asSpecified_iff {mem : ℕ → Byte} {p : ℕ} {l : List Byte} (hl : StringAt mem p l)
    {args : List Word} (hargs : (tokens l).count .hex ≤ args.length) (buffer : Buffer) :
    (∃ fuel s, printf mem fuel p args buffer = some s ∧ AsSpecified p l args s) ↔
      Token.dangling ∉ tokens l := by
  constructor
  · rintro ⟨fuel, s, hs, -, hreads⟩ hdangling
    have hread : p + l.length + 1 ∈ s.reads :=
      Printer.loop_overrun (s := ⟨p, args, buffer, [], []⟩) hl hdangling hargs hs
    have := (hreads _ hread).2
    omega
  · intro hdangling
    obtain ⟨fuel, s, hs, hout, hreads⟩ :=
      Printer.loop_render (s := ⟨p, args, buffer, [], []⟩) hl hdangling hargs
    refine ⟨fuel, s, hs, hout, fun a ha => ?_⟩
    exact (hreads a ha).resolve_left List.not_mem_nil

/-- A memory that begins with the given text. -/
def memory (text : List Byte) (a : ℕ) : Byte := text.getD a 0

/-- The end of the greeting of the configuration test. -/
def greeting : List Byte := ['C', 'r', 'o', 'c', ' ', 'v', '%', 'x', '!'].map ch

theorem printf_asSpecified_greeting :
    render (tokens greeting) [0x2a] = ['C', 'r', 'o', 'c', ' ', 'v', '2', 'A', '!'].map ch ∧
      ∃ fuel s, printf (memory greeting) fuel 0 [0x2a] (fun _ => 0) = some s ∧
        AsSpecified 0 greeting [0x2a] s := by
  have hl : StringAt (memory greeting) 0 greeting := by
    simp only [greeting, List.map_cons, List.map_nil, StringAt]
    decide
  have hhex : hexText 0x2a = [ch '2', ch 'A'] := by
    have hdigits : Nat.digits 16 42 = [10, 2] := by simp
    rw [hexText, if_neg (by decide)]
    exact congrArg (fun l => (l.map hexDigit).reverse) hdigits
  refine ⟨?_, (printf_asSpecified_iff hl (by decide) _).mpr (by decide)⟩
  have htokens : tokens greeting =
      [.char (ch 'C'), .char (ch 'r'), .char (ch 'o'), .char (ch 'c'), .char (ch ' '),
        .char (ch 'v'), .hex, .char (ch '!')] := by decide
  rw [htokens]
  simp only [render, hhex]
  rfl

/-- A format that is a lone `%`, with another string behind it. -/
def lonePercent : List Byte := [ch '%', 0, ch 'A', 0]

/-- The string behind the format is printed. -/
theorem lonePercent_overrun :
    StringAt (memory lonePercent) 0 [ch '%'] ∧ render (tokens [ch '%']) [] = [] ∧
      ∃ s, printf (memory lonePercent) 3 0 [] (fun _ => 0) = some s ∧ s.out = [ch 'A'] ∧
        2 ∈ s.reads := by
  refine ⟨⟨rfl, by decide, rfl⟩, rfl, _, rfl, rfl, by decide⟩

end Print

end Croc
