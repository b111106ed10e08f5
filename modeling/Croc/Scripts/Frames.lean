import Croc.Lib.ListLoop
import Mathlib.Order.Basic

/-!
# The configured frame counts

`parse_xmake_frames` of `analyze_trusted_stack.py` finds the values of `trusted_stack_frames` in the
text of `xmake.lua` with the regular expression `\btrusted_stack_frames\s*=\s*(\d+)`.

What the interpreter brings in is a parameter: its tables of Unicode characters, of which the ASCII
part is fixed here, and the limit on the length of the numbers that `int` reads. The expression
never has to backtrack, since no character is in two of the classes that meet in it, and its matches
never overlap.

## Main definitions

* `Python`: the interpreter.
* `matchFrames`, `parseXmakeFrames`: the expression, and the function.
* `Assigns`: the text assigns a value.
* `TooLong`: the text assigns a number that `int` refuses.

## Main results

* `matchFrames_eq_some`: what the expression matches.
* `mem_parseXmakeFrames`: the values that are found are those that the text assigns.
* `parseXmakeFrames_error_iff`: the function raises if some number is too long.
-/

namespace Croc

namespace TrustedStack

open ListLoop

/-! ### The interpreter -/

/-- The exceptions that leave the program. -/
inductive Raised
  | typeError
  | valueError
  deriving DecidableEq, Repr

/-- The character classes `\w`, `\s` and `\d` of text patterns, the values of the digits, and the
limit of `int` on the number of digits (zero for none). -/
structure Python where
  /-- `\w`. -/
  isWord : Char → Bool
  /-- `\s`. -/
  isSpace : Char → Bool
  /-- `\d`. -/
  isDigit : Char → Bool
  /-- The value of a digit. -/
  digit : Char → ℕ
  /-- `sys.get_int_max_str_digits()`. -/
  maxStrDigits : ℕ
  /-- No digit is a space. -/
  isSpace_of_isDigit : ∀ c, isDigit c = true → isSpace c = false
  /-- The ASCII letters and the equals sign are no spaces. -/
  isSpace_ascii : ∀ c, c.isAlpha = true ∨ c = '=' → isSpace c = false
  /-- The ASCII letters are no digits. -/
  isDigit_ascii : ∀ c, c.isAlpha = true → isDigit c = false

namespace Python

theorem le_toNat_of_isAlpha {c : Char} (h : c.isAlpha = true) : 65 ≤ c.toNat := by
  rcases Bool.or_eq_true_iff.mp h with h | h
  · exact (of_decide_eq_true h).1
  · have hlow : 97 ≤ c.toNat := of_decide_eq_true (Bool.and_eq_true_iff.mp h).1
    omega

/-- The ASCII part of the tables, with the default limit. -/
def ascii : Python where
  isWord c := c.isAlphanum || c == '_'
  isSpace c := c.toNat = 32 || (9 ≤ c.toNat && c.toNat ≤ 13) || (28 ≤ c.toNat && c.toNat ≤ 31)
  isDigit c := 48 ≤ c.toNat && c.toNat ≤ 57
  digit c := c.toNat - 48
  maxStrDigits := 4300
  isSpace_of_isDigit c h := by
    simp only [Bool.and_eq_true, decide_eq_true_eq] at h
    simp only [Bool.or_eq_false_iff, Bool.and_eq_false_iff, decide_eq_false_iff_not]
    omega
  isSpace_ascii c h := by
    have hc : 33 ≤ c.toNat := by
      rcases h with h | rfl
      · exact Nat.le_trans (by decide) (le_toNat_of_isAlpha h)
      · decide
    simp only [Bool.or_eq_false_iff, Bool.and_eq_false_iff, decide_eq_false_iff_not]
    omega
  isDigit_ascii c h := by
    have hc := le_toNat_of_isAlpha h
    simp only [Bool.and_eq_false_iff, decide_eq_false_iff_not]
    omega

variable (py : Python)

/-- `\b` between a character and the next one. -/
def boundary (prev next : Option Char) : Bool := prev.any py.isWord != next.any py.isWord

/-- `int` of digits. -/
def int (digits : List Char) : Except Raised ℕ :=
  if py.maxStrDigits ≠ 0 ∧ py.maxStrDigits < digits.length then .error .valueError
  else .ok (digits.foldl (fun n c => 10 * n + py.digit c) 0)

end Python

/-! ### The expression -/

/-- `trusted_stack_frames`. -/
def keyword : List Char := "trusted_stack_frames".toList

/-- The expression at a position: the group of digits and the length of the match. -/
def matchFrames (py : Python) : Pattern Char (List Char) := fun prev text =>
  if py.boundary prev text.head? && keyword.isPrefixOf text then
    match (text.drop keyword.length).dropWhile py.isSpace with
    | '=' :: value =>
      let number := value.dropWhile py.isSpace
      let digits := number.takeWhile py.isDigit
      if digits = [] then none
      else some (digits, text.length - (number.dropWhile py.isDigit).length)
    | _ => none
  else none

/-- `parse_xmake_frames`, on the text of the file. -/
def parseXmakeFrames (py : Python) (text : List Char) : Except Raised (List ℕ) :=
  (findIter (matchFrames py) none 0 text).mapM py.int

example :
    parseXmakeFrames .ascii
        "trusted_stack_frames = 1, Xtrusted_stack_frames=2, trusted_stack_frames=34".toList =
      .ok [1, 34] := by
  decide +kernel

/-! ### What it matches -/

/-- The text starts with an assignment of `digits` and goes on with `rest`. -/
structure Assignment (py : Python) (text digits rest : List Char) : Prop where
  /-- The name and the number, with spaces around the equals sign. -/
  shape : ∃ s₁ s₂, text = keyword ++ (s₁ ++ '=' :: (s₂ ++ (digits ++ rest))) ∧
    (∀ c ∈ s₁, py.isSpace c = true) ∧ ∀ c ∈ s₂, py.isSpace c = true
  /-- There is a digit. -/
  ne_nil : digits ≠ []
  /-- The number is a whole block of digits. -/
  block : Block py.isDigit (digits ++ rest) digits rest

variable {py : Python} {prev : Option Char} {text digits rest : List Char} {n : ℕ}

theorem matchFrames_eq_some : matchFrames py prev text = some (digits, n) ↔
    py.boundary prev text.head? = true ∧
      ∃ rest, Assignment py text digits rest ∧ n = text.length - rest.length := by
  constructor
  · intro h
    rw [matchFrames] at h
    split_ifs at h with hstart
    obtain ⟨hboundary, hkey⟩ := Bool.and_eq_true_iff.mp hstart
    obtain ⟨tail, rfl⟩ := List.isPrefixOf_iff_prefix.mp hkey
    refine ⟨hboundary, ?_⟩
    rw [List.drop_left] at h
    split at h
    next value heq =>
      dsimp only at h
      split_ifs at h with hnil
      cases h
      have hspaces := block_dropWhile py.isSpace tail
      rw [heq] at hspaces
      have hvalue := block_dropWhile py.isSpace value
      have hnumber := block_dropWhile py.isDigit (value.dropWhile py.isSpace)
      refine ⟨_, ⟨⟨_, _, ?_, hspaces.all, hvalue.all⟩, hnil, ?_⟩, rfl⟩
      · rw [← hnumber.eq, ← hvalue.eq, ← hspaces.eq]
      · rw [← hnumber.eq]
        exact hnumber
    next => cases h
  · rintro ⟨hboundary, rest, ⟨⟨s₁, s₂, rfl, hs₁, hs₂⟩, hnil, hblock⟩, rfl⟩
    -- neither the equals sign nor a digit is a space, so the blocks of spaces end there
    have hspaces : Block py.isSpace (s₁ ++ '=' :: (s₂ ++ (digits ++ rest))) s₁
        ('=' :: (s₂ ++ (digits ++ rest))) := by
      refine ⟨rfl, hs₁, ?_⟩
      rintro c ⟨⟩
      exact py.isSpace_ascii '=' (.inr rfl)
    have hvalue : Block py.isSpace (s₂ ++ (digits ++ rest)) s₂ (digits ++ rest) := by
      refine ⟨rfl, hs₂, ?_⟩
      intro c hc
      rw [List.head?_append_of_ne_nil _ hnil] at hc
      exact py.isSpace_of_isDigit c (hblock.all c (List.mem_of_mem_head? hc))
    have hkey : keyword.isPrefixOf (keyword ++ (s₁ ++ '=' :: (s₂ ++ (digits ++ rest)))) = true :=
      List.isPrefixOf_iff_prefix.mpr (List.prefix_append _ _)
    rw [matchFrames, hboundary, hkey, List.drop_left, hspaces.dropWhile_eq]
    simp only [Bool.and_self, if_true, hvalue.dropWhile_eq, hblock.takeWhile_eq,
      hblock.dropWhile_eq, if_neg hnil]

/-- Behind its first letter the name has no place where it starts again. -/
theorem keyword_once : ∀ k < 20, 1 ≤ k → keyword[k]? = some 't' →
    k < 19 ∧ keyword[k + 1]? ≠ some 'r' := by
  decide

/-- What stands between the name and the end of the number has no letter in it. -/
theorem notMem_body {s₁ s₂ : List Char} (hs₁ : ∀ c ∈ s₁, py.isSpace c = true)
    (hs₂ : ∀ c ∈ s₂, py.isSpace c = true) (hdigits : ∀ c ∈ digits, py.isDigit c = true) :
    't' ∉ s₁ ++ '=' :: (s₂ ++ digits) := by
  have hspace : py.isSpace 't' = false := py.isSpace_ascii 't' (.inl (by decide))
  have hdigit : py.isDigit 't' = false := py.isDigit_ascii 't' (by decide)
  intro hmem
  simp only [List.mem_append, List.mem_cons] at hmem
  rcases hmem with h | h | h | h
  · rw [hs₁ _ h] at hspace
    cases hspace
  · cases h
  · rw [hs₂ _ h] at hspace
    cases hspace
  · rw [hdigits _ h] at hdigit
    cases hdigit

/-- The name starts nowhere within an assignment but at its start. -/
theorem not_keyword_within {body a tail tail' : List Char} (hbody : 't' ∉ body)
    (htext : a ++ (keyword ++ tail) = keyword ++ (body ++ tail')) (hpos : 1 ≤ a.length)
    (hlt : a.length < 20 + body.length) : False := by
  have hchar : ∀ k < 20, (keyword ++ (body ++ tail'))[a.length + k]? = keyword[k]? := by
    intro k hk
    rw [← htext, List.getElem?_append_right (Nat.le_add_right _ _), Nat.add_sub_cancel_left,
      List.getElem?_append_left hk]
  have ht := hchar 0 (by decide)
  have hr := hchar 1 (by decide)
  by_cases hkey : a.length < 20
  · rw [Nat.add_zero, List.getElem?_append_left hkey] at ht
    obtain ⟨hlast, hnext⟩ := keyword_once a.length hkey hpos ht
    rw [List.getElem?_append_left (Nat.succ_lt_succ hlast)] at hr
    exact hnext hr
  · have hkey' : keyword.length ≤ a.length := Nat.le_of_not_lt hkey
    rw [Nat.add_zero, List.getElem?_append_right hkey', List.getElem?_append_left] at ht
    · exact hbody (List.mem_of_getElem? ht)
    · exact Nat.sub_lt_left_of_lt_add hkey' hlt

/-- **Matches do not overlap.** -/
theorem nonOverlapping_matchFrames (py : Python) : NonOverlapping (matchFrames py) := by
  intro prev c a d rest digits n h hlt
  by_contra hmatch
  obtain ⟨⟨digits', n'⟩, hmatch⟩ := Option.ne_none_iff_exists'.mp hmatch
  obtain ⟨-, rest₁, ⟨⟨s₁, s₂, htext, hs₁, hs₂⟩, -, hblock⟩, rfl⟩ := matchFrames_eq_some.mp h
  obtain ⟨-, rest₂, ⟨⟨s₃, s₄, htext', -, -⟩, -, -⟩, -⟩ := matchFrames_eq_some.mp hmatch
  have hsame : (c :: a) ++ (keyword ++ (s₃ ++ '=' :: (s₄ ++ (digits' ++ rest₂)))) =
      keyword ++ ((s₁ ++ '=' :: (s₂ ++ digits)) ++ rest₁) := by
    rw [← htext', List.cons_append, htext]
    simp only [List.append_assoc, List.cons_append]
  refine not_keyword_within (notMem_body hs₁ hs₂ hblock.all) hsame (Nat.succ_pos _) ?_
  have hkey : keyword.length = 20 := rfl
  rw [htext] at hlt
  simp only [List.length_append, List.length_cons, hkey] at hlt ⊢
  omega

/-! ### The values that are found -/

/-- The text assigns the value `v` to `trusted_stack_frames`, somewhere. -/
def Assigns (py : Python) (text : List Char) (v : ℕ) : Prop :=
  ∃ pre found digits rest, text = pre ++ found ∧ py.boundary pre.getLast? found.head? = true ∧
    Assignment py found digits rest ∧ py.int digits = .ok v

/-- The text assigns a number with more digits than `int` reads, somewhere. -/
def TooLong (py : Python) (text : List Char) : Prop :=
  ∃ pre found digits rest, text = pre ++ found ∧ py.boundary pre.getLast? found.head? = true ∧
    Assignment py found digits rest ∧ py.maxStrDigits ≠ 0 ∧ py.maxStrDigits < digits.length

/-- **The groups that are found are the numbers of the assignments.** -/
theorem mem_findIter_matchFrames : digits ∈ findIter (matchFrames py) none 0 text ↔
    ∃ pre found rest, text = pre ++ found ∧ py.boundary pre.getLast? found.head? = true ∧
      Assignment py found digits rest := by
  rw [mem_findIter (nonOverlapping_matchFrames py)]
  constructor
  · rintro ⟨pre, c, rest, n, rfl, hm⟩
    obtain ⟨hboundary, rest', hassign, -⟩ := matchFrames_eq_some.mp hm
    exact ⟨pre, c :: rest, rest', rfl, hboundary, hassign⟩
  · rintro ⟨pre, found, rest, rfl, hboundary, hassign⟩
    cases found with
    | nil =>
      obtain ⟨s₁, s₂, htext, -⟩ := hassign.shape
      cases htext
    | cons c tail =>
      exact ⟨pre, c, tail, _, rfl, matchFrames_eq_some.mpr ⟨hboundary, rest, hassign, rfl⟩⟩

/-- **The values that are found are those that the text assigns.** -/
theorem mem_parseXmakeFrames {values : List ℕ} {v : ℕ} (h : parseXmakeFrames py text = .ok values) :
    v ∈ values ↔ Assigns py text v := by
  rw [mem_of_mapM_ok h]
  simp only [mem_findIter_matchFrames]
  constructor
  · rintro ⟨digits, ⟨pre, found, rest, htext, hboundary, hassign⟩, hv⟩
    exact ⟨pre, found, digits, rest, htext, hboundary, hassign, hv⟩
  · rintro ⟨pre, found, digits, rest, htext, hboundary, hassign, hv⟩
    exact ⟨digits, ⟨pre, found, rest, htext, hboundary, hassign⟩, hv⟩

theorem int_error_iff : (∃ e, py.int digits = .error e) ↔
    py.maxStrDigits ≠ 0 ∧ py.maxStrDigits < digits.length := by
  rw [Python.int]
  split_ifs with hlong
  · exact iff_of_true ⟨_, rfl⟩ hlong
  · refine iff_of_false ?_ hlong
    rintro ⟨e, ⟨⟩⟩

/-- **The function raises if some number is too long.** -/
theorem parseXmakeFrames_error_iff :
    (∃ e, parseXmakeFrames py text = .error e) ↔ TooLong py text := by
  rw [parseXmakeFrames, mapM_error_iff]
  simp only [mem_findIter_matchFrames, int_error_iff]
  constructor
  · rintro ⟨digits, ⟨pre, found, rest, htext, hboundary, hassign⟩, hlong⟩
    exact ⟨pre, found, digits, rest, htext, hboundary, hassign, hlong⟩
  · rintro ⟨pre, found, digits, rest, htext, hboundary, hassign, hlong⟩
    exact ⟨digits, ⟨pre, found, rest, htext, hboundary, hassign⟩, hlong⟩

end TrustedStack

end Croc
