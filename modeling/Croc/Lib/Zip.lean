import Mathlib.Data.List.Basic
import Mathlib.Data.List.Infix

/-!
# Prefixes and zips

Of a stream only a prefix is known at any time. Two streams that are read in step are zipped, and a
zip goes as far as both of its lists do.

## Main results

* `zip_prefix_zip`: prefixes have a prefix as their zip.
* `map_fst_zip_isPrefix`: the first components are a prefix.
* `zip_map_zip`: zipping a list with what was computed from a zip of it.
-/

namespace Zip

variable {α β γ : Type*}

/-- Zipping what is known of two streams gives what is known of their zip. -/
theorem zip_prefix_zip {A A' : List α} {B B' : List β} (hA : A <+: A') (hB : B <+: B') :
    A.zip B <+: A'.zip B' := by
  induction A generalizing A' B B' with
  | nil => exact List.nil_prefix
  | cons a A ih =>
    cases B with
    | nil => exact List.nil_prefix
    | cons b B =>
      obtain ⟨R, rfl⟩ := hA
      obtain ⟨S, rfl⟩ := hB
      exact List.cons_prefix_cons.mpr ⟨rfl, ih (List.prefix_append A R) (List.prefix_append B S)⟩

theorem map_fst_zip_isPrefix (A : List α) (B : List β) : (A.zip B).map Prod.fst <+: A := by
  induction A generalizing B with
  | nil => exact List.nil_prefix
  | cons a A ih =>
    cases B with
    | nil => exact List.nil_prefix
    | cons b B => exact List.cons_prefix_cons.mpr ⟨rfl, ih B⟩

theorem zip_map_zip (A : List α) (B : List β) (g : α × β → γ) :
    A.zip ((A.zip B).map g) = (A.zip B).map fun x => (x.1, g x) := by
  induction A generalizing B with
  | nil => rfl
  | cons a A ih =>
    cases B with
    | nil => rfl
    | cons b B => exact congrArg ((a, g (a, b)) :: ·) (ih B)

/-- What is known of a stream stays. -/
theorem getElem?_of_isPrefix {A B : List α} (h : A <+: B) {j : ℕ} {a : α} (ha : A[j]? = some a) :
    B[j]? = some a := by
  obtain ⟨R, rfl⟩ := h
  rw [List.getElem?_append_left (List.getElem?_eq_some_iff.mp ha).1, ha]

/-- What comes after prefixes of equal length. -/
theorem prefix_of_append_isPrefix {A B C D : List α} (hlen : A.length = C.length)
    (h : A ++ B <+: C ++ D) :
    B <+: D := by
  obtain ⟨R, hR⟩ := h
  rw [List.append_assoc] at hR
  exact ⟨R, (List.append_inj hR hlen).2⟩

end Zip
