import FacetQuery.Operation
import FacetQuery.Proofs.Params.Scalar
import Mathlib.Data.List.Basic
import Mathlib.Tactic.ByContra

/-!
# Params — What a text stands for

Of a parameter's text it is not known what it is for, so it is typed by its looks alone.  A text
stays one only if it is none of three words and does not look like a number.

* `words`, `IsNumber t`: the texts that do not stay what they are.
* `Typed t v`: the text `t` is typed as `v`, by cases; `typed_scalar`: every text is typed so.
* `string_admits_scalar_iff`, `scalar_admits_scalar_iff`: which of them have the shape of a string,
  and which that of any scalar.
-/

namespace FacetQuery

open Json

/-- A whole number that is in range is the integer of that value. -/
theorem Json.Integer.ofInt?_eq_some_iff {i : Int} {n : Integer} :
    Integer.ofInt? i = some n ↔ n.val = i := by
  constructor
  · intro h
    unfold Integer.ofInt? at h
    split at h
    · cases h
      rfl
    · cases h
  · rintro rfl
    exact Integer.ofInt?_val n

namespace Params

/-- The texts that stand for null and for the booleans. -/
def words : List (List Char) := ["null".toList, "true".toList, "false".toList]

/-- `IsNumber t` says that `t` stands for a number: for a whole one that fits 64 bits with a sign,
or for a decimal whose double is finite. -/
def IsNumber (t : List Char) : Prop :=
  (∃ i, SpellsInteger t i ∧ fitsInt64 i = true) ∨
    ∃ l, Decimal.Literal.read? t = some l ∧ l.toBinary64.isFinite = true

/-- `Typed t v` says that the text `t` is typed as `v`. -/
inductive Typed : List Char → Value → Prop where
  | null : Typed "null".toList .null
  | yes : Typed "true".toList (.bool true)
  | no : Typed "false".toList (.bool false)
  | whole {t : List Char} {i : Integer} : SpellsInteger t i.val → fitsInt64 i.val = true →
      Typed t (.number (.whole i))
  /-- A whole number that does not fit is taken as a decimal. -/
  | real {t : List Char} {l : Decimal.Literal} (hfinite : l.toBinary64.isFinite = true) :
      (∀ i, SpellsInteger t i → fitsInt64 i = false) → Decimal.Literal.read? t = some l →
      Typed t (.number (.real l.toBinary64 hfinite))
  | string {t : List Char} : t ∉ words → ¬ IsNumber t → Typed t (.string (String.ofList t))

/-! ### Numbers -/

/-- What is taken for a whole number is written as one, and fits 64 bits with a sign. -/
theorem wholeNumber?_eq_some_iff {t : List Char} {n : Integer} :
    wholeNumber? t = some n ↔ SpellsInteger t n.val ∧ fitsInt64 n.val = true := by
  rw [← readInteger?_eq_some_iff, wholeNumber?]
  rcases readInteger? t with _ | i
  · simp
  · simp only [Option.some.injEq]
    split
    · next hfits =>
        rw [Integer.ofInt?_eq_some_iff, eq_comm (a := i)]
        refine (and_iff_left_of_imp ?_).symm
        rintro rfl
        exact hfits
    · next hfits =>
        refine iff_of_false (Option.some_ne_none n).symm ?_
        rintro ⟨rfl, h⟩
        exact hfits h

/-- Of a text that is no whole number, or none that fits. -/
theorem wholeNumber?_eq_none_iff {t : List Char} :
    wholeNumber? t = none ↔ ∀ i, SpellsInteger t i → fitsInt64 i = false := by
  constructor
  · intro h i hi
    by_contra hfits
    rw [Bool.not_eq_false] at hfits
    have hrange := hfits
    simp only [fitsInt64, Bool.and_eq_true, decide_eq_true_eq] at hrange
    have hsome := (wholeNumber?_eq_some_iff (n := ⟨i, hrange.1, by omega⟩)).mpr ⟨hi, hfits⟩
    cases h.symm.trans hsome
  · intro h
    refine Option.eq_none_iff_forall_ne_some.mpr fun n hn => ?_
    obtain ⟨hspells, hfits⟩ := wholeNumber?_eq_some_iff.mp hn
    cases (h _ hspells).symm.trans hfits

/-- What is taken for a decimal is read as one, and its double is finite. -/
theorem decimal?_eq_some_iff {t : List Char} {n : Number} :
    decimal? t = some n ↔ ∃ l, Decimal.Literal.read? t = some l ∧
      ∃ h : l.toBinary64.isFinite = true, n = .real l.toBinary64 h := by
  rw [decimal?, Option.bind_eq_some_iff]
  refine exists_congr fun l => and_congr_right fun _ => ?_
  rw [Number.ofBinary64?]
  split
  · next h => simp [h, eq_comm]
  · next h => simp [h]

/-! ### Texts -/

/-- **Every text is typed** by its looks: the words first, then whole numbers, then decimals, and
what is none of these stays a text. -/
theorem typed_scalar (t : List Char) : Typed t (scalar t) := by
  unfold scalar
  by_cases hnull : t = "null".toList
  · rw [if_pos hnull, hnull]
    exact .null
  by_cases htrue : t = "true".toList
  · rw [if_neg hnull, if_pos htrue, htrue]
    exact .yes
  by_cases hfalse : t = "false".toList
  · rw [if_neg hnull, if_neg htrue, if_pos hfalse, hfalse]
    exact .no
  rw [if_neg hnull, if_neg htrue, if_neg hfalse]
  -- Behind the three words: a whole number, or else a decimal, or else the text.
  rcases hwhole : wholeNumber? t with _ | n
  · have hunfit := wholeNumber?_eq_none_iff.mp hwhole
    rcases hdecimal : decimal? t with _ | n
    · refine .string ?_ ?_
      · rw [words, List.mem_cons, List.mem_pair]
        rintro (h | h | h)
        · exact hnull h
        · exact htrue h
        · exact hfalse h
      · rintro (⟨i, hi, hfits⟩ | ⟨l, hl, hfinite⟩)
        · cases (hunfit i hi).symm.trans hfits
        · cases hdecimal.symm.trans (decimal?_eq_some_iff.mpr ⟨l, hl, hfinite, rfl⟩)
    · obtain ⟨l, hl, hfinite, rfl⟩ := decimal?_eq_some_iff.mp hdecimal
      exact .real hfinite hunfit hl
  · obtain ⟨hspells, hfits⟩ := wholeNumber?_eq_some_iff.mp hwhole
    exact .whole hspells hfits

theorem not_isNumber_of_mem_words {t : List Char} (h : t ∈ words) : ¬ IsNumber t := by
  have hread : readInteger? t = none ∧ Decimal.Literal.read? t = none := by
    revert h t
    decide
  rintro (⟨i, hi, -⟩ | ⟨l, hl, -⟩)
  · cases hread.1.symm.trans (readInteger?_eq_some_iff.mpr hi)
  · cases hread.2.symm.trans hl

/-- **A text has the shape of a string** if it stays what it is: it is none of the three words and
stands for no number. -/
theorem string_admits_scalar_iff {t : List Char} :
    ValueShape.string.admits (scalar t) = true ↔ t ∉ words ∧ ¬ IsNumber t := by
  generalize hv : scalar t = v
  cases hv ▸ typed_scalar t with
  | null | yes | no => simp [ValueShape.admits, words]
  | whole hspells hfits =>
      exact iff_of_false Bool.false_ne_true fun h => h.2 (.inl ⟨_, hspells, hfits⟩)
  | real hfinite _ hread =>
      exact iff_of_false Bool.false_ne_true fun h => h.2 (.inr ⟨_, hread, hfinite⟩)
  | string hwords hnumber => exact iff_of_true rfl ⟨hwords, hnumber⟩

/-- **It has that of a scalar** unless it is the text of null. No text stands for an array or an
object. -/
theorem scalar_admits_scalar_iff {t : List Char} :
    ValueShape.scalar.admits (scalar t) = true ↔ t ≠ "null".toList := by
  have hnull : "null".toList ∈ words := List.mem_cons_self
  generalize hv : scalar t = v
  cases hv ▸ typed_scalar t with
  | null => exact iff_of_false Bool.false_ne_true fun h => h rfl
  | yes | no => exact iff_of_true rfl (by decide)
  | whole hspells hfits =>
      refine iff_of_true rfl ?_
      rintro rfl
      exact not_isNumber_of_mem_words hnull (.inl ⟨_, hspells, hfits⟩)
  | real hfinite _ hread =>
      refine iff_of_true rfl ?_
      rintro rfl
      exact not_isNumber_of_mem_words hnull (.inr ⟨_, hread, hfinite⟩)
  | string hwords _ =>
      refine iff_of_true rfl ?_
      rintro rfl
      exact hwords hnull

end Params

end FacetQuery
