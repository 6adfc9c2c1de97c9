import FacetQuery.Params.Scalar
import FacetQuery.Proofs.Decimal.Integer

/-!
# Params — Reading scalars back

* `IsScalar v`: null, a boolean, a whole number that fits 64 bits with a sign, or a string that does
  not read as anything else.
* `scalar_scalarText`: the text of such a value stands for this value.
-/

namespace FacetQuery.Params

open Json

/-- `IsScalar v`: `v` is a value that a parameter's text can stand for. -/
inductive IsScalar : Value → Prop where
  | null : IsScalar .null
  | bool (b : Bool) : IsScalar (.bool b)
  | whole {i : Integer} : fitsInt64 i.val = true → IsScalar (.number (.whole i))
  | string {s : String} : scalar s.toList = .string s → IsScalar (.string s)

/-- `scalarText v` is the text of a scalar; arrays and objects have none. -/
def scalarText : Value → List Char
  | .null       => "null".toList
  | .bool true  => "true".toList
  | .bool false => "false".toList
  | .number n   => n.text.toList
  | .string s   => s.toList
  | .array _    => []
  | .object _   => []

/-- The text of a whole number is no word that does not read as one. -/
theorem integerText_ne {i : Int} {word : List Char} (hw : readInteger? word = none) :
    (integerText i).toList ≠ word := by
  rintro rfl
  cases (readInteger?_integerText i).symm.trans hw

/-- The text of a whole number that fits is taken for this number. -/
theorem wholeNumber?_integerText {i : Integer} (h : fitsInt64 i.val = true) :
    wholeNumber? (integerText i.val).toList = some i := by
  rw [wholeNumber?, readInteger?_integerText]
  simp only [h, if_true, Integer.ofInt?_val]

/-- **The text of a scalar** stands for this scalar. -/
theorem scalar_scalarText {v : Value} (h : IsScalar v) : scalar (scalarText v) = v := by
  cases h with
  | null     => decide
  | bool b   => cases b <;> decide
  | string h => exact h
  | whole h  =>
      rw [scalarText, Number.text, scalar, if_neg (integerText_ne (by decide)),
        if_neg (integerText_ne (by decide)), if_neg (integerText_ne (by decide)),
        wholeNumber?_integerText h]

end FacetQuery.Params
