import FacetQuery.Decimal.Literal
import FacetQuery.Proofs.Decimal.Layout

/-!
# Decimal — Reading whole numbers back

* `naturalText_injective`: no two natural numbers have one text.
* `readInteger?_integerText`: the text of a whole number reads as this number.
* `SpellsInteger cs i`: the other ways to write it, with a plus sign or with zeros in front;
  `readInteger?_eq_some_iff`: these are all that there are.
-/

namespace FacetQuery

theorem digitsValue_digits (n : Nat) : digitsValue (digits n) = n :=
  Nat.ofDigitChars_ten_toDigits

/-- **No two natural numbers have one text**, since the digits give the number back. -/
theorem naturalText_injective : Function.Injective naturalText := by
  intro m n h
  have hdigits : digits m = digits n := by
    rw [← toList_naturalText, h, toList_naturalText]
  rw [← digitsValue_digits m, hdigits, digitsValue_digits]

theorem splitSign_of_isDigit {cs : List Char} (h : ∀ c ∈ cs, c.isDigit = true) :
    splitSign cs = (false, cs) := by
  unfold splitSign
  split
  · exact absurd (h '-' List.mem_cons_self) (by decide)
  · exact absurd (h '+' List.mem_cons_self) (by decide)
  · rfl

/-- **The text of a whole number** reads as this number: its sign is cut off, and what is left are
digits of the absolute value. -/
theorem readInteger?_integerText (i : Int) : readInteger? (integerText i).toList = some i := by
  have spelled : digits i.natAbs ≠ [] ∧ (digits i.natAbs).all Char.isDigit = true :=
    ⟨digits_ne_nil _, List.all_eq_true.mpr fun _ => isDigit_of_mem_digits⟩
  by_cases hi : i < 0
  · rw [toList_integerText, if_pos hi, readInteger?]
    simp only [splitSign, if_pos spelled, digitsValue_digits, if_true]
    exact congrArg some (by omega)
  · rw [toList_integerText, if_neg hi, readInteger?,
      splitSign_of_isDigit fun _ => isDigit_of_mem_digits]
    simp only [if_pos spelled, digitsValue_digits, Bool.false_eq_true, if_false]
    exact congrArg some (by omega)

/-! ### Every way to write a whole number -/

/-- `AreDigits ds` says that `ds` is a row of decimal digits, one or more. -/
def AreDigits (ds : List Char) : Prop := ds ≠ [] ∧ ∀ d ∈ ds, d.isDigit = true

/-- `SpellsSign cs negative` says that `cs` is a sign or none. -/
inductive SpellsSign : List Char → Bool → Prop where
  | none : SpellsSign [] false
  | plus : SpellsSign ['+'] false
  | minus : SpellsSign ['-'] true

/-- `SpellsInteger cs i` says that `cs` writes `i` in decimal. -/
inductive SpellsInteger : List Char → Int → Prop where
  | bare {ds : List Char} : AreDigits ds → SpellsInteger ds (digitsValue ds)
  | plus {ds : List Char} : AreDigits ds → SpellsInteger ('+' :: ds) (digitsValue ds)
  | minus {ds : List Char} : AreDigits ds → SpellsInteger ('-' :: ds) (-(digitsValue ds : Int))

/-- Behind the sign, a row of digits is read, and nothing else. -/
theorem readInteger?_of_splitSign {cs ds : List Char} {negative : Bool} {i : Int}
    (h : splitSign cs = (negative, ds)) :
    readInteger? cs = some i ↔
      AreDigits ds ∧ (if negative then -(digitsValue ds : Int) else digitsValue ds) = i := by
  rw [readInteger?, h]
  simp only [AreDigits, List.all_eq_true]
  split
  · next hds => rw [Option.some.injEq, and_iff_right hds]
  · next hds => simp only [reduceCtorEq, false_iff]; exact fun h => hds h.1

/-- **Every way to write a whole number**: an optional sign and a row of digits is read as the
number that it writes, and no other text is read. -/
theorem readInteger?_eq_some_iff {cs : List Char} {i : Int} :
    readInteger? cs = some i ↔ SpellsInteger cs i := by
  constructor
  · intro h
    rcases hsplit : splitSign cs with ⟨negative, ds⟩
    obtain ⟨hds, rfl⟩ := (readInteger?_of_splitSign hsplit).mp h
    unfold splitSign at hsplit
    split at hsplit
    · cases hsplit
      exact .minus hds
    · cases hsplit
      exact .plus hds
    · cases hsplit
      exact .bare hds
  · intro h
    cases h with
    | bare hds =>
        exact (readInteger?_of_splitSign (splitSign_of_isDigit hds.2)).mpr ⟨hds, rfl⟩
    | plus hds => exact (readInteger?_of_splitSign rfl).mpr ⟨hds, rfl⟩
    | minus hds => exact (readInteger?_of_splitSign rfl).mpr ⟨hds, rfl⟩

end FacetQuery
