import FacetQuery.Decimal.Layout

/-!
# Decimal — The characters of a number

However a number is spelled, its text is not empty and made of letters, digits, signs and points.

* `isDigit_of_mem_digits`, `digits_ne_nil`: the digits of a natural number.
* `Layout.isNumeral_of_mem_chars`, `Layout.chars_ne_nil`: a double in any layout.
* `isNumeral_of_mem_integerText`: a whole number.
* `LeadsNumber`: how the text of a number begins, `leadsNumber_integerText` that of a whole one,
  `Layout.leadsNumber_chars` that of a double.
-/

namespace FacetQuery

/-- `isNumeral c`: `c` is a letter, a digit, a sign or a point. -/
def isNumeral (c : Char) : Bool :=
  c.isAlphanum || c == '-' || c == '+' || c == '.'

theorem isNumeral_of_isDigit {c : Char} (h : c.isDigit = true) : isNumeral c = true := by
  simp [isNumeral, Char.isAlphanum, h]

/-! ### Whole numbers -/

theorem isDigit_of_mem_digits {n : Nat} {c : Char} (h : c ∈ digits n) : c.isDigit = true :=
  Nat.isDigit_of_mem_toDigits (by decide) (by decide) h

theorem digits_ne_nil (n : Nat) : digits n ≠ [] := Nat.toDigits_ne_nil

theorem isNumeral_of_mem_digits {n : Nat} {c : Char} (h : c ∈ digits n) : isNumeral c = true :=
  isNumeral_of_isDigit (isDigit_of_mem_digits h)

theorem toList_naturalText (n : Nat) : (naturalText n).toList = digits n :=
  String.toList_ofList

theorem toList_integerText (i : Int) :
    (integerText i).toList = if i < 0 then '-' :: digits i.natAbs else digits i.natAbs :=
  String.toList_ofList

theorem isNumeral_of_mem_integerText {i : Int} {c : Char} (h : c ∈ (integerText i).toList) :
    isNumeral c = true := by
  rw [toList_integerText] at h
  split at h
  · rcases List.mem_cons.mp h with rfl | h
    · rfl
    · exact isNumeral_of_mem_digits h
  · exact isNumeral_of_mem_digits h

theorem integerText_toList_ne_nil (i : Int) : (integerText i).toList ≠ [] := by
  rw [toList_integerText]
  split
  · exact List.cons_ne_nil _ _
  · exact digits_ne_nil _

/-! ### Doubles -/

namespace Layout

/-- Digits written without an exponent: zeros behind them, a point among them, or a zero, a point
and more zeros in front. -/
theorem isNumeral_of_mem_positional {l : Layout} {ds : List Char} {k : Int} {c : Char}
    (hds : ∀ d ∈ ds, isNumeral d = true) (h : c ∈ l.positional ds k) : isNumeral c = true := by
  have zero : isNumeral '0' = true := rfl
  have point : isNumeral '.' = true := rfl
  simp only [positional] at h
  split at h
  · simp only [List.mem_append, List.mem_replicate] at h
    rcases h with (h | ⟨-, rfl⟩) | h
    · exact hds c h
    · exact zero
    · split at h
      · rcases List.mem_cons.mp h with rfl | h
        · exact point
        · exact List.mem_singleton.mp h ▸ zero
      · exact absurd h List.not_mem_nil
  · split at h
    · simp only [List.mem_append, List.mem_cons] at h
      rcases h with h | rfl | h
      · exact hds c (List.mem_of_mem_take h)
      · exact point
      · exact hds c (List.mem_of_mem_drop h)
    · simp only [List.mem_cons, List.mem_append, List.mem_replicate] at h
      rcases h with rfl | rfl | ⟨-, rfl⟩ | h
      · exact zero
      · exact point
      · exact zero
      · exact hds c h

theorem positional_ne_nil (l : Layout) {ds : List Char} (hds : ds ≠ []) (k : Int) :
    l.positional ds k ≠ [] := by
  simp only [positional]
  split
  · simp [hds]
  · split <;> simp

/-- Digits written with an exponent. The letter and the sign in front of the exponent are numerals
too. -/
theorem isNumeral_of_mem_scientific {ds : List Char} {e : Int} {c : Char}
    (hds : ∀ d ∈ ds, isNumeral d = true) (h : c ∈ scientific ds e) : isNumeral c = true := by
  rcases List.mem_append.mp h with h | h
  · match ds with
    | []            => exact absurd h List.not_mem_nil
    | [d]           => exact hds c h
    | d :: d' :: ds =>
        rcases List.mem_cons.mp h with rfl | h
        · exact hds _ List.mem_cons_self
        · rcases List.mem_cons.mp h with rfl | h
          · rfl
          · exact hds c (List.mem_cons_of_mem d h)
  · rcases List.mem_cons.mp h with rfl | h
    · rfl
    · rcases List.mem_cons.mp h with rfl | h
      · split <;> rfl
      · exact isNumeral_of_mem_digits h

theorem scientific_ne_nil (ds : List Char) (e : Int) : scientific ds e ≠ [] := by
  simp [scientific]

/-- The absolute value of a double is a zero, or its shortest digits written in one of the two ways.
-/
theorem isNumeral_of_mem_unsigned {l : Layout} {x : Binary64} {c : Char} (h : c ∈ l.unsigned x) :
    isNumeral c = true := by
  simp only [unsigned] at h
  split at h
  · exact isNumeral_of_mem_positional (by simp [isNumeral]) h
  · split at h
    · exact isNumeral_of_mem_positional (fun _ => isNumeral_of_mem_digits) h
    · exact isNumeral_of_mem_scientific (fun _ => isNumeral_of_mem_digits) h

theorem unsigned_ne_nil (l : Layout) (x : Binary64) : l.unsigned x ≠ [] := by
  simp only [unsigned]
  split
  · exact positional_ne_nil l (List.cons_ne_nil _ _) 0
  · split
    · exact positional_ne_nil l (digits_ne_nil _) _
    · exact scientific_ne_nil _ _

/-- **A double has numerals only**, whatever the layout and whether it is finite or not: the letters
of `NaN` and `inf` count as well. -/
theorem isNumeral_of_mem_chars {l : Layout} {x : Binary64} {c : Char} (h : c ∈ l.chars x) :
    isNumeral c = true := by
  have nan : "NaN".toList.all isNumeral = true := by decide
  have inf : "inf".toList.all isNumeral = true := by decide
  have absolute : c ∈ (if x.isFinite then l.unsigned x else "inf".toList) →
      isNumeral c = true := by
    intro h
    split at h
    · exact isNumeral_of_mem_unsigned h
    · exact List.all_eq_true.mp inf c h
  simp only [chars] at h
  split at h
  · exact List.all_eq_true.mp nan c h
  · split at h
    · rcases List.mem_cons.mp h with rfl | h
      · rfl
      · exact absolute h
    · exact absolute h

theorem chars_ne_nil (l : Layout) (x : Binary64) : l.chars x ≠ [] := by
  simp only [chars]
  split
  · decide
  · split
    · exact List.cons_ne_nil _ _
    · split
      · exact unsigned_ne_nil l x
      · decide

theorem toList_text (l : Layout) (x : Binary64) : (l.text x).toList = l.chars x :=
  String.toList_ofList

end Layout

/-! ### The first character -/

/-- `LeadsNumber cs`: `cs` begins with a digit, a minus sign, or the first letter of `NaN` or
`inf`. -/
def LeadsNumber (cs : List Char) : Prop :=
  ∃ c rest, cs = c :: rest ∧ (c.isDigit = true ∨ c ∈ ['-', 'N', 'i'])

theorem leadsNumber_cons_of_isDigit {c : Char} (h : c.isDigit = true) (cs : List Char) :
    LeadsNumber (c :: cs) :=
  ⟨c, cs, rfl, .inl h⟩

theorem exists_digits_eq_cons (n : Nat) : ∃ d ds, digits n = d :: ds ∧ d.isDigit = true := by
  obtain ⟨d, ds, h⟩ := List.exists_cons_of_ne_nil (digits_ne_nil n)
  exact ⟨d, ds, h, isDigit_of_mem_digits (h ▸ List.mem_cons_self)⟩

theorem leadsNumber_digits (n : Nat) : LeadsNumber (digits n) := by
  obtain ⟨d, ds, h, hd⟩ := exists_digits_eq_cons n
  exact h ▸ leadsNumber_cons_of_isDigit hd ds

/-- **A whole number** begins as numbers do. -/
theorem leadsNumber_integerText (i : Int) : LeadsNumber (integerText i).toList := by
  rw [toList_integerText]
  split
  · exact ⟨'-', _, rfl, .inr List.mem_cons_self⟩
  · exact leadsNumber_digits _

namespace Layout

/-- Digits without an exponent begin with the first of them, or with a zero before the point. -/
theorem leadsNumber_positional (l : Layout) {d : Char} (hd : d.isDigit = true) (ds : List Char)
    (k : Int) : LeadsNumber (l.positional (d :: ds) k) := by
  simp only [positional]
  split
  · exact leadsNumber_cons_of_isDigit hd _
  · split
    · next hpoint =>
        obtain ⟨n, hn⟩ := Nat.exists_eq_succ_of_ne_zero (Nat.pos_iff_ne_zero.mp
          (Int.pos_iff_toNat_pos.mp hpoint))
        rw [hn, List.take_succ_cons]
        exact leadsNumber_cons_of_isDigit hd _
    · exact leadsNumber_cons_of_isDigit rfl _

theorem leadsNumber_scientific {d : Char} (hd : d.isDigit = true) (ds : List Char) (e : Int) :
    LeadsNumber (scientific (d :: ds) e) := by
  cases ds <;> exact leadsNumber_cons_of_isDigit hd _

theorem leadsNumber_unsigned (l : Layout) (x : Binary64) : LeadsNumber (l.unsigned x) := by
  simp only [unsigned]
  split
  · exact leadsNumber_positional l rfl [] 0
  · obtain ⟨d, ds, h, hd⟩ := exists_digits_eq_cons (x.shortest l.tie).digits
    rw [h]
    split
    · exact leadsNumber_positional l hd ds _
    · exact leadsNumber_scientific hd ds _

/-- **A double** begins as numbers do: with a digit, a minus sign, or the first letter of `NaN` or
`inf`. -/
theorem leadsNumber_chars (l : Layout) (x : Binary64) : LeadsNumber (l.chars x) := by
  simp only [chars]
  split
  · exact ⟨'N', _, rfl, by decide⟩
  · split
    · exact ⟨'-', _, rfl, by decide⟩
    · split
      · exact leadsNumber_unsigned l x
      · exact ⟨'i', _, rfl, by decide⟩

end Layout

end FacetQuery
