import FacetQuery.Proofs.Decimal.Literal
import FacetQuery.Proofs.Params.Typing

/-!
# Params — The value of a text

What a text is typed as, from the text itself: three words, the whole numbers that fit, the decimals
that have a finite double. Of nothing else is it taken for a number, whatever other spellings of
numbers there are.

* `Means t v`: the text `t` means `v`, by the grammar of numbers and by their size.
* `scalar_eq_iff_means`: this is what it is typed as.
-/

namespace FacetQuery.Params

open Json

variable {t : List Char}

/-- `InInt64 i`: the whole number `i` fits 64 bits, one of them for the sign. -/
def InInt64 (i : Int) : Prop := -2 ^ 63 ≤ i ∧ i ≤ 2 ^ 63 - 1

/-- `Means t v` says that the text `t` means the value `v`. -/
inductive Means : List Char → Value → Prop where
  | null : Means "null".toList .null
  | yes : Means "true".toList (.bool true)
  | no : Means "false".toList (.bool false)
  | whole {t : List Char} {i : Integer} : SpellsInteger t i.val → InInt64 i.val →
      Means t (.number (.whole i))
  /-- Any other decimal means the double nearest to it, if this is finite. -/
  | real {t : List Char} {negative : Bool} {q : ℚ} {x : Binary64} (hfinite : x.isFinite = true) :
      (∀ i, SpellsInteger t i → ¬ InInt64 i) → SpellsDecimal t negative q →
      q < 2 ^ 1024 - 2 ^ 970 → x.Rounds negative (if negative then -q else q) →
      Means t (.number (.real x hfinite))
  /-- Any other text means itself. -/
  | string {t : List Char} : t ∉ words → (∀ i, SpellsInteger t i → ¬ InInt64 i) →
      (∀ negative q, SpellsDecimal t negative q → ¬ q < 2 ^ 1024 - 2 ^ 970) →
      Means t (.string (String.ofList t))

theorem fitsInt64_iff {i : Int} : fitsInt64 i = true ↔ InInt64 i := by
  rw [fitsInt64, InInt64, Bool.and_eq_true, decide_eq_true_eq, decide_eq_true_eq]
  omega

/-- A text is taken for no whole number if it writes none that fits. -/
theorem wholeNumber?_eq_none_iff_not_inInt64 :
    wholeNumber? t = none ↔ ∀ i, SpellsInteger t i → ¬ InInt64 i := by
  rw [wholeNumber?_eq_none_iff]
  refine forall_congr' fun i => imp_congr_right fun _ => ?_
  rw [← fitsInt64_iff, Bool.not_eq_true]

/-- A decimal is taken for the nearest double, if this is finite. -/
theorem decimal?_eq_some {negative : Bool} {q : ℚ} {x : Binary64} (hfinite : x.isFinite = true)
    (hspells : SpellsDecimal t negative q) (hq : q < 2 ^ 1024 - 2 ^ 970)
    (hx : x.Rounds negative (if negative then -q else q)) :
    decimal? t = some (.real x hfinite) := by
  obtain ⟨l, hl, rfl, rfl⟩ := hspells.exists_read?
  have hdigits := (spellsDecimal_of_read? hl).2
  have hlfinite := (Decimal.Literal.isFinite_toBinary64_iff hdigits).mpr hq
  obtain rfl := (Decimal.Literal.rounds_toBinary64 hdigits hlfinite).unique hx hlfinite hfinite
  exact decimal?_eq_some_iff.mpr ⟨l, hl, hfinite, rfl⟩

/-- A text is taken for no decimal if it writes none below half a gap above the greatest double. -/
theorem decimal?_eq_none_iff :
    decimal? t = none ↔ ∀ negative q, SpellsDecimal t negative q → ¬ q < 2 ^ 1024 - 2 ^ 970 := by
  constructor
  · intro h negative q hspells hq
    obtain ⟨l, hl, rfl, rfl⟩ := hspells.exists_read?
    have hfinite :=
      (Decimal.Literal.isFinite_toBinary64_iff (spellsDecimal_of_read? hl).2).mpr hq
    cases h.symm.trans (decimal?_eq_some_iff.mpr ⟨l, hl, hfinite, rfl⟩)
  · intro h
    refine Option.eq_none_iff_forall_ne_some.mpr fun n hn => ?_
    obtain ⟨l, hl, hfinite, -⟩ := decimal?_eq_some_iff.mp hn
    obtain ⟨hspells, hdigits⟩ := spellsDecimal_of_read? hl
    exact h _ _ hspells ((Decimal.Literal.isFinite_toBinary64_iff hdigits).mp hfinite)

/-- But for the three words, whole numbers are tried first, then decimals, and what is neither stays
a text. -/
theorem scalar_of_not_mem_words (h : t ∉ words) :
    scalar t = match wholeNumber? t with
      | some i => .number (.whole i)
      | none   => match decimal? t with
        | some n => .number n
        | none   => .string (String.ofList t) := by
  rw [words, List.mem_cons, List.mem_pair, not_or, not_or] at h
  exact (if_neg h.1).trans ((if_neg h.2.1).trans (if_neg h.2.2))

theorem not_mem_words_of_wholeNumber? {i : Integer} (h : wholeNumber? t = some i) : t ∉ words :=
  fun hmem => not_isNumber_of_mem_words hmem (.inl ⟨i.val, wholeNumber?_eq_some_iff.mp h⟩)

theorem not_mem_words_of_decimal? {n : Number} (h : decimal? t = some n) : t ∉ words := by
  obtain ⟨l, hl, hfinite, -⟩ := decimal?_eq_some_iff.mp h
  exact fun hmem => not_isNumber_of_mem_words hmem (.inr ⟨l, hl, hfinite⟩)

/-- **A text is typed as what it means**, and every text means one thing. -/
theorem scalar_eq_iff_means {t : List Char} {v : Value} : scalar t = v ↔ Means t v := by
  constructor
  · intro h
    -- Every text is typed by one of these cases, and in each of them that is what it means.
    cases h ▸ typed_scalar t with
    | null => exact .null
    | yes => exact .yes
    | no => exact .no
    | whole hspells hfits => exact .whole hspells (fitsInt64_iff.mp hfits)
    | real hfinite hunfit hread =>
        obtain ⟨hspells, hdigits⟩ := spellsDecimal_of_read? hread
        exact .real hfinite
          (wholeNumber?_eq_none_iff_not_inInt64.mp (wholeNumber?_eq_none_iff.mpr hunfit)) hspells
          ((Decimal.Literal.isFinite_toBinary64_iff hdigits).mp hfinite)
          (Decimal.Literal.rounds_toBinary64 hdigits hfinite)
    | string hwords hnumber =>
        refine .string hwords (fun i hi hin => hnumber (.inl ⟨i, hi, fitsInt64_iff.mpr hin⟩)) ?_
        intro negative q hspells hq
        obtain ⟨l, hl, rfl, rfl⟩ := hspells.exists_read?
        exact hnumber (.inr ⟨l, hl,
          (Decimal.Literal.isFinite_toBinary64_iff (spellsDecimal_of_read? hl).2).mpr hq⟩)
  · intro h
    cases h with
    | null | yes | no => rfl
    | whole hspells hin =>
        -- Whole numbers are tried before decimals, although they are decimals too.
        have hwhole := wholeNumber?_eq_some_iff.mpr ⟨hspells, fitsInt64_iff.mpr hin⟩
        rw [scalar_of_not_mem_words (not_mem_words_of_wholeNumber? hwhole), hwhole]
    | real hfinite hunfit hspells hq hx =>
        have hdecimal := decimal?_eq_some hfinite hspells hq hx
        rw [scalar_of_not_mem_words (not_mem_words_of_decimal? hdecimal),
          wholeNumber?_eq_none_iff_not_inInt64.mpr hunfit, hdecimal]
    | string hwords hunfit hlarge =>
        rw [scalar_of_not_mem_words hwords, wholeNumber?_eq_none_iff_not_inInt64.mpr hunfit,
          decimal?_eq_none_iff.mpr hlarge]

example : ["inf", "NaN", "infinity", "1.2.3", "", "+", "-", ".", "e", "-.", ".e1", "1e"].all
    (fun s => scalar s.toList == .string s) = true := by decide

end FacetQuery.Params
