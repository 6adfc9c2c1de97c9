import FacetQuery.Proofs.Decimal.Integer
import FacetQuery.Proofs.Decimal.Nearest
import FacetQuery.Proofs.Json.Reader.Decimals
import Mathlib.Data.List.TakeWhile

/-!
# Decimal — Literals

Decimals as they are written: a sign or none, digits with at most one point before, among or behind
them, and an exponent or none.

* `SpellsDecimal cs negative q`: `cs` writes the number `q`, with a sign in front of it;
  `spellsDecimal_iff`: these are the texts that are read.
* `Decimal.Literal.isFinite_toBinary64_iff`: a number below `2 ^ 1024 - 2 ^ 970` has a finite
  double.
* `Decimal.Literal.rounds_toBinary64`: this is the nearest double.
-/

namespace FacetQuery

open Decimal (Literal)
open Json.Reader (Stops)

/-! ### Every way to write a decimal -/

/-- `SpellsMantissa cs whole fraction` says that `cs` are the digits `whole`, and the digits
`fraction` behind a point. One of the two may be missing, and the point if `fraction` is. -/
inductive SpellsMantissa : List Char → List Char → List Char → Prop where
  | whole {ds : List Char} : AreDigits ds → SpellsMantissa ds ds []
  | pointed {ds fs : List Char} : AreDigits ds → (∀ d ∈ fs, d.isDigit = true) →
      SpellsMantissa (ds ++ '.' :: fs) ds fs
  | fraction {fs : List Char} : AreDigits fs → SpellsMantissa ('.' :: fs) [] fs

/-- `SpellsExponent cs e` says that `cs` is the exponent `e`, or empty. -/
inductive SpellsExponent : List Char → Int → Prop where
  | none : SpellsExponent [] 0
  | some {c : Char} {cs : List Char} {e : Int} : c = 'e' ∨ c = 'E' → SpellsInteger cs e →
      SpellsExponent (c :: cs) e

/-- `SpellsDecimal cs negative q` says that `cs` writes the number `q`, behind a minus sign if
`negative` is set. -/
inductive SpellsDecimal : List Char → Bool → ℚ → Prop where
  | intro {sign mantissa exponent whole fraction : List Char} {negative : Bool} {e : Int} :
      SpellsSign sign negative → SpellsMantissa mantissa whole fraction →
      SpellsExponent exponent e →
      SpellsDecimal (sign ++ (mantissa ++ exponent)) negative
        ((digitsValue whole + digitsValue fraction / 10 ^ fraction.length) * 10 ^ e)

/-! ### Reading -/

/-- `value l` is the absolute value of the number `l`. -/
def Decimal.Literal.value (l : Literal) : ℚ :=
  digitsValue l.digits * 10 ^ l.exponent

/-- Digits around a point, with an exponent: the digits behind the point count towards it, one each.
-/
theorem value_mk (negative : Bool) (whole fraction : List Char) (e : Int) :
    Literal.value ⟨negative, whole ++ fraction, e - fraction.length⟩ =
      (digitsValue whole + digitsValue fraction / 10 ^ fraction.length) * 10 ^ e := by
  have happend : digitsValue (whole ++ fraction) =
      10 ^ fraction.length * digitsValue whole + digitsValue fraction :=
    (Nat.ofDigitChars_append 0).trans Nat.ofDigitChars_eq_ofDigitChars_zero
  have hpow : (10 : ℚ) ^ fraction.length ≠ 0 := pow_ne_zero _ (by norm_num)
  rw [Literal.value, happend, zpow_sub₀ (by norm_num), zpow_natCast]
  push_cast
  field_simp

/-- A row of digits is cut off in front of what is none. -/
theorem span_isDigit {ds cs : List Char} (hds : ∀ d ∈ ds, d.isDigit = true) (hcs : Stops cs) :
    (ds ++ cs).takeWhile Char.isDigit = ds ∧ (ds ++ cs).dropWhile Char.isDigit = cs := by
  have hstop : cs.takeWhile Char.isDigit = [] ∧ cs.dropWhile Char.isDigit = cs := by
    cases cs with
    | nil => exact ⟨rfl, rfl⟩
    | cons c cs =>
        have hc : ¬ c.isDigit = true := by simp [hcs c rfl]
        exact ⟨List.takeWhile_cons_of_neg hc, List.dropWhile_cons_of_neg hc⟩
  rw [List.takeWhile_append_of_pos hds, List.dropWhile_append_of_pos hds, hstop.1, hstop.2,
    List.append_nil]
  exact ⟨rfl, rfl⟩

/-- A sign is cut off in front of a digit or a point, neither of which is one. -/
theorem SpellsSign.splitSign_append {sign body : List Char} {negative : Bool}
    (h : SpellsSign sign negative) (hbody : ∀ c ∈ body.head?, c.isDigit = true ∨ c = '.') :
    splitSign (sign ++ body) = (negative, body) := by
  cases h with
  | plus | minus => rfl
  | none =>
      rw [List.nil_append]
      unfold splitSign
      split
      · rcases hbody '-' rfl with h | h <;> exact absurd h (by decide)
      · rcases hbody '+' rfl with h | h <;> exact absurd h (by decide)
      · rfl

/-- What is cut off is a sign or nothing. -/
theorem exists_spellsSign {cs body : List Char} {negative : Bool}
    (h : splitSign cs = (negative, body)) :
    ∃ sign, SpellsSign sign negative ∧ cs = sign ++ body := by
  unfold splitSign at h
  split at h
  · cases h
    exact ⟨_, .minus, rfl⟩
  · cases h
    exact ⟨_, .plus, rfl⟩
  · cases h
    exact ⟨_, .none, rfl⟩

/-- An exponent begins with a letter `e`, so it is not taken for more digits. -/
theorem SpellsExponent.head_eq {cs : List Char} {e : Int} (h : SpellsExponent cs e) :
    ∀ c ∈ cs.head?, c = 'e' ∨ c = 'E' := by
  cases h with
  | none => exact nofun
  | some hc _ =>
      rintro _ ⟨⟩
      exact hc

theorem SpellsExponent.stops {cs : List Char} {e : Int} (h : SpellsExponent cs e) : Stops cs := by
  intro c hc
  rcases h.head_eq c hc with rfl | rfl <;> rfl

/-- An exponent is read if it is written as one, or if there is none at all. A letter without digits
behind it is no exponent. -/
theorem readExponent?_eq_some_iff {cs : List Char} {e : Int} :
    Literal.readExponent? cs = some e ↔ SpellsExponent cs e := by
  cases cs with
  | nil =>
      rw [Literal.readExponent?, Option.some.injEq]
      constructor
      · rintro rfl
        exact .none
      · rintro ⟨⟩
        rfl
  | cons c cs =>
      rw [Literal.readExponent?]
      split
      · next hc =>
          rw [readInteger?_eq_some_iff]
          constructor
          · exact .some hc
          · rintro (_ | ⟨-, h⟩)
            exact h
      · next hc =>
          refine iff_of_false nofun ?_
          rintro (_ | ⟨h, -⟩)
          exact hc h

/-- `Split body whole fraction tail`: this is what is cut off in front of an exponent. -/
def Split (body whole fraction tail : List Char) : Prop :=
  body.takeWhile Char.isDigit = whole ∧
    Literal.splitFraction (body.dropWhile Char.isDigit) = (fraction, tail) ∧
    ¬ (whole = [] ∧ fraction = [])

theorem splitFraction_of_head {cs : List Char} (h : ∀ c ∈ cs.head?, c ≠ '.') :
    Literal.splitFraction cs = ([], cs) := by
  unfold Literal.splitFraction
  split
  · exact absurd rfl (h '.' rfl)
  · rfl

/-- A mantissa in front of an exponent is cut into its two rows of digits. The exponent stops the
second row, and the point or the exponent the first one. -/
theorem SpellsMantissa.split {mantissa whole fraction exponent : List Char} {e : Int}
    (h : SpellsMantissa mantissa whole fraction) (hexponent : SpellsExponent exponent e) :
    Split (mantissa ++ exponent) whole fraction exponent := by
  have hpoint (cs : List Char) : Stops ('.' :: cs) := by
    rintro _ ⟨⟩
    rfl
  cases h with
  | whole hds =>
      obtain ⟨htake, hdrop⟩ := span_isDigit hds.2 hexponent.stops
      refine ⟨htake, ?_, fun h => hds.1 h.1⟩
      rw [hdrop]
      refine splitFraction_of_head fun c hc => ?_
      -- No point stands where an exponent begins.
      rcases hexponent.head_eq c hc with rfl | rfl <;> decide
  | pointed hds hfs =>
      rw [List.append_assoc, List.cons_append]
      obtain ⟨htake, hdrop⟩ := span_isDigit hds.2 (hpoint (fraction ++ exponent))
      obtain ⟨htake', hdrop'⟩ := span_isDigit hfs hexponent.stops
      refine ⟨htake, ?_, fun h => hds.1 h.1⟩
      rw [hdrop, Literal.splitFraction, htake', hdrop']
  | fraction hfs =>
      obtain ⟨htake, hdrop⟩ := span_isDigit (List.forall_mem_nil _) (hpoint (fraction ++ exponent))
      obtain ⟨htake', hdrop'⟩ := span_isDigit hfs.2 hexponent.stops
      refine ⟨htake, ?_, fun h => hfs.1 h.2⟩
      rw [List.nil_append] at hdrop
      rw [List.cons_append, hdrop, Literal.splitFraction, htake', hdrop']

/-- What is cut into two rows, one of which may be empty but not both, is a mantissa. So every text
that is read has one. -/
theorem Split.exists_mantissa {body whole fraction tail : List Char}
    (h : Split body whole fraction tail) :
    ∃ mantissa, SpellsMantissa mantissa whole fraction ∧ body = mantissa ++ tail := by
  obtain ⟨hwhole, hsplit, hne⟩ := h
  have hbody := List.takeWhile_append_dropWhile (p := Char.isDigit) (l := body)
  have hdigits : ∀ d ∈ whole, d.isDigit = true := fun d hd => List.mem_takeWhile_imp (hwhole ▸ hd)
  rw [hwhole] at hbody
  generalize body.dropWhile Char.isDigit = rest at *
  unfold Literal.splitFraction at hsplit
  split at hsplit
  · next cs =>
      obtain ⟨rfl, rfl⟩ := Prod.mk.inj hsplit
      have hfraction : ∀ d ∈ cs.takeWhile Char.isDigit, d.isDigit = true :=
        fun d hd => List.mem_takeWhile_imp hd
      have hcs := List.takeWhile_append_dropWhile (p := Char.isDigit) (l := cs)
      generalize cs.takeWhile Char.isDigit = fs at *
      -- With a point: one of the two rows may be empty, and here it is the first or none.
      by_cases hwhole : whole = []
      · subst hwhole
        refine ⟨_, .fraction ⟨fun h => hne ⟨rfl, h⟩, hfraction⟩, ?_⟩
        rw [← hbody, List.nil_append, List.cons_append, hcs]
      · refine ⟨_, .pointed ⟨hwhole, hdigits⟩ hfraction, ?_⟩
        rw [← hbody, List.append_assoc, List.cons_append, hcs]
  · obtain ⟨rfl, rfl⟩ := Prod.mk.inj hsplit
    exact ⟨whole, .whole ⟨fun h => hne ⟨h, rfl⟩, hdigits⟩, hbody.symm⟩

theorem SpellsMantissa.isDigit {mantissa whole fraction : List Char}
    (h : SpellsMantissa mantissa whole fraction) : ∀ d ∈ whole ++ fraction, d.isDigit = true := by
  intro d hd
  cases h with
  | whole hds => exact hds.2 d (by simpa using hd)
  | pointed hds hfs => exact (List.mem_append.mp hd).elim (hds.2 d) (hfs d)
  | fraction hfs => exact hfs.2 d hd

theorem SpellsMantissa.head {mantissa whole fraction : List Char}
    (h : SpellsMantissa mantissa whole fraction) :
    ∃ c cs, mantissa = c :: cs ∧ (c.isDigit = true ∨ c = '.') := by
  cases h with
  | whole hds =>
      obtain ⟨c, cs, rfl⟩ := List.exists_cons_of_ne_nil hds.1
      exact ⟨c, cs, rfl, .inl (hds.2 c List.mem_cons_self)⟩
  | pointed hds hfs =>
      obtain ⟨c, cs, rfl⟩ := List.exists_cons_of_ne_nil hds.1
      exact ⟨c, _, rfl, .inl (hds.2 c List.mem_cons_self)⟩
  | fraction hfs => exact ⟨'.', _, rfl, .inr rfl⟩

/-- Every decimal is read, as the number it is. -/
theorem SpellsDecimal.exists_read? {cs : List Char} {negative : Bool} {q : ℚ}
    (h : SpellsDecimal cs negative q) :
    ∃ l, Literal.read? cs = some l ∧ l.negative = negative ∧ l.value = q := by
  obtain ⟨hsign, hmantissa, hexponent⟩ := h
  next sign mantissa exponent whole fraction e =>
    refine ⟨⟨negative, whole ++ fraction, e - fraction.length⟩, ?_, rfl, value_mk ..⟩
    have hsplit :
        splitSign (sign ++ (mantissa ++ exponent)) = (negative, mantissa ++ exponent) := by
      refine hsign.splitSign_append fun c hc => ?_
      obtain ⟨d, ds, rfl, hd⟩ := hmantissa.head
      obtain rfl : d = c := Option.some.inj hc
      exact hd
    obtain ⟨htake, hfraction, hne⟩ := hmantissa.split hexponent
    rw [Literal.read?, hsplit]
    simp only [htake, hfraction, if_neg hne, readExponent?_eq_some_iff.mpr hexponent,
      Option.map_some]

/-- What is read is a decimal. -/
theorem spellsDecimal_of_read? {cs : List Char} {l : Literal} (h : Literal.read? cs = some l) :
    SpellsDecimal cs l.negative l.value ∧ ∀ d ∈ l.digits, d.isDigit = true := by
  rcases hsplit : splitSign cs with ⟨negative, body⟩
  rcases hfraction : Literal.splitFraction (body.dropWhile Char.isDigit) with ⟨fraction, tail⟩
  rw [Literal.read?, hsplit] at h
  simp only [hfraction] at h
  split at h
  · cases h
  · next hne =>
      obtain ⟨e, he, rfl⟩ := Option.map_eq_some_iff.mp h
      obtain ⟨sign, hsign, rfl⟩ := exists_spellsSign hsplit
      obtain ⟨mantissa, hmantissa, hbody⟩ := Split.exists_mantissa ⟨rfl, hfraction, hne⟩
      rw [value_mk]
      refine ⟨?_, hmantissa.isDigit⟩
      nth_rewrite 1 [hbody]
      exact .intro hsign hmantissa (readExponent?_eq_some_iff.mp he)

/-- **The texts that are read** are the decimals. Each direction follows the reader: sign, digits,
point, digits, exponent. -/
theorem spellsDecimal_iff {cs : List Char} {negative : Bool} {q : ℚ} :
    SpellsDecimal cs negative q ↔
      ∃ l, Literal.read? cs = some l ∧ l.negative = negative ∧ l.value = q := by
  constructor
  · exact SpellsDecimal.exists_read?
  · rintro ⟨l, hl, rfl, rfl⟩
    exact (spellsDecimal_of_read? hl).1

/-! ### The nearest double -/

namespace Decimal.Literal

variable {l : Literal}

/-- The number as a quotient of natural numbers, which is what is rounded. -/
theorem value_eq_div (l : Literal) :
    l.value = (digitsValue l.digits * Nat.pow 10 l.exponent.toNat : Nat) /
      (Nat.pow 10 (-l.exponent).toNat : Nat) := by
  rw [value, Nat.pow_eq, Nat.pow_eq]
  push_cast
  rcases Int.le_total 0 l.exponent with h | h
  · have hneg : (-l.exponent).toNat = 0 := by omega
    rw [hneg, pow_zero, div_one]
    conv_lhs => rw [← Int.toNat_of_nonneg h, zpow_natCast]
  · have hpos : l.exponent.toNat = 0 := by omega
    have hexponent : l.exponent = -((-l.exponent).toNat : Int) := by omega
    conv_lhs => rw [hexponent, zpow_neg, zpow_natCast]
    rw [hpos, pow_zero, mul_one, div_eq_mul_inv]

/-- What is small enough to be zero, by its digits alone. The reader stops there, since powers of
ten with such exponents would be too large to compute with. -/
theorem small (hdigits : ∀ d ∈ l.digits, d.isDigit = true)
    (h : l.digits.length + l.exponent < -400) :
    2 * (digitsValue l.digits * Nat.pow 10 l.exponent.toNat * Binary64.perOne) <
      Nat.pow 10 (-l.exponent).toNat := by
  have hvalue : digitsValue l.digits < (0 + 1) * 10 ^ l.digits.length :=
    Json.NumberParts.digitsFrom_lt hdigits
  obtain ⟨k, hk, hperOne⟩ : ∃ k, k ≤ 401 ∧ 2 * Binary64.perOne ≤ 10 ^ k := by
    refine ⟨401, Nat.le_refl _, ?_⟩
    rw [Binary64.perOne, Binary64.point]
    decide +kernel
  have hpos : l.exponent.toNat = 0 := by omega
  rw [hpos, Nat.pow_eq, Nat.pow_eq, Nat.pow_zero, Nat.mul_one]
  calc 2 * (digitsValue l.digits * Binary64.perOne)
      = digitsValue l.digits * (2 * Binary64.perOne) := by ring
    _ < 10 ^ l.digits.length * (2 * Binary64.perOne) :=
        Nat.mul_lt_mul_of_pos_right (by omega) (Nat.mul_pos (by decide) Binary64.perOne_pos)
    _ ≤ 10 ^ l.digits.length * 10 ^ k := Nat.mul_le_mul_left _ hperOne
    _ = 10 ^ (l.digits.length + k) := (Nat.pow_add ..).symm
    _ ≤ 10 ^ (-l.exponent).toNat := Nat.pow_le_pow_right (by decide) (by omega)

/-- A number that is not zero has as many digits as stand behind its zeros, which bounds it from
below by a power of ten. -/
theorem pow_le_digitsValue {ds : List Char} (hds : ∀ d ∈ ds, d.isDigit = true)
    (h : digitsValue ds ≠ 0) :
    ∃ n, ds.length = (ds.takeWhile (· = '0')).length + n + 1 ∧ 10 ^ n ≤ digitsValue ds := by
  have hsplit := List.takeWhile_append_dropWhile (p := (· = '0')) (l := ds)
  have hzeros : ds.takeWhile (· = '0') =
      List.replicate (ds.takeWhile (· = '0')).length '0' :=
    List.eq_replicate_iff.mpr ⟨rfl, fun c hc => by simpa using List.mem_takeWhile_imp hc⟩
  -- Zeros in front are worth nothing, and behind them stands a digit that is none.
  have hvalue : digitsValue (ds.dropWhile (· = '0')) = digitsValue ds := by
    conv_rhs => rw [← hsplit, hzeros, Json.NumberParts.digitsValue_zeros_append]
  have hhead := List.head?_dropWhile_not (· = '0') ds
  rcases hrest : ds.dropWhile (· = '0') with _ | ⟨d, rest⟩
  · rw [hrest] at hvalue
    exact absurd hvalue.symm h
  · rw [hrest] at hvalue hhead
    have hd : d.isDigit = true := hds d (List.dropWhile_subset _ (hrest ▸ List.mem_cons_self))
    have hpos : 1 ≤ 10 * 0 + (d.toNat - '0'.toNat) := by
      have hne : d ≠ '0' := by simpa using hhead
      simp only [Char.isDigit, Bool.and_eq_true, decide_eq_true_eq] at hd
      have hle : 48 ≤ d.toNat := hd.1
      have hne : d.toNat ≠ 48 := fun h => hne (Char.toNat_inj.mp h)
      have hzero : '0'.toNat = 48 := rfl
      omega
    refine ⟨rest.length, ?_, ?_⟩
    · conv_lhs => rw [← hsplit, hrest, List.length_append, List.length_cons]
      rw [Nat.add_assoc]
    · rw [← hvalue]
      calc 10 ^ rest.length = 1 * 10 ^ rest.length := (Nat.one_mul _).symm
        _ ≤ (10 * 0 + (d.toNat - '0'.toNat)) * 10 ^ rest.length := Nat.mul_le_mul_right _ hpos
        _ ≤ digitsValue (d :: rest) := Json.mul_pow_length_le _ rest

/-- What is too large to be finite, by its digits alone: with so many digits from the first one on
that is no zero, it is at least `10 ^ 400`. -/
theorem large (hdigits : ∀ d ∈ l.digits, d.isDigit = true) (hvalue : digitsValue l.digits ≠ 0)
    (h : 400 < l.digits.length + l.exponent - (l.digits.takeWhile (· = '0')).length) :
    Nat.pow 10 (-l.exponent).toNat * Binary64.overflow ≤
      digitsValue l.digits * Nat.pow 10 l.exponent.toNat := by
  obtain ⟨k, hk, hoverflow⟩ : ∃ k, k ≤ 400 ∧ Binary64.overflow ≤ 10 ^ k := by
    refine ⟨400, Nat.le_refl _, ?_⟩
    rw [Binary64.overflow, Binary64.point]
    decide +kernel
  obtain ⟨n, hlength, hn⟩ := pow_le_digitsValue hdigits hvalue
  rw [Nat.pow_eq, Nat.pow_eq]
  calc 10 ^ (-l.exponent).toNat * Binary64.overflow
      ≤ 10 ^ (-l.exponent).toNat * 10 ^ k := Nat.mul_le_mul_left _ hoverflow
    _ = 10 ^ ((-l.exponent).toNat + k) := (Nat.pow_add ..).symm
    _ ≤ 10 ^ (n + l.exponent.toNat) := Nat.pow_le_pow_right (by decide) (by omega)
    _ = 10 ^ n * 10 ^ l.exponent.toNat := Nat.pow_add ..
    _ ≤ digitsValue l.digits * 10 ^ l.exponent.toNat := Nat.mul_le_mul_right _ hn

/-- The bounds on the size only spare the work: every number is rounded, and outside of the bounds
the result is known before. -/
theorem toBinary64_eq (hdigits : ∀ d ∈ l.digits, d.isDigit = true) :
    l.toBinary64 = .ofRatio l.negative (digitsValue l.digits * Nat.pow 10 l.exponent.toNat)
      (Nat.pow 10 (-l.exponent).toNat) := by
  have hd : 0 < Nat.pow 10 (-l.exponent).toNat := Nat.pow_pos (by decide)
  rw [toBinary64]
  split
  · next h =>
      rw [Binary64.ofRatio, Binary64.nearest_eq_zero]
      rcases h with h | h
      · rwa [h, Nat.zero_mul, Nat.zero_mul]
      · exact small hdigits h
  · next h =>
      rw [not_or] at h
      split
      · next hlarge =>
          rw [Binary64.ofRatio, Binary64.nearest_eq_infinite hd (large hdigits h.1 hlarge)]
      · rfl

/-- **A decimal has a finite double** exactly below half a gap above the greatest one. At that
number itself the tie goes to infinity. -/
theorem isFinite_toBinary64_iff (hdigits : ∀ d ∈ l.digits, d.isDigit = true) :
    l.toBinary64.isFinite = true ↔ l.value < 2 ^ 1024 - 2 ^ 970 := by
  have hd : 0 < Nat.pow 10 (-l.exponent).toNat := Nat.pow_pos (by decide)
  rw [toBinary64_eq hdigits, Binary64.isFinite_ofRatio_iff _ hd, value_eq_div,
    ← Binary64.overflow_eq, div_lt_iff₀ (Nat.cast_pos.mpr hd), ← Nat.cast_mul, Nat.cast_lt,
    Nat.mul_comm Binary64.overflow]

/-- **It is the nearest one**, and of two that are as near the one with an even significand, as a
rounded quotient is. -/
theorem rounds_toBinary64 (hdigits : ∀ d ∈ l.digits, d.isDigit = true)
    (hfinite : l.toBinary64.isFinite = true) :
    Binary64.Rounds l.negative (if l.negative then -l.value else l.value) l.toBinary64 := by
  have hd : 0 < Nat.pow 10 (-l.exponent).toNat := Nat.pow_pos (by decide)
  rw [toBinary64_eq hdigits] at hfinite ⊢
  have h := Binary64.rounds_ofRatio l.negative hd hfinite
  have hvalue : (if l.negative then -l.value else l.value) =
      (Binary64.signed l.negative
        (digitsValue l.digits * Nat.pow 10 l.exponent.toNat : Nat) : Int) /
        (Nat.pow 10 (-l.exponent).toNat : Nat) := by
    rw [value_eq_div, Binary64.signed]
    cases l.negative with
    | true => simp only [if_true]; rw [Int.cast_neg, Int.cast_natCast, neg_div]
    | false => simp only [Bool.false_eq_true, if_false]; rw [Int.cast_natCast]
  rwa [hvalue]

end Decimal.Literal

end FacetQuery
