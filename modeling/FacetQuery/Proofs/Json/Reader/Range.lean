import FacetQuery.Proofs.Json.Describes
import FacetQuery.Proofs.Json.Reader.Decimals
import Mathlib.Algebra.Order.Field.Power
import Mathlib.Algebra.Order.Ring.Abs
import Mathlib.Tactic.FieldSimp
import Mathlib.Tactic.Positivity

/-!
# Json — Reader — Numbers in range

A number of JSON may be as great as its text is long, a double may not. A number that is read as a
double is out of range if its double would be infinite. Which numbers are so close to the greatest
double depends on the two steps in which the value is computed; up to `10 ^ 308` none is.

* `NumberParts.kept_le`: the digits that are kept are worth no more than a tenth above all digits.
* `NumberParts.exists_number?_of_le`: numbers up to `10 ^ 308` are in range.
-/

namespace FacetQuery.Json

/-! ### Digits that are left out -/

/-- What stands before some digits counts as many times ten as there are digits. -/
theorem digitsFrom_eq (n : Nat) (ds : List Char) :
    digitsFrom n ds = n * 10 ^ ds.length + digitsValue ds := by
  induction ds generalizing n with
  | nil => exact (Nat.mul_one n).symm
  | cons d ds ih =>
      have hcons (k : Nat) : digitsFrom k (d :: ds) = digitsFrom (10 * k + (d.toNat - '0'.toNat)) ds :=
        rfl
      have hvalue : digitsValue (d :: ds) = digitsFrom 0 (d :: ds) := rfl
      rw [hvalue, hcons, hcons, ih, ih, List.length_cons, Nat.pow_succ]
      ring

/-- Digits are left out only where there is no room for one more, so that what is kept is great. -/
theorem limit_lt_of_fitting {limit n : Nat} {ds : List Char} (hds : ∀ d ∈ ds, d.isDigit = true)
    (h : (fitting limit n ds).2 ≠ []) : limit < 10 * (fitting limit n ds).1 + 10 := by
  induction ds generalizing n with
  | nil => exact absurd rfl h
  | cons d ds ih =>
      obtain ⟨hd, hds⟩ := List.forall_mem_cons.mp hds
      rw [fitting] at h ⊢
      by_cases hfits : 10 * n + (d.toNat - '0'.toNat) ≤ limit
      · simp only [hfits, if_true] at h ⊢
        exact ih hds h
      · simp only [hfits, if_false]
        have hdigit : d.toNat - '0'.toNat ≤ 9 := by
          simp only [Char.isDigit, Bool.and_eq_true, decide_eq_true_eq] at hd
          have hle : d.val.toNat ≤ 57 := hd.2
          exact Nat.sub_le_of_le_add hle
        omega

namespace NumberParts

variable {p : NumberParts}

/-- Where there is no point, there are no digits behind it. -/
theorem Spelled.isDigit_fractionDigits (h : p.Spelled) :
    ∀ d ∈ p.fractionDigits, d.isDigit = true := by
  intro d hd
  rw [fractionDigits] at hd
  cases hfraction : p.fraction with
  | none => rw [hfraction] at hd; cases hd
  | some ds =>
      rw [hfraction] at hd
      exact (h.fraction ds hfraction).isDigit d hd

/-- **The digits that are kept**, with zeros for those that are left out, are worth no more than all
digits and a tenth of them. They are worth more where digits behind the point take the place of
digits before it. -/
theorem kept_le (h : p.Spelled) :
    p.kept.1 ≤ maxSignificand ∧ ∃ places : Nat, p.kept.2 = places - (p.fractionDigits.length : Int) ∧
      10 * (p.kept.1 * 10 ^ places) ≤
        11 * (digitsValue p.whole * 10 ^ p.fractionDigits.length + digitsValue p.fractionDigits) := by
  obtain ⟨-, hn, hwhole⟩ := fitting_spec p.whole (Nat.zero_le maxSignificand)
  have hroom : (fitting maxSignificand 0 p.whole).2 ≠ [] →
      maxSignificand < 10 * (fitting maxSignificand 0 p.whole).1 + 10 :=
    limit_lt_of_fitting h.whole.isDigit
  generalize hfirst : fitting maxSignificand 0 p.whole = first at hn hwhole hroom
  -- The digits are kept in two rows, those of the whole number first.
  obtain ⟨hlength, hm, hvalue⟩ := fitting_spec p.fractionDigits hn
  generalize hsecond : fitting maxSignificand first.1 p.fractionDigits = second
    at hlength hm hvalue
  have hkept : p.kept =
      (second.1, first.2.length - (p.fractionDigits.length - second.2.length : Int)) := by
    rw [kept, hfirst]
    simp only [hsecond]
  rw [hkept]
  refine ⟨hm, first.2.length + second.2.length, by simp only; omega, ?_⟩
  have hlt := digitsFrom_lt (n := 0) h.isDigit_fractionDigits
  rw [digitsFrom_eq, Nat.zero_mul, Nat.zero_add, Nat.zero_add, Nat.one_mul] at hlt
  rw [digitsFrom_eq] at hvalue
  rw [digitsFrom_eq, Nat.zero_mul, Nat.zero_add] at hwhole
  generalize digitsValue p.fractionDigits = f, p.fractionDigits.length = l at *
  show 10 * (second.1 * 10 ^ (first.2.length + second.2.length)) ≤ _
  have hmul := Nat.mul_le_mul_right (10 ^ first.2.length) hvalue
  rw [Nat.mul_assoc, ← Nat.pow_add, Nat.add_comm second.2.length] at hmul
  by_cases hleft : first.2 = []
  · -- The whole number is kept, and of the digits behind the point all that fit.
    simp only [hleft, List.length_nil, Nat.zero_add, Nat.pow_zero, Nat.mul_one] at hmul hwhole ⊢
    have hle := Nat.mul_le_mul_right (10 ^ l) hwhole
    omega
  · -- The digits behind the point are worth less than one more at the end of the whole number.
    have hlarge : 10 * (first.1 + 1) ≤ 11 * first.1 := by
      have hroom := hroom hleft
      rw [maxSignificand] at hroom
      omega
    calc 10 * (second.1 * 10 ^ (first.2.length + second.2.length))
        ≤ 10 * ((first.1 * 10 ^ l + f) * 10 ^ first.2.length) := Nat.mul_le_mul_left 10 hmul
      _ ≤ 10 * (((first.1 + 1) * 10 ^ l) * 10 ^ first.2.length) := by
          refine Nat.mul_le_mul_left 10 (Nat.mul_le_mul_right _ ?_)
          rw [Nat.add_mul, Nat.one_mul]
          omega
      _ = 10 * (first.1 + 1) * (10 ^ first.2.length * 10 ^ l) := by ring
      _ ≤ 11 * first.1 * (10 ^ first.2.length * 10 ^ l) := Nat.mul_le_mul_right _ hlarge
      _ = 11 * (first.1 * 10 ^ first.2.length * 10 ^ l) := by ring
      _ ≤ 11 * (digitsValue p.whole * 10 ^ l) :=
          Nat.mul_le_mul_left 11 (Nat.mul_le_mul_right _ hwhole)
      _ ≤ 11 * (digitsValue p.whole * 10 ^ l + f) := Nat.mul_le_mul_left 11 (Nat.le_add_right _ _)

/-- Without its sign, a number is worth its digits in a row, with the point moved. -/
theorem abs_toRat (p : NumberParts) :
    |p.toRat| = ((digitsValue p.whole * 10 ^ p.fractionDigits.length +
      digitsValue p.fractionDigits : ℕ) : ℚ) * 10 ^ (p.power - p.fractionDigits.length) := by
  have hsign : |(if p.negative then -1 else 1 : ℚ)| = 1 := by cases p.negative <;> simp
  have hpow : (10 : ℚ) ^ p.fractionDigits.length ≠ 0 := pow_ne_zero _ (by norm_num)
  rw [toRat, abs_mul, hsign, one_mul, abs_of_nonneg (by positivity), zpow_sub₀ (by norm_num),
    zpow_natCast]
  push_cast
  field_simp

/-- **Numbers up to `10 ^ 308`** are in range, if the exponent is no greater than the reader
follows. They need not be written in any shortest way. -/
theorem exists_number?_of_le (h : p.Spelled) (hpower : p.power.natAbs ≤ maxExponent)
    (hle : |p.toRat| ≤ 10 ^ 308) : ∃ n, p.number? = some n := by
  obtain ⟨hlimit, places, hshift, hkept⟩ := kept_le h
  have hroom : 0 ≤ p.kept.2 + p.power →
      p.kept.1 * 10 ^ (p.kept.2 + p.power).toNat ≤ Binary64.roomForProducts := by
    intro hpos
    have hplaces : (10 : ℚ) ^ (p.kept.2 + p.power).toNat =
        10 ^ places * 10 ^ (p.power - p.fractionDigits.length) := by
      rw [← zpow_natCast, ← zpow_natCast, ← zpow_add₀ (by norm_num), Int.toNat_of_nonneg hpos,
        hshift]
      congr 1
      ring
    have hkept : (10 * (p.kept.1 * 10 ^ places) : ℚ) ≤ 11 * (digitsValue p.whole *
        10 ^ p.fractionDigits.length + digitsValue p.fractionDigits : ℕ) := by
      exact_mod_cast hkept
    -- What is kept may be a tenth more than the number, and there is still room for that.
    have hworth : (10 * (p.kept.1 * 10 ^ (p.kept.2 + p.power).toNat) : ℚ) ≤ 11 * 10 ^ 308 := by
      calc (10 * (p.kept.1 * 10 ^ (p.kept.2 + p.power).toNat) : ℚ)
          = 10 * (p.kept.1 * 10 ^ places) * 10 ^ (p.power - p.fractionDigits.length) := by
            rw [hplaces, mul_assoc, mul_assoc]
        _ ≤ 11 * (digitsValue p.whole * 10 ^ p.fractionDigits.length +
              digitsValue p.fractionDigits : ℕ) * 10 ^ (p.power - p.fractionDigits.length) :=
            mul_le_mul_of_nonneg_right hkept (by positivity)
        _ = 11 * |p.toRat| := by rw [abs_toRat, mul_assoc]
        _ ≤ 11 * 10 ^ 308 := mul_le_mul_of_nonneg_left hle (by norm_num)
    have hroom : 11 * 10 ^ 308 ≤ 10 * Binary64.roomForProducts := by decide +kernel
    exact Nat.le_of_mul_le_mul_left (Nat.le_trans (by exact_mod_cast hworth) hroom) (by decide)
  obtain ⟨x, hx, hfinite⟩ := exists_real?_of_scaled hpower (exists_scaled hlimit hroom)
  rw [number?]
  cases p.integer? with
  | some i => exact ⟨_, rfl⟩
  | none =>
      rw [hx]
      exact ⟨.real x hfinite, by simp only [Option.bind_some, Number.ofBinary64?, hfinite, dite_true]⟩

end NumberParts

end FacetQuery.Json
