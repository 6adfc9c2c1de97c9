import FacetQuery.Decimal.Shortest
import FacetQuery.Json.Reader.Number
import FacetQuery.Proofs.Decimal.Rounding

/-!
# Json — Reader — Numbers that are no whole ones

A number with a point or an exponent is read in two rounded steps. What can go wrong in them is that
a product is infinite, and that is settled by the exact number that the digits spell.

* `fitting_spec`: the digits kept are worth no more than all digits.
* `exists_scaled`: what is kept of a small enough number can be multiplied or divided.
* `NumberParts.exists_real?`: a small enough number has a finite double.
-/

namespace FacetQuery.Json

open Binary64

/-! ### The digits that are kept -/

/-- `digitsFrom n ds` is the number that the digits `ds` spell behind those of `n`. -/
def digitsFrom (n : Nat) (ds : List Char) : Nat :=
  ds.foldl (fun n d => 10 * n + (d.toNat - '0'.toNat)) n

/-- Digits are read one after another, from left to right. -/
theorem digitsFrom_append (n : Nat) (ds es : List Char) :
    digitsFrom n (ds ++ es) = digitsFrom (digitsFrom n ds) es :=
  List.foldl_append

/-- More digits never make a number less than zeros in their place. -/
theorem mul_pow_length_le (n : Nat) (ds : List Char) : n * 10 ^ ds.length ≤ digitsFrom n ds := by
  induction ds generalizing n with
  | nil => exact Nat.le_of_eq (Nat.mul_one n)
  | cons d ds ih =>
      calc n * 10 ^ (ds.length + 1) = 10 * n * 10 ^ ds.length := by
            rw [Nat.pow_succ]
            ring
        _ ≤ (10 * n + (d.toNat - '0'.toNat)) * 10 ^ ds.length :=
            Nat.mul_le_mul_right _ (Nat.le_add_right _ _)
        _ ≤ digitsFrom n (d :: ds) := ih _

/-- The digits that fit are worth no more than all of them. The induction is on the digits, and what
has been kept is the number before them. -/
theorem fitting_spec {limit n : Nat} (ds : List Char) (hn : n ≤ limit) :
    (fitting limit n ds).2.length ≤ ds.length ∧ (fitting limit n ds).1 ≤ limit ∧
      (fitting limit n ds).1 * 10 ^ (fitting limit n ds).2.length ≤ digitsFrom n ds := by
  induction ds generalizing n with
  | nil => exact ⟨Nat.le_refl _, hn, Nat.le_of_eq (Nat.mul_one n)⟩
  | cons d ds ih =>
      rw [fitting]
      by_cases hfits : 10 * n + (d.toNat - '0'.toNat) ≤ limit
      · obtain ⟨hlength, hlimit, hvalue⟩ := ih hfits
        simp only [hfits, if_true]
        exact ⟨Nat.le_succ_of_le hlength, hlimit, hvalue⟩
      · simp only [hfits, if_false]
        exact ⟨Nat.le_refl _, hn, mul_pow_length_le n (d :: ds)⟩

/-- All digits of a number within the limit fit. -/
theorem fitting_eq_of_le {limit n : Nat} {ds : List Char} (h : digitsFrom n ds ≤ limit) :
    fitting limit n ds = (digitsFrom n ds, []) := by
  induction ds generalizing n with
  | nil => rfl
  | cons d ds ih =>
      have hfits : 10 * n + (d.toNat - '0'.toNat) ≤ limit :=
        Nat.le_trans (Nat.le_trans (Nat.le_mul_of_pos_right _ (Nat.pow_pos (by decide)))
          (mul_pow_length_le _ ds)) h
      rw [fitting]
      simp only [hfits, if_true]
      exact ih h

/-! ### Multiplying and dividing -/

/-- The powers of ten up to `10 ^ 308` are doubles near the exact ones. -/
theorem powerOfTen_spec {n : Nat} (hn : n ≤ 308) :
    (powerOfTen n).isFinite = true ∧ Near (10 ^ n) (powerOfTen n) ∧
      perOne ≤ (powerOfTen n).units := by
  have hlt : 10 ^ n < overflow := by
    refine Nat.lt_of_le_of_lt (Nat.pow_le_pow_right (by decide) hn) ?_
    decide +kernel
  obtain ⟨hfinite, hnear, hpos⟩ := ofRatio_one hlt
  exact ⟨hfinite, hnear, hpos (Nat.pow_pos (by decide))⟩

/-- Repeated division leads away from infinity. -/
theorem exists_scaled_neg {x : Binary64} {k : Nat} (hk : k ≤ 2000) (hx : x.isFinite = true)
    (hunits : x.units ≤ 2 ^ k) {e : Int} (he : e < 0) :
    ∃ r, scaled x e = some r ∧ r.isFinite = true := by
  induction hn : e.natAbs using Nat.strongRecOn generalizing x e with
  | ind n ih =>
      rw [scaled]
      have hneg : ¬ 0 ≤ e := by omega
      by_cases hsmall : e.natAbs ≤ 308
      · rw [if_pos hsmall, if_neg hneg]
        exact ⟨_, rfl, (dividedBy_le hk hunits (powerOfTen_spec hsmall).2.2).1⟩
      · rw [if_neg hsmall]
        by_cases hzero : x.units = 0
        · rw [if_pos hzero]
          exact ⟨x, rfl, hx⟩
        · rw [if_neg hzero, if_neg hneg]
          obtain ⟨hfinite, hle⟩ := dividedBy_le hk hunits (powerOfTen_spec (Nat.le_refl 308)).2.2
          exact ih (e + 308).natAbs (by omega) hfinite hle (by omega) rfl

theorem ofInt_natCast (m : Nat) : Binary64.ofInt m = ofRatio false m 1 := by
  have hm : ¬ (m : Int) < 0 := by omega
  rw [Binary64.ofInt, decide_eq_false hm, Int.natAbs_natCast]

/-- Where no digit is left behind the point, there is one product and no more. -/
theorem exists_scaled_of_times {x : Binary64} {e : Int} (hpos : 0 ≤ e) (hsmall : e.natAbs ≤ 308)
    (h : (x.times (powerOfTen e.natAbs)).isFinite = true) :
    ∃ r, scaled x e = some r ∧ r.isFinite = true := by
  rw [scaled]
  simp only [hsmall, hpos, h, if_true]
  exact ⟨_, rfl, h⟩

/-- **Multiplying and dividing** a number of 64 bits, by powers of ten: the result is finite if
there is room for the exact product. -/
theorem exists_scaled {m : Nat} {e : Int} (hm : m ≤ NumberParts.maxSignificand)
    (h : 0 ≤ e → m * 10 ^ e.toNat ≤ roomForProducts) :
    ∃ r, scaled (.ofInt m) e = some r ∧ r.isFinite = true := by
  have hlt : m < overflow := Nat.lt_of_le_of_lt hm (by decide +kernel)
  obtain ⟨hfinite, hnear, -⟩ := ofRatio_one hlt
  rw [ofInt_natCast]
  rcases Int.lt_or_le e 0 with hneg | hpos
  · have hk : 64 + point ≤ 2000 := by
      unfold point
      decide
    -- A negative exponent divides, and a quotient is no greater than what is divided.
    refine exists_scaled_neg hk hfinite (ofRatio_le Nat.one_pos hk ?_).2 hneg
    rw [Nat.one_mul, Nat.pow_add]
    exact Nat.mul_le_mul_right _ (Nat.le_trans hm (by decide))
  · by_cases hsmall : e.natAbs ≤ 308
    · have hproduct : m * 10 ^ e.natAbs ≤ roomForProducts := by
        have heq : e.natAbs = e.toNat := by omega
        rw [heq]
        exact h hpos
      exact exists_scaled_of_times hpos hsmall
        (isFinite_times hnear (powerOfTen_spec hsmall).2.1 hproduct)
    · -- So large a power of ten leaves room for nothing.
      have hzero : m = 0 := by
        by_contra hne
        have hpower : roomForProducts < 10 ^ e.toNat := by
          have hlarge : 309 ≤ e.toNat := by omega
          refine Nat.lt_of_lt_of_le ?_ (Nat.pow_le_pow_right (by decide) hlarge)
          decide +kernel
        have := Nat.le_mul_of_pos_left (10 ^ e.toNat) (Nat.pos_of_ne_zero hne)
        have := h hpos
        omega
      have hunits : (ofRatio false m 1).units = 0 := by
        rw [Near, hzero, Nat.zero_mul, Nat.zero_mul] at hnear
        rw [hzero]
        exact (Nat.mul_eq_zero.mp (Nat.le_zero.mp hnear)).resolve_right (by decide)
      rw [scaled]
      simp only [hsmall, hunits, if_true, if_false]
      exact ⟨_, rfl, hfinite⟩

/-! ### What a number is worth -/

namespace NumberParts

variable {p : NumberParts}

/-- `power p` is the exponent that `p` is written with, or zero. -/
def power (p : NumberParts) : Int :=
  match p.exponent with
  | none                => 0
  | some (negative, ds) => if negative then -(digitsValue ds : Int) else digitsValue ds

/-- `IsWorth p d`: the digits of `p` are those of `d` and zeros behind them, and the point and the
exponent put them in their place. -/
def IsWorth (p : NumberParts) (d : Decimal) : Prop :=
  ∃ zeros : Nat, digitsValue (p.whole ++ p.fractionDigits) = d.digits * 10 ^ zeros ∧
    p.power - p.fractionDigits.length + zeros = d.exponent

/-- What is kept, with as many zeros as there are digits left out, is no more than all digits. -/
theorem kept_spec (h : digitsValue p.whole ≤ maxSignificand) :
    ∃ left : Nat, p.kept.2 = left - (p.fractionDigits.length : Int) ∧ p.kept.1 ≤ maxSignificand ∧
      p.kept.1 * 10 ^ left ≤ digitsValue (p.whole ++ p.fractionDigits) := by
  obtain ⟨hlength, hlimit, hvalue⟩ := fitting_spec p.fractionDigits h
  have hkept : p.kept =
      ((fitting maxSignificand (digitsValue p.whole) p.fractionDigits).1,
        0 - (p.fractionDigits.length -
          (fitting maxSignificand (digitsValue p.whole) p.fractionDigits).2.length : Int)) := by
    rw [kept, fitting_eq_of_le (n := 0) h]
    rfl
  refine ⟨(fitting maxSignificand (digitsValue p.whole) p.fractionDigits).2.length, ?_⟩
  rw [hkept]
  refine ⟨by simp only; omega, hlimit, ?_⟩
  calc _ ≤ digitsFrom (digitsValue p.whole) p.fractionDigits := hvalue
    _ = digitsValue (p.whole ++ p.fractionDigits) :=
      (digitsFrom_append 0 p.whole p.fractionDigits).symm

/-- Unless the exponent is too great to be looked at, a number is read as what is kept of its
digits, multiplied or divided by a power of ten. -/
theorem real?_eq (h : p.power.natAbs ≤ maxExponent) :
    p.real? = (scaled (.ofInt p.kept.1) (p.kept.2 + p.power)).map
      fun x => if p.negative then x.negate else x := by
  rw [real?]
  cases hexponent : p.exponent with
  | none =>
      have hpower : p.power = 0 := by rw [power, hexponent]
      rw [hpower, Int.add_zero]
  | some signed =>
      obtain ⟨negative, ds⟩ := signed
      have hpower : p.power = if negative then -(digitsValue ds : Int) else digitsValue ds := by
        rw [power, hexponent]
      have hvalue : digitsValue ds ≤ maxExponent := by
        rw [hpower] at h
        cases negative <;> simpa using h
      have hfits : (fitting maxExponent 0 ds).2 = [] := by rw [fitting_eq_of_le (n := 0) hvalue]
      have hsum : p.kept.2 + p.power =
          if negative then p.kept.2 - digitsValue ds else p.kept.2 + digitsValue ds := by
        rw [hpower]
        cases negative with
        | true => exact Int.sub_eq_add_neg.symm
        | false => rfl
      simp only [hfits, if_true, hsum]

/-- The sign changes nothing of whether a double is finite. -/
theorem exists_real?_of_scaled (h : p.power.natAbs ≤ maxExponent)
    (hscaled : ∃ r, scaled (.ofInt p.kept.1) (p.kept.2 + p.power) = some r ∧ r.isFinite = true) :
    ∃ r, p.real? = some r ∧ r.isFinite = true := by
  obtain ⟨r, hr, hfinite⟩ := hscaled
  refine ⟨if p.negative then r.negate else r, ?_, ?_⟩
  · rw [real?_eq h, hr]
    rfl
  · cases p.negative with
    | true => exact (isFinite_negate r).trans hfinite
    | false => exact hfinite

/-- **A small enough number** has a finite double. -/
theorem exists_real? {d : Decimal} (hwhole : digitsValue p.whole ≤ maxSignificand)
    (hpower : p.power.natAbs ≤ maxExponent) (hworth : p.IsWorth d)
    (hroom : d.digits * 10 ^ d.exponent.toNat ≤ roomForProducts * 10 ^ (-d.exponent).toNat) :
    ∃ r, p.real? = some r ∧ r.isFinite = true := by
  obtain ⟨zeros, hdigits, hexponent⟩ := hworth
  obtain ⟨left, hshift, hlimit, hkept⟩ := kept_spec hwhole
  have hsmall : 0 ≤ p.kept.2 + p.power →
      p.kept.1 * 10 ^ (p.kept.2 + p.power).toNat ≤ roomForProducts := by
    intro hpos
    have hplaces : (p.kept.2 + p.power).toNat + ((-d.exponent).toNat + zeros) =
        left + d.exponent.toNat := by omega
    refine Nat.le_of_mul_le_mul_right ?_
      (Nat.pow_pos (n := (-d.exponent).toNat + zeros) (by decide : 0 < 10))
    calc p.kept.1 * 10 ^ (p.kept.2 + p.power).toNat * 10 ^ ((-d.exponent).toNat + zeros)
        = p.kept.1 * 10 ^ left * 10 ^ d.exponent.toNat := by
          rw [Nat.mul_assoc, ← Nat.pow_add, hplaces, Nat.pow_add, Nat.mul_assoc]
      _ ≤ d.digits * 10 ^ zeros * 10 ^ d.exponent.toNat :=
          Nat.mul_le_mul_right _ (hdigits ▸ hkept)
      _ = d.digits * 10 ^ d.exponent.toNat * 10 ^ zeros := Nat.mul_right_comm _ _ _
      _ ≤ roomForProducts * 10 ^ (-d.exponent).toNat * 10 ^ zeros := Nat.mul_le_mul_right _ hroom
      _ = roomForProducts * 10 ^ ((-d.exponent).toNat + zeros) := by
          rw [Nat.mul_assoc, ← Nat.pow_add]
  exact exists_real?_of_scaled hpower (exists_scaled hlimit hsmall)

end NumberParts

end FacetQuery.Json
