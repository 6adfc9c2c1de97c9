import FacetQuery.Proofs.Decimal.Rounding
import Mathlib.Algebra.Order.Field.Rat
import Mathlib.Data.Rat.Cast.Order
import Mathlib.Tactic.FieldSimp
import Mathlib.Tactic.Positivity

/-!
# Decimal — The nearest double

A quotient is rounded to the double nearest to it, and to the even one of two that are equally near.

* `Binary64.toRat`: what a double is worth.
* `Binary64.Rounds`: the nearest double to a number, with its sign.
* `Binary64.isFinite_ofRatio_iff`: a quotient is rounded to a finite double below `overflow`, which
  is `2 ^ 1024 - 2 ^ 970`.
* `Binary64.rounds_ofRatio`: below it, the double is the nearest one.
* `Binary64.Rounds.unique`: there is only one.
-/

namespace FacetQuery.Binary64

variable {n d : Nat}

/-- `toRat x` is what a finite double is worth. -/
def toRat (x : Binary64) : ℚ :=
  (if x.isNegative then -1 else 1) * (x.units / 2 ^ 1074)

/-- `Rounds negative q x`: the double `x` has the sign told, is as near to `q` as any finite double,
and is even if another one is as near. -/
structure Rounds (negative : Bool) (q : ℚ) (x : Binary64) : Prop where
  isNegative : x.isNegative = negative
  nearest : ∀ y : Binary64, y.isFinite = true → |x.toRat - q| ≤ |y.toRat - q|
  even : ∀ y : Binary64, y.isFinite = true → y.toRat ≠ x.toRat → |x.toRat - q| = |y.toRat - q| →
    x.significand % 2 = 0

/-! ### The nearest whole number -/

theorem halfEven_cases (n d : Nat) :
    (halfEven n d = n / d ∧ 2 * (n % d) ≤ d ∧ (2 * (n % d) = d → n / d % 2 = 0)) ∨
      (halfEven n d = n / d + 1 ∧ d ≤ 2 * (n % d) ∧ (2 * (n % d) = d → n / d % 2 = 1)) := by
  unfold halfEven
  simp only
  split
  · exact .inl ⟨rfl, by omega, by omega⟩
  · split
    · exact .inr ⟨rfl, by omega, by omega⟩
    · rcases Nat.mod_two_eq_zero_or_one (n / d) with h | h
      · exact .inl ⟨by omega, by omega, fun _ => h⟩
      · exact .inr ⟨by omega, by omega, fun _ => h⟩

/-- A multiple is one of the two around a quotient, or beyond them. So the nearest multiple is found
by a look at these two. -/
theorem mul_cases (k q d : Int) (hd : 0 ≤ d) :
    k * d ≤ q * d - d ∨ k = q ∨ k = q + 1 ∨ q * d + 2 * d ≤ k * d := by
  rcases lt_trichotomy k q with h | h | h
  · have := Int.mul_le_mul_of_nonneg_right (show k ≤ q - 1 by omega) hd
    exact .inl (by rwa [Int.sub_mul, Int.one_mul] at this)
  · exact .inr (.inl h)
  · rcases eq_or_lt_of_le (show q + 1 ≤ k by omega) with h | h
    · exact .inr (.inr (.inl h.symm))
    · have := Int.mul_le_mul_of_nonneg_right (show q + 2 ≤ k by omega) hd
      exact .inr (.inr (.inr (by rwa [Int.add_mul] at this)))

/-- No multiple of `d` is nearer to `n` than the one that is rounded to, and one that is as near
comes with an even one. -/
theorem halfEven_nearest (hd : 0 < d) (k : Int) :
    (halfEven n d * d - n : Int).natAbs ≤ (k * d - n).natAbs ∧
      (k ≠ halfEven n d → (halfEven n d * d - n : Int).natAbs = (k * d - n).natAbs →
        halfEven n d % 2 = 0) := by
  have hn : (n : Int) = (n / d : Nat) * d + (n % d : Nat) := by
    exact_mod_cast (Nat.div_add_mod' n d).symm
  have hr : n % d < d := Nat.mod_lt n hd
  have hnext : ((n / d : Nat) + 1 : Int) * d = (n / d : Nat) * d + d := by ring
  -- A multiple is below the quotient, one of the two around it, or above both.
  have hsides := mul_cases k (n / d : Nat) d (Int.natCast_nonneg d)
  rw [hn]
  -- Rounded down or up, by what is left of the quotient.
  rcases halfEven_cases n d with ⟨h, hle, htie⟩ | ⟨h, hle, htie⟩
  · rw [h]
    generalize n / d = q at *
    generalize n % d = r at *
    rcases hsides with hk | rfl | rfl | hk
    · exact ⟨by omega, by omega⟩
    · exact ⟨Nat.le_refl _, fun hne => absurd rfl hne⟩
    · rw [hnext]
      exact ⟨by omega, by omega⟩
    · exact ⟨by omega, by omega⟩
  · rw [h, Nat.cast_add, Nat.cast_one, hnext]
    generalize n / d = q at *
    generalize n % d = r at *
    rcases hsides with hk | rfl | rfl | hk
    · exact ⟨by omega, by omega⟩
    · exact ⟨by omega, by omega⟩
    · rw [hnext]
      exact ⟨Nat.le_refl _, fun hne => absurd rfl hne⟩
    · exact ⟨by omega, by omega⟩

/-! ### Significands and spacings -/

theorem magnitude_lt (x : Binary64) : x.magnitude < signBit :=
  Nat.mod_lt _ (by decide)

theorem isNegative_ofMagnitude (negative : Bool) {m : Nat} (h : m < signBit) :
    (ofMagnitude negative m).isNegative = negative := by
  have hsign : signBit = 0x8000000000000000 := rfl
  rw [hsign] at h
  rw [isNegative, ofMagnitude, hsign]
  cases negative with
  | true =>
      have hm : 0x8000000000000000 + m < UInt64.size := by
        rw [UInt64.size]
        omega
      rw [if_pos rfl, UInt64.toNat_ofNat_of_lt' hm]
      exact decide_eq_true (Nat.le_add_right _ _)
  | false =>
      have hm : m < UInt64.size := Nat.lt_trans h (by decide)
      rw [if_neg Bool.false_ne_true, UInt64.toNat_ofNat_of_lt' hm]
      exact decide_eq_false (Nat.not_le.mpr h)

/-- Doubles that differ in sign only have the same units, and are finite together. -/
theorem units_eq_of_magnitude_eq {x y : Binary64} (h : x.magnitude = y.magnitude) :
    x.units = y.units ∧ x.isFinite = y.isFinite ∧ x.significand = y.significand := by
  have hb : x.biased = y.biased := by rw [biased, biased, h]
  have hf : x.fraction = y.fraction := by rw [fraction, fraction, h]
  have hs : x.significand = y.significand := by rw [significand, significand, hb, hf]
  exact ⟨by rw [units, units, spacing, spacing, hs, hb], by rw [isFinite, isFinite, hb], hs⟩

theorem significand_lt (x : Binary64) : x.significand < 2 * hiddenBit := by
  have hfraction : x.fraction < hiddenBit := Nat.mod_lt _ (by decide)
  rw [significand]
  split <;> omega

/-- A finite double is a multiple of a spacing, or below the first significand that has it. Smaller
spacings divide larger ones. -/
theorem units_cases (x : Binary64) (s : Nat) :
    2 ^ s ∣ x.units ∨ 0 < s ∧ x.units < hiddenBit * 2 ^ s := by
  rcases Nat.lt_or_ge (x.biased - 1) s with h | h
  · obtain ⟨t, rfl⟩ := Nat.exists_eq_add_one_of_ne_zero (Nat.ne_zero_of_lt h)
    refine .inr ⟨Nat.succ_pos t, ?_⟩
    have hspacing : x.spacing ≤ 2 ^ t := Nat.pow_le_pow_right (by decide) (by omega)
    calc x.units ≤ x.significand * 2 ^ t := Nat.mul_le_mul_left _ hspacing
      _ < 2 * hiddenBit * 2 ^ t := Nat.mul_lt_mul_of_pos_right x.significand_lt (Nat.two_pow_pos t)
      _ = hiddenBit * 2 ^ (t + 1) := by rw [Nat.pow_succ]; ring
  · exact .inl (Dvd.dvd.mul_left (Nat.pow_dvd_pow 2 h) _)

/-- The significand of what is put together from a significand and a spacing, by its last bit. -/
theorem significand_ofMagnitude_mod_two {s m : Nat} (hfinite : s * hiddenBit + m < infinite) :
    (ofMagnitude false (s * hiddenBit + m)).significand % 2 = m % 2 := by
  have hsign : infinite < signBit := by decide
  have hbit : hiddenBit = 0x10000000000000 := rfl
  rw [significand, biased, fraction, magnitude_ofMagnitude false (Nat.lt_trans hfinite hsign)]
  rw [hbit]
  split <;> omega

/-- `rounded n d` is the number of units that `n / d` units are rounded to. -/
def rounded (n d : Nat) : Nat :=
  significandOf n d * 2 ^ places (n / d)

/-- **No double is nearer** to a number of units, and one that is as near comes with an even
significand. -/
theorem rounded_nearest (hd : 0 < d) {u : Int} {y : Binary64} (hu : u.natAbs = y.units) :
    (rounded n d * d - n : Int).natAbs ≤ (u * d - n).natAbs ∧
      (u ≠ rounded n d → (rounded n d * d - n : Int).natAbs = (u * d - n).natAbs →
        significandOf n d % 2 = 0) := by
  have hD : 0 < d * 2 ^ places (n / d) := Nat.mul_pos hd (Nat.two_pow_pos _)
  have hscale (k : Int) : k * 2 ^ places (n / d) * d = k * (d * 2 ^ places (n / d) : Nat) := by
    push_cast
    ring
  have hrounded : (rounded n d : Int) = significandOf n d * 2 ^ places (n / d) := by
    rw [rounded]
    push_cast
    rfl
  rw [hrounded, hscale]
  -- Every finite double is a multiple of the spacing, or below all that have this spacing.
  rcases y.units_cases (places (n / d)) with hdvd | ⟨hpos, hlt⟩
  · -- A multiple of the spacing.
    obtain ⟨k, rfl⟩ : (2 ^ places (n / d) : Int) ∣ u := by
      rw [← Int.natAbs_dvd_natAbs, hu]
      simpa [Int.natAbs_pow] using hdvd
    obtain ⟨hnear, heven⟩ := halfEven_nearest hD k (n := n)
    rw [Int.mul_comm _ k, hscale]
    exact ⟨hnear, fun hne => heven fun h => hne (by rw [h]; rfl)⟩
  · -- Too small for the spacing: the least number that has it lies between.
    have hfirst : hiddenBit * (d * 2 ^ places (n / d)) ≤ n := by
      have hplaces := two_pow_places_le (le_of_places_pos hpos)
      calc hiddenBit * (d * 2 ^ places (n / d)) = d * (2 ^ 52 * 2 ^ places (n / d)) := by
            rw [hiddenBit_eq]; ring
        _ ≤ d * (n / d) := Nat.mul_le_mul_left d hplaces
        _ ≤ n := Nat.mul_div_le n d
    have hud : u * d < hiddenBit * (d * 2 ^ places (n / d) : Nat) := by
      have hle : u ≤ y.units := by omega
      have hlt : (y.units * d : Nat) < (hiddenBit * (d * 2 ^ places (n / d)) : Nat) := by
        calc y.units * d < hiddenBit * 2 ^ places (n / d) * d := Nat.mul_lt_mul_of_pos_right hlt hd
          _ = hiddenBit * (d * 2 ^ places (n / d)) := by ring
      calc u * d ≤ y.units * d := Int.mul_le_mul_of_nonneg_right hle (Int.natCast_nonneg d)
        _ < hiddenBit * (d * 2 ^ places (n / d) : Nat) := by exact_mod_cast hlt
    obtain ⟨hnear, -⟩ := halfEven_nearest hD hiddenBit (n := n)
    have hfirst : (hiddenBit : Int) * (d * 2 ^ places (n / d) : Nat) ≤ n := by exact_mod_cast hfirst
    have hstrict : (significandOf n d * (d * 2 ^ places (n / d) : Nat) - n : Int).natAbs <
        (u * d - n).natAbs := by
      rw [← significandOf] at hnear
      omega
    exact ⟨Nat.le_of_lt hstrict, fun _ h => absurd h (Nat.ne_of_lt hstrict)⟩

/-! ### The largest numbers -/

/-- What is at most a half short of an even number is rounded up to it. -/
theorem le_halfEven {m : Nat} (hd : 0 < d) (heven : m % 2 = 0) (h : 2 * (m * d) ≤ 2 * n + d) :
    m ≤ halfEven n d := by
  have hn := Nat.div_add_mod' n d
  have hr : n % d < d := Nat.mod_lt n hd
  have hafter (hm : n / d + 2 ≤ m) : n / d * d + 2 * d ≤ m * d := by
    rw [← Nat.add_mul]
    exact Nat.mul_le_mul_right d hm
  rcases halfEven_cases n d with ⟨hq, hle, htie⟩ | ⟨hq, hle, htie⟩
  · rw [hq]
    by_contra hlt
    rcases Nat.lt_or_ge (n / d + 1) m with hm | hm
    · have := hafter hm
      omega
    · have hm : m = n / d + 1 := by omega
      have : m * d = n / d * d + d := by rw [hm, Nat.add_mul, Nat.one_mul]
      omega
  · rw [hq]
    by_contra hlt
    have := hafter (by omega)
    omega

variable {k : Nat}

/-- In the last binade a significand that is rounded up beyond it is too large: there is no binade
left to carry into. -/
theorem not_inRange_of_le (hk : 2044 ≤ k) (hd : 0 < d)
    (h : d * ((4 * hiddenBit - 1) * 2 ^ k) ≤ n) : ¬ InRange n d := by
  have hbit : hiddenBit = 0x10000000000000 := rfl
  have hinf : infinite = 2047 * hiddenBit := rfl
  have hpow : 2 ^ (k + 53) ≤ n / d := by
    refine (Nat.le_div_iff_mul_le hd).mpr (Nat.le_trans ?_ h)
    rw [Nat.mul_comm, Nat.pow_add, Nat.mul_comm (2 ^ k)]
    exact Nat.mul_le_mul_left d (Nat.mul_le_mul_right _ (by decide))
  have hplaces : k + 1 ≤ places (n / d) := by
    have hne : n / d ≠ 0 := by
      have := Nat.two_pow_pos (k + 53)
      omega
    have hlog := (Nat.le_log2 hne).mpr hpow
    rw [places]
    omega
  have hlow : hiddenBit ≤ significandOf n d := le_significandOf (le_of_places_pos (by omega))
  rw [InRange, hinf]
  rcases Nat.lt_or_eq_of_le hplaces with hmore | hlast
  · -- Beyond the last binade every significand is too large.
    rw [hbit] at hlow ⊢
    omega
  · -- In it, the one that is rounded up to the next power of two.
    have htop : 2 * hiddenBit ≤ significandOf n d := by
      rw [significandOf, ← hlast]
      refine le_halfEven (Nat.mul_pos hd (Nat.two_pow_pos _)) (by decide) ?_
      have hd' : d * 2 ^ (k + 1) = 2 * (d * 2 ^ k) := by
        rw [Nat.pow_succ]
        ring
      have hn : d * ((4 * hiddenBit - 1) * 2 ^ k) + d * 2 ^ k = 4 * hiddenBit * (d * 2 ^ k) := by
        rw [hbit]
        ring
      rw [hd']
      calc 2 * (2 * hiddenBit * (2 * (d * 2 ^ k))) = 2 * (4 * hiddenBit * (d * 2 ^ k)) := by ring
        _ ≤ 2 * n + 2 * (d * 2 ^ k) := by omega
    rw [hbit] at htop ⊢
    omega

/-- **What is in range** lies below `overflow`, half a gap above the greatest double, where a tie
would be rounded up. -/
theorem inRange_iff (hd : 0 < d) : InRange (n * perOne) d ↔ n < d * overflow := by
  constructor
  · intro h
    by_contra hle
    refine not_inRange_of_le (Nat.le_of_eq (Nat.sub_add_cancel point_le).symm) hd ?_ h
    have hscale := Nat.mul_le_mul_right perOne (Nat.not_lt.mp hle)
    rwa [Nat.mul_assoc, overflow, perOne, Nat.mul_assoc, ← Nat.pow_add] at hscale
  · intro h
    refine inRange_of_lt_overflow ?_
    rw [← Nat.mul_assoc]
    exact Nat.mul_lt_mul_of_pos_right h perOne_pos

/-! ### Doubles -/

theorem nearest_lt_signBit (n d : Nat) : nearest n d < signBit := by
  have hsign : infinite < signBit := by decide
  rw [nearest_eq]
  exact Nat.lt_of_le_of_lt (Nat.min_le_right _ _) hsign

/-- The sign of a quotient goes to its double, and nothing else of the double depends on it. -/
theorem ofRatio_sign (negative : Bool) (n d : Nat) :
    (ofRatio negative n d).isNegative = negative ∧
      (ofRatio negative n d).magnitude = (ofRatio false n d).magnitude :=
  ⟨isNegative_ofMagnitude negative (nearest_lt_signBit n d), by
    rw [ofRatio, ofRatio, magnitude_ofMagnitude _ (nearest_lt_signBit n d),
      magnitude_ofMagnitude _ (nearest_lt_signBit n d)]⟩

theorem nearest_eq_infinite (hd : 0 < d) (h : d * overflow ≤ n) : nearest n d = infinite := by
  rw [nearest_eq]
  exact Nat.min_eq_right (Nat.not_lt.mp fun hrange => Nat.not_lt.mpr h ((inRange_iff hd).mp hrange))

/-- What is below a half of the least double is rounded to zero. -/
theorem nearest_eq_zero (h : 2 * (n * perOne) < d) : nearest n d = 0 := by
  have hzero : n * perOne / d = 0 := Nat.div_eq_of_lt (by omega)
  have hround := two_mul_halfEven_mul_le (n * perOne) d
  have hlt : halfEven (n * perOne) d * d < 1 * d := by omega
  have hhalf : halfEven (n * perOne) d = 0 := Nat.lt_one_iff.mp (Nat.lt_of_mul_lt_mul_right hlt)
  rw [nearest_eq, significandOf, hzero, places, Nat.log2_zero, Nat.zero_sub, Nat.pow_zero,
    Nat.mul_one, hhalf]
  exact Nat.min_eq_left (Nat.zero_le _)

theorem isFinite_ofRatio_iff (negative : Bool) (hd : 0 < d) :
    (ofRatio negative n d).isFinite = true ↔ n < d * overflow := by
  obtain ⟨-, hfinite, -⟩ := units_eq_of_magnitude_eq (ofRatio_sign negative n d).2
  rw [hfinite]
  constructor
  · intro h
    by_contra hle
    rw [ofRatio, nearest_eq_infinite hd (Nat.not_lt.mp hle)] at h
    exact absurd h (by decide)
  · exact fun h => (ofRatio_of_inRange ((inRange_iff hd).mpr h)).1

/-! ### What a double is worth -/

/-- `signed negative n` is `n` with a sign. -/
def signed (negative : Bool) (n : Int) : Int :=
  if negative then -n else n

theorem signed_signed (negative : Bool) (n : Int) : signed negative (signed negative n) = n := by
  cases negative with
  | true => exact Int.neg_neg n
  | false => rfl

theorem natAbs_signed (negative : Bool) (n : Int) : (signed negative n).natAbs = n.natAbs := by
  cases negative with
  | true => exact Int.natAbs_neg n
  | false => rfl

theorem toRat_eq (x : Binary64) :
    x.toRat = (signed x.isNegative x.units : Int) / (perOne : Nat) := by
  have hperOne : ((perOne : Nat) : ℚ) = 2 ^ 1074 := by
    rw [perOne, point, Nat.cast_pow, Nat.cast_ofNat]
  rw [toRat, ← hperOne, signed]
  split
  · push_cast
    ring
  · rw [one_mul]
    rfl

/-- How far a double is from a quotient. -/
theorem abs_toRat_sub (negative : Bool) (hd : 0 < d) (x : Binary64) :
    |x.toRat - (signed negative n : Int) / d| =
      ((signed negative (signed x.isNegative x.units) * d - (n * perOne : Nat) : Int).natAbs : ℚ) /
        (perOne * d : Nat) := by
  have hP : (0 : ℚ) < (perOne : Nat) := Nat.cast_pos.mpr perOne_pos
  have hd : (0 : ℚ) < d := Nat.cast_pos.mpr hd
  have hsign :
      (signed negative (signed x.isNegative x.units) * d - (n * perOne : Nat) : Int).natAbs =
      (signed x.isNegative x.units * d - signed negative n * perOne : Int).natAbs := by
    rw [← natAbs_signed negative]
    congr 1
    cases negative with
    | true => simp only [signed, if_true]; push_cast; ring
    | false => simp only [signed, Bool.false_eq_true, if_false]; push_cast; ring
  rw [toRat_eq, hsign, Nat.cast_natAbs, div_sub_div _ _ hP.ne' hd.ne', abs_div,
    abs_of_pos (mul_pos hP hd)]
  push_cast
  rw [mul_comm (perOne : ℚ) (signed negative n : ℚ)]

/-- **A quotient is rounded to the nearest double**, and to the even one of two. What is at most as
far is on one of the two multiples around it. -/
theorem rounds_ofRatio (negative : Bool) (hd : 0 < d)
    (hfinite : (ofRatio negative n d).isFinite = true) :
    Rounds negative ((signed negative n : Int) / d) (ofRatio negative n d) := by
  have hrange := (inRange_iff hd).mpr ((isFinite_ofRatio_iff negative hd).mp hfinite)
  obtain ⟨hnegative, hmagnitude⟩ := ofRatio_sign negative n d
  obtain ⟨hunits, -, hsignificand⟩ := units_eq_of_magnitude_eq hmagnitude
  rw [(ofRatio_of_inRange hrange).2] at hunits
  have hparity : (ofRatio negative n d).significand % 2 = significandOf (n * perOne) d % 2 := by
    rw [hsignificand, ofRatio, nearest_eq, Nat.min_eq_left (Nat.le_of_lt hrange)]
    exact significand_ofMagnitude_mod_two hrange
  -- In units of the least double, what is rounded is a whole number of spacings.
  have hself :
      signed negative (signed (ofRatio negative n d).isNegative (ofRatio negative n d).units) =
      rounded (n * perOne) d := by
    rw [hnegative, signed_signed, hunits, rounded]
  have hbase : (0 : ℚ) < (perOne * d : Nat) := Nat.cast_pos.mpr (Nat.mul_pos perOne_pos hd)
  have hother (y : Binary64) := rounded_nearest (n := n * perOne) hd (y := y)
    (u := signed negative (signed y.isNegative y.units))
    (by rw [natAbs_signed, natAbs_signed, Int.natAbs_natCast])
  -- As near as any other double; and if one is as near, then even.
  refine ⟨hnegative, fun y _ => ?_, fun y _ hne heq => ?_⟩
  · rw [abs_toRat_sub negative hd, abs_toRat_sub negative hd, hself]
    exact div_le_div_of_nonneg_right (Nat.cast_le.mpr (hother y).1) hbase.le
  · rw [abs_toRat_sub negative hd, abs_toRat_sub negative hd, hself,
      div_left_inj' hbase.ne', Nat.cast_inj] at heq
    rw [hparity]
    refine (hother y).2 (fun hu => hne ?_) heq
    rw [toRat_eq, toRat_eq, ← signed_signed negative (signed y.isNegative y.units), hu, ← hself,
      signed_signed]

/-! ### The nearest double is one -/

/-- Doubles grow with their magnitude: within a binade by their significands, and from one binade to
the next by their spacing. -/
theorem units_lt_of_magnitude_lt {x y : Binary64} (h : x.magnitude < y.magnitude) :
    x.units < y.units := by
  have hpos : 0 < hiddenBit := by decide
  have hfraction : x.fraction < hiddenBit := Nat.mod_lt _ hpos
  rcases Nat.lt_or_eq_of_le (Nat.div_le_div_right (c := hiddenBit) (Nat.le_of_lt h)) with hlt | heq
  · -- In another binade.
    have hy : hiddenBit * 2 ^ (y.biased - 1) ≤ y.units := by
      have hne : ¬ y.biased = 0 := Nat.ne_zero_of_lt hlt
      rw [units, significand, if_neg hne]
      exact Nat.mul_le_mul_right _ (Nat.le_add_right _ _)
    refine Nat.lt_of_lt_of_le ?_ hy
    by_cases hzero : x.biased = 0
    · have hone : x.units = x.fraction := by
        rw [units, significand, spacing, hzero, if_pos rfl]
        exact Nat.mul_one _
      exact hone ▸ Nat.lt_of_lt_of_le hfraction (Nat.le_mul_of_pos_right _ (Nat.two_pow_pos _))
    · have hlt : x.biased < y.biased := hlt
      have hstep : 2 * 2 ^ (x.biased - 1) ≤ 2 ^ (y.biased - 1) := by
        rw [← Nat.pow_succ']
        exact Nat.pow_le_pow_right (by decide) (by omega)
      calc x.units < 2 * hiddenBit * 2 ^ (x.biased - 1) :=
            Nat.mul_lt_mul_of_pos_right x.significand_lt (Nat.two_pow_pos _)
        _ = hiddenBit * (2 * 2 ^ (x.biased - 1)) := by ring
        _ ≤ hiddenBit * 2 ^ (y.biased - 1) := Nat.mul_le_mul_left _ hstep
  · -- In one binade, where the spacing is the same.
    have hbiased : x.biased = y.biased := heq
    have hlt : x.fraction < y.fraction := by
      have hx : hiddenBit * x.biased + x.fraction = x.magnitude := Nat.div_add_mod _ _
      have hy : hiddenBit * y.biased + y.fraction = y.magnitude := Nat.div_add_mod _ _
      rw [hbiased] at hx
      omega
    have hsignificand : x.significand < y.significand := by
      rw [significand, significand, hbiased]
      split <;> omega
    rw [units, units, spacing, spacing, hbiased]
    exact Nat.mul_lt_mul_of_pos_right hsignificand (Nat.two_pow_pos _)

theorem significand_mod_two (x : Binary64) : x.significand % 2 = x.magnitude % 2 := by
  have hbit : hiddenBit = 0x10000000000000 := rfl
  rw [significand, biased, fraction, hbit]
  split <;> omega

/-- What lies between two numbers is nearer than one of them. -/
theorem not_between {a b c q : ℚ} (hac : a < c) (hcb : c < b) (ha : |a - q| ≤ |c - q|)
    (hb : |b - q| ≤ |c - q|) : False := by
  rcases le_total q c with hq | hq
  · rw [abs_of_nonneg (sub_nonneg.mpr hq), abs_of_nonneg (by linarith)] at hb
    linarith
  · rw [abs_of_nonpos (sub_nonpos.mpr hq), abs_of_nonpos (by linarith)] at ha
    linarith

variable {negative : Bool} {q : ℚ} {x y : Binary64}

/-- Of two doubles that are as near, one is odd or there is another between them. So neither can be
the nearest with an even significand while the other is. -/
theorem Rounds.not_magnitude_lt (hx : Rounds negative q x) (hy : Rounds negative q y)
    (hxf : x.isFinite = true) (hyf : y.isFinite = true) : ¬ x.magnitude < y.magnitude := by
  intro hlt
  have hP : (0 : ℚ) < (perOne : Nat) := Nat.cast_pos.mpr perOne_pos
  have hworth (z : Binary64) (hz : z.isNegative = negative) :
      z.toRat = (signed negative z.units : Int) / (perOne : Nat) := hz ▸ toRat_eq z
  have hmono {v w : Binary64} (hv : v.isNegative = negative) (hw : w.isNegative = negative)
      (h : v.magnitude < w.magnitude) :
      (negative = false ∧ v.toRat < w.toRat) ∨ (negative = true ∧ w.toRat < v.toRat) := by
    have hunits := units_lt_of_magnitude_lt h
    rw [hworth v hv, hworth w hw, div_lt_div_iff_of_pos_right hP, div_lt_div_iff_of_pos_right hP,
      Int.cast_lt, Int.cast_lt]
    cases negative with
    | false => exact .inl ⟨rfl, by simpa [signed] using hunits⟩
    | true => exact .inr ⟨rfl, by simpa [signed] using hunits⟩
  have hne : y.toRat ≠ x.toRat := by
    rcases hmono hx.isNegative hy.isNegative hlt with ⟨-, h⟩ | ⟨-, h⟩
    · exact h.ne'
    · exact h.ne
  have heq : |x.toRat - q| = |y.toRat - q| := le_antisymm (hx.nearest y hyf) (hy.nearest x hxf)
  have hxeven := hx.even y hyf hne heq
  have hyeven := hy.even x hxf hne.symm heq.symm
  rw [significand_mod_two] at hxeven hyeven
  -- The next double after `x` is not `y`, and so it lies between them.
  have hsign := y.magnitude_lt
  have hz := magnitude_ofMagnitude negative (m := x.magnitude + 1) (by omega)
  have hznegative := isNegative_ofMagnitude negative (m := x.magnitude + 1) (by omega)
  have hzf : (ofMagnitude negative (x.magnitude + 1)).isFinite = true := by
    rw [isFinite, biased, decide_eq_true_eq] at hyf ⊢
    rw [hz]
    exact Nat.lt_of_le_of_lt (Nat.div_le_div_right (by omega)) hyf
  have hnearx := hx.nearest _ hzf
  have hneary := hy.nearest _ hzf
  rcases hmono hx.isNegative hznegative (by omega) with ⟨hn, hxz⟩ | ⟨hn, hxz⟩ <;>
    rcases hmono hznegative hy.isNegative (by omega) with ⟨hn', hzy⟩ | ⟨hn', hzy⟩
  · exact not_between hxz hzy hnearx hneary
  · cases hn.symm.trans hn'
  · cases hn.symm.trans hn'
  · exact not_between hzy hxz hneary hnearx

theorem eq_of_magnitude_eq (hsign : x.isNegative = y.isNegative)
    (h : x.magnitude = y.magnitude) : x = y := by
  have hbit : signBit = 0x8000000000000000 := rfl
  have hx := x.bits.toNat_lt
  have hy := y.bits.toNat_lt
  have hbits : x.bits = y.bits := by
    rw [isNegative, isNegative, hbit, decide_eq_decide] at hsign
    rw [magnitude, magnitude, hbit] at h
    exact UInt64.toNat_inj.mp (by omega)
  cases x
  cases y
  exact congrArg mk hbits

/-- **There is one nearest double** of each sign. Without a tie the distances differ, and in a tie
one of the two is odd. -/
theorem Rounds.unique (hx : Rounds negative q x) (hy : Rounds negative q y)
    (hxf : x.isFinite = true) (hyf : y.isFinite = true) : x = y := by
  refine eq_of_magnitude_eq (hx.isNegative.trans hy.isNegative.symm) ?_
  rcases Nat.lt_trichotomy x.magnitude y.magnitude with h | h | h
  · exact absurd h (hx.not_magnitude_lt hy hxf hyf)
  · exact h
  · exact absurd h (hy.not_magnitude_lt hx hyf hxf)

/-! ### Where the finite doubles end -/

/-- `overflow` is half a gap above the greatest double. -/
theorem overflow_eq : (overflow : ℚ) = 2 ^ 1024 - 2 ^ 970 := by
  have hsum (k : Nat) : (((4 * hiddenBit - 1) * 2 ^ k : Nat) : ℚ) + 2 ^ k = 2 ^ (54 + k) := by
    have h : (4 * hiddenBit - 1) * 2 ^ k + 2 ^ k = 2 ^ (54 + k) := by
      rw [Nat.pow_add, ← Nat.succ_mul]
      rfl
    exact_mod_cast h
  have hpoint : 2044 - point = 970 := by rw [point]
  rw [eq_sub_iff_add_eq, overflow, hpoint]
  exact hsum 970

end FacetQuery.Binary64
