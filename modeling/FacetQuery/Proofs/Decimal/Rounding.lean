import FacetQuery.Decimal.Binary64
import Mathlib.Algebra.Order.Ring.Nat
import Mathlib.Tactic.Linarith
import Mathlib.Tactic.Ring

/-!
# Decimal — How far rounding goes

A quotient is rounded to a whole number of spacings, and by no more than half of one.

* `Binary64.units_ofMagnitude`: the magnitude of a double, put together from a significand and a
  spacing and taken apart again.
* `Binary64.InRange`: what is not rounded to infinity; `inRange_of_le`, `inRange_of_lt` say how far
  this goes.
* `Binary64.ofRatio_le`, `Binary64.dividedBy_le`: a quotient of at most a power of two is rounded to
  at most this power.
* `Binary64.ofRatio_one`: a whole number from one on grows by no more than one part in `2 ^ 53`.
* `Binary64.isFinite_times`: a product of two numbers that have been rounded before.
-/

namespace FacetQuery.Binary64

/-! ### Significand and spacing -/

/-- The sign bit and the magnitude do not meet. -/
theorem magnitude_ofMagnitude (negative : Bool) {m : Nat} (h : m < signBit) :
    (ofMagnitude negative m).magnitude = m := by
  have hsign : signBit = 0x8000000000000000 := rfl
  rw [magnitude, ofMagnitude]
  rw [hsign] at h ⊢
  cases negative with
  | true =>
      have hm : 0x8000000000000000 + m < UInt64.size := by
        rw [UInt64.size]
        omega
      rw [if_pos rfl, UInt64.toNat_ofNat_of_lt' hm, Nat.add_mod_left, Nat.mod_eq_of_lt h]
  | false =>
      have hm : m < UInt64.size := Nat.lt_trans h (by decide)
      rw [if_neg Bool.false_ne_true, UInt64.toNat_ofNat_of_lt' hm, Nat.mod_eq_of_lt h]

/-- The sign does not matter. -/
theorem isFinite_negate (x : Binary64) : x.negate.isFinite = x.isFinite := by
  have hm : x.negate.magnitude = x.magnitude :=
    magnitude_ofMagnitude _ (Nat.mod_lt _ (by decide))
  rw [isFinite, isFinite, biased, biased, hm]

theorem isFinite_ofMagnitude {m : Nat} (h : m < infinite) :
    (ofMagnitude false m).isFinite = true := by
  have hsign : infinite < signBit := by decide
  rw [isFinite, decide_eq_true_iff, biased, magnitude_ofMagnitude false (Nat.lt_trans h hsign)]
  exact Nat.div_lt_of_lt_mul (by rw [Nat.mul_comm]; exact h)

/-- A significand of up to `2 ^ 53` and a spacing, packed into a magnitude: only the least spacing
goes with a significand below `2 ^ 52`. -/
theorem units_ofMagnitude {s m : Nat} (hfinite : s * hiddenBit + m < infinite)
    (hm : m ≤ 2 * hiddenBit) (hs : 0 < s → hiddenBit ≤ m) :
    (ofMagnitude false (s * hiddenBit + m)).units = m * 2 ^ s := by
  have hsign : infinite < signBit := by decide
  have hmag := magnitude_ofMagnitude false (Nat.lt_trans hfinite hsign)
  have hbit : hiddenBit = 0x10000000000000 := rfl
  rw [units, significand, spacing, biased, fraction, hmag]
  rw [hbit] at hm hs ⊢
  rcases Nat.lt_or_ge m 0x10000000000000 with hlow | hhigh
  · -- Below the hidden bit.
    have hzero : s = 0 := by
      by_contra h
      have := hs (Nat.pos_of_ne_zero h)
      omega
    subst hzero
    have hdiv : (0 * 0x10000000000000 + m) / 0x10000000000000 = 0 := by omega
    have hmod : (0 * 0x10000000000000 + m) % 0x10000000000000 = m := by omega
    rw [hdiv, hmod]
    rfl
  · rcases Nat.lt_or_ge m (2 * 0x10000000000000) with hmid | htop
    · -- The hidden bit is the one that the exponent counts.
      have hdiv : (s * 0x10000000000000 + m) / 0x10000000000000 = s + 1 := by omega
      have hmod : (s * 0x10000000000000 + m) % 0x10000000000000 = m - 0x10000000000000 := by omega
      rw [hdiv, hmod, if_neg (Nat.succ_ne_zero s), Nat.add_sub_cancel, Nat.add_sub_cancel' hhigh]
      rfl
    · -- Rounded up to the next binade.
      have heq : m = 2 * 0x10000000000000 := by omega
      have hdiv : (s * 0x10000000000000 + m) / 0x10000000000000 = s + 2 := by omega
      have hmod : (s * 0x10000000000000 + m) % 0x10000000000000 = 0 := by omega
      have hexp : s + 2 - 1 = s + 1 := rfl
      rw [hdiv, hmod, if_neg (Nat.succ_ne_zero _), hexp, heq, Nat.pow_eq, Nat.pow_succ]
      ring

/-! ### Rounding to a whole number -/

/-- A quotient is never rounded below its whole part, nor above the next whole number. -/
theorem div_le_halfEven (n d : Nat) : n / d ≤ halfEven n d := by
  unfold halfEven
  simp only
  split
  · exact Nat.le_refl _
  · split
    · exact Nat.le_succ _
    · exact Nat.le_add_right _ _

theorem halfEven_le_div (n d : Nat) : halfEven n d ≤ n / d + 1 := by
  unfold halfEven
  simp only
  split
  · exact Nat.le_succ _
  · split
    · exact Nat.le_refl _
    · exact Nat.add_le_add_left (Nat.le_of_lt_succ (Nat.mod_lt _ (by decide))) _

/-- Rounding adds no more than a half. -/
theorem two_mul_halfEven_mul_le (n d : Nat) : 2 * (halfEven n d * d) ≤ 2 * n + d := by
  have hn := Nat.div_add_mod n d
  unfold halfEven
  simp only
  split
  · have : n / d * d ≤ n := Nat.div_mul_le_self n d
    omega
  · split
    · next h =>
        have : (n / d + 1) * d = d * (n / d) + d := by ring
        omega
    · next h _ =>
        have hle : (n / d + n / d % 2) * d ≤ d * (n / d) + d := by
          have : n / d % 2 * d ≤ 1 * d := Nat.mul_le_mul_right d (by omega)
          calc (n / d + n / d % 2) * d = d * (n / d) + n / d % 2 * d := by ring
            _ ≤ d * (n / d) + d := by omega
        omega

/-- A quotient of at most a whole number is rounded to at most this number. -/
theorem halfEven_le_of_le_mul {n d m : Nat} (hd : 0 < d) (h : n ≤ m * d) : halfEven n d ≤ m := by
  have hround := two_mul_halfEven_mul_le n d
  by_contra hlt
  have hm : (m + 1) * d ≤ halfEven n d * d := Nat.mul_le_mul_right d (by omega)
  have : (m + 1) * d = m * d + d := by ring
  omega

/-! ### The places that do not fit -/

/-- `places q` is the number of binary places of `q` beyond the 53 that fit. -/
def places (q : Nat) : Nat :=
  q.log2 - 52

theorem hiddenBit_eq : hiddenBit = 2 ^ 52 := rfl

/-- Without the places that do not fit, 53 places are left at most. -/
theorem lt_two_pow_places (q : Nat) : q < 2 ^ 53 * 2 ^ places q := by
  have hlog : q < 2 ^ (q.log2 + 1) := Nat.lt_log2_self
  have hexp : q.log2 + 1 ≤ 53 + places q := by
    rw [places]
    omega
  rw [← Nat.pow_add]
  exact Nat.lt_of_lt_of_le hlog (Nat.pow_le_pow_right (by decide) hexp)

theorem two_pow_places_le {q : Nat} (h : 2 ^ 52 ≤ q) : 2 ^ 52 * 2 ^ places q ≤ q := by
  have hlog : 52 ≤ q.log2 := (Nat.le_log2 (by omega)).mpr h
  rw [← Nat.pow_add, places, Nat.add_sub_cancel' hlog]
  exact Nat.log2_self_le (by omega)

/-- Either no place is left out, or the leading one that fits is there. -/
theorem le_of_places_pos {q : Nat} (h : 0 < places q) : 2 ^ 52 ≤ q := by
  have hlog : 52 ≤ q.log2 := by
    rw [places] at h
    omega
  have hq : q ≠ 0 := by
    rintro rfl
    rw [Nat.log2_zero] at hlog
    omega
  exact (Nat.le_log2 hq).mp hlog

variable {n d k : Nat}

/-- `significandOf n d` is `n / d` in units of its last place that fits, rounded. -/
def significandOf (n d : Nat) : Nat :=
  halfEven n (d * 2 ^ places (n / d))

theorem div_mul_two_pow (n d s : Nat) : n / (d * 2 ^ s) = n / d / 2 ^ s :=
  (Nat.div_div_eq_div_mul n d (2 ^ s)).symm

/-- A significand has 53 places, or is rounded up to the next power of two. -/
theorem significandOf_le (n d : Nat) : significandOf n d ≤ 2 * hiddenBit := by
  have hq : n / d / 2 ^ places (n / d) < 2 ^ 53 :=
    Nat.div_lt_of_lt_mul (by rw [Nat.mul_comm]; exact lt_two_pow_places (n / d))
  have hround := halfEven_le_div n (d * 2 ^ places (n / d))
  rw [div_mul_two_pow] at hround
  rw [significandOf, hiddenBit_eq]
  omega

theorem le_significandOf (h : 2 ^ 52 ≤ n / d) : hiddenBit ≤ significandOf n d := by
  have hq : 2 ^ 52 ≤ n / d / 2 ^ places (n / d) :=
    (Nat.le_div_iff_mul_le (Nat.two_pow_pos _)).mpr (two_pow_places_le h)
  have hround := div_le_halfEven n (d * 2 ^ places (n / d))
  rw [div_mul_two_pow] at hround
  rw [significandOf, hiddenBit_eq]
  omega

/-- `point` is the number of binary places behind the point, down to the last one of all doubles. -/
@[irreducible] def point : Nat :=
  1074

/-- `perOne` is the number of units in one. -/
def perOne : Nat :=
  2 ^ point

/-- **The nearest double** as its magnitude: the places left out count the binades, and the
significand carries into them where it is rounded up to a power of two. -/
theorem nearest_eq (n d : Nat) :
    nearest n d =
      min (places (n * perOne / d) * hiddenBit + significandOf (n * perOne) d) infinite := by
  have hpoint : 1074 = point := by rw [point]
  simp only [nearest, significandOf, places, perOne, hpoint, Nat.pow_eq]

/-- `InRange n d`: a quotient of `n / d` units is not rounded to infinity. -/
def InRange (n d : Nat) : Prop :=
  places (n / d) * hiddenBit + significandOf n d < infinite

/-- What is not rounded to infinity is a finite double, of so many spacings. -/
theorem ofRatio_of_inRange (h : InRange (n * perOne) d) :
    (ofRatio false n d).isFinite = true ∧
      (ofRatio false n d).units =
        significandOf (n * perOne) d * 2 ^ places (n * perOne / d) := by
  have hnearest := nearest_eq n d
  rw [Nat.min_eq_left (Nat.le_of_lt h)] at hnearest
  rw [ofRatio, hnearest]
  exact ⟨isFinite_ofMagnitude h, units_ofMagnitude h (significandOf_le _ _)
    fun hs => le_significandOf (le_of_places_pos hs)⟩

/-! ### Bounds -/

/-- The places that do not fit are at most those of a power of two that bounds the number. -/
theorem places_le {q : Nat} (h : q ≤ 2 ^ k) : places q ≤ k - 52 := by
  rcases Nat.eq_zero_or_pos q with rfl | hq
  · simp [places]
  · have hlog : q.log2 ≤ k := by
      have := Nat.log2_self_le (Nat.pos_iff_ne_zero.mp hq)
      exact (Nat.pow_le_pow_iff_right (by decide)).mp (Nat.le_trans this h)
    exact Nat.sub_le_sub_right hlog 52

/-- A quotient of at most a power of two is rounded to at most this power. -/
theorem significandOf_mul_le (hd : 0 < d) (h : n ≤ d * 2 ^ k) :
    significandOf n d * 2 ^ places (n / d) ≤ 2 ^ k := by
  have hq : n / d ≤ 2 ^ k := Nat.div_le_of_le_mul h
  have hs := places_le hq
  have hk : places (n / d) ≤ k := Nat.le_trans hs (Nat.sub_le _ _)
  have hsplit : 2 ^ k = 2 ^ (k - places (n / d)) * 2 ^ places (n / d) := by
    rw [← Nat.pow_add, Nat.sub_add_cancel hk]
  rw [hsplit]
  refine Nat.mul_le_mul_right _ (halfEven_le_of_le_mul (Nat.mul_pos hd (Nat.two_pow_pos _)) ?_)
  calc n ≤ d * 2 ^ k := h
    _ = 2 ^ (k - places (n / d)) * (d * 2 ^ places (n / d)) := by rw [hsplit]; ring

/-- A quotient of at most a power of two is in range, if that power is. -/
theorem inRange_of_le (hk : k ≤ 2000) (h : n ≤ d * 2 ^ k) : InRange n d := by
  have hs := places_le (Nat.div_le_of_le_mul h)
  have hm := significandOf_le n d
  have hbit : hiddenBit = 0x10000000000000 := rfl
  have hinf : infinite = 2047 * 0x10000000000000 := rfl
  rw [InRange, hinf]
  rw [hbit] at hm ⊢
  omega

/-- A quotient of at least a power of two is rounded to at least this power. -/
theorem le_significandOf_mul (hk : 52 ≤ k) (h : 2 ^ k ≤ n / d) :
    2 ^ k ≤ significandOf n d * 2 ^ places (n / d) := by
  have hq : n / d ≠ 0 := by
    have := Nat.two_pow_pos k
    omega
  have hlog : k ≤ (n / d).log2 := (Nat.le_log2 hq).mpr h
  have hplaces : (n / d).log2 - places (n / d) + places (n / d) = (n / d).log2 := by
    rw [places]
    omega
  have hfull : 2 ^ ((n / d).log2 - places (n / d)) ≤ n / d / 2 ^ places (n / d) := by
    rw [Nat.le_div_iff_mul_le (Nat.two_pow_pos _), ← Nat.pow_add, hplaces]
    exact Nat.log2_self_le hq
  have hround := div_le_halfEven n (d * 2 ^ places (n / d))
  rw [div_mul_two_pow] at hround
  calc 2 ^ k ≤ 2 ^ (n / d).log2 := Nat.pow_le_pow_right (by decide) hlog
    _ = 2 ^ ((n / d).log2 - places (n / d)) * 2 ^ places (n / d) := by rw [← Nat.pow_add, hplaces]
    _ ≤ significandOf n d * 2 ^ places (n / d) :=
      Nat.mul_le_mul_right _ (Nat.le_trans hfull hround)

/-- A quotient of at least `2 ^ 52` grows by no more than one part in `2 ^ 53`: half of a last
place, with 53 places in front of it. -/
theorem significandOf_mul_mul_le (h : hiddenBit ≤ n / d) :
    significandOf n d * 2 ^ places (n / d) * d * (2 * hiddenBit) ≤ n * (2 * hiddenBit + 1) := by
  have hround := two_mul_halfEven_mul_le n (d * 2 ^ places (n / d))
  have hplaces : d * (hiddenBit * 2 ^ places (n / d)) ≤ n :=
    Nat.le_trans (Nat.mul_le_mul_left d (two_pow_places_le h)) (Nat.mul_div_le n d)
  have hscale := Nat.mul_le_mul_right hiddenBit hround
  calc significandOf n d * 2 ^ places (n / d) * d * (2 * hiddenBit)
      = 2 * (halfEven n (d * 2 ^ places (n / d)) * (d * 2 ^ places (n / d))) * hiddenBit := by
        rw [significandOf]
        ring
    _ ≤ (2 * n + d * 2 ^ places (n / d)) * hiddenBit := hscale
    _ = n * (2 * hiddenBit) + d * (hiddenBit * 2 ^ places (n / d)) := by ring
    _ ≤ n * (2 * hiddenBit + 1) := by
      rw [Nat.mul_add, Nat.mul_one]
      exact Nat.add_le_add_left hplaces _

/-- Below the last binade no significand is too large, and in it one that fits is not. What is
rounded up to the next power of two has one place more. -/
theorem inRange_of_lt (hk : k ≤ 2044) (h : n < d * ((4 * hiddenBit - 1) * 2 ^ k)) :
    InRange n d := by
  have hinf : infinite = 2047 * hiddenBit := rfl
  have hbit : hiddenBit = 0x10000000000000 := rfl
  have hm := significandOf_le n d
  have hs : places (n / d) ≤ k + 1 := by
    have hq : n / d < 2 ^ (k + 54) := by
      refine Nat.div_lt_of_lt_mul (Nat.lt_of_lt_of_le h (Nat.mul_le_mul_left d ?_))
      rw [Nat.pow_add, Nat.mul_comm]
      exact Nat.mul_le_mul_left _ (by decide)
    rcases Nat.eq_zero_or_pos (n / d) with hzero | hpos
    · simp [places, hzero]
    · have hlog : (n / d).log2 < k + 54 := (Nat.log2_lt (by omega)).mpr hq
      rw [places]
      omega
  -- Only in the last binade does it matter how the significand is rounded.
  rcases Nat.lt_or_eq_of_le hs with hlow | hlast
  · rw [InRange, hinf]
    rw [hbit] at hm ⊢
    omega
  · -- A half more than `n / d` is still below `2 ^ 53` spacings.
    have hround := two_mul_halfEven_mul_le n (d * 2 ^ places (n / d))
    have hspacing : d * 2 ^ places (n / d) = 2 * (d * 2 ^ k) := by
      rw [hlast, Nat.pow_succ]
      ring
    have hsum : 2 * (significandOf n d * (2 * (d * 2 ^ k))) <
        2 * (4 * hiddenBit * (d * 2 ^ k)) := by
      have hn : d * ((4 * hiddenBit - 1) * 2 ^ k) + d * 2 ^ k = 4 * hiddenBit * (d * 2 ^ k) := by
        rw [hbit]
        ring
      rw [significandOf, ← hspacing]
      omega
    have hlt : significandOf n d < 2 * hiddenBit := by
      refine Nat.lt_of_mul_lt_mul_right (a := 4 * (d * 2 ^ k)) ?_
      calc significandOf n d * (4 * (d * 2 ^ k))
          = 2 * (significandOf n d * (2 * (d * 2 ^ k))) := by ring
        _ < 2 * (4 * hiddenBit * (d * 2 ^ k)) := hsum
        _ = 2 * hiddenBit * (4 * (d * 2 ^ k)) := by ring
    rw [InRange, hinf, hlast]
    rw [hbit] at hlt ⊢
    omega

/-! ### Doubles -/

variable {x y : Binary64}

theorem le_point : 52 ≤ point := by
  unfold point
  decide

theorem point_le : point ≤ 2044 := by
  unfold point
  decide

theorem perOne_pos : 0 < perOne :=
  Nat.two_pow_pos point

theorem hiddenBit_le_perOne : hiddenBit ≤ perOne := by
  rw [hiddenBit_eq]
  exact Nat.pow_le_pow_right (by decide) le_point

/-- A quotient of at most a power of two is rounded to at most this power. -/
theorem ofRatio_le (hd : 0 < d) (hk : k ≤ 2000) (h : n * perOne ≤ d * 2 ^ k) :
    (ofRatio false n d).isFinite = true ∧ (ofRatio false n d).units ≤ 2 ^ k := by
  obtain ⟨hfinite, hunits⟩ := ofRatio_of_inRange (inRange_of_le hk h)
  exact ⟨hfinite, hunits ▸ significandOf_mul_le hd h⟩

/-- To divide by one or more leads away from infinity. -/
theorem dividedBy_le (hk : k ≤ 2000) (hx : x.units ≤ 2 ^ k) (hy : perOne ≤ y.units) :
    (x.dividedBy y).isFinite = true ∧ (x.dividedBy y).units ≤ 2 ^ k := by
  refine ofRatio_le (Nat.lt_of_lt_of_le perOne_pos hy) hk ?_
  calc x.units * perOne ≤ 2 ^ k * y.units := Nat.mul_le_mul hx hy
    _ = y.units * 2 ^ k := Nat.mul_comm _ _

/-- `overflow` is the least number that is rounded to infinity, half a gap above the greatest
double. -/
def overflow : Nat :=
  (4 * hiddenBit - 1) * 2 ^ (2044 - point)

/-- **What is below half a gap above the greatest double** is not rounded to infinity. -/
theorem inRange_of_lt_overflow (hn : n < d * (overflow * perOne)) : InRange n d := by
  refine inRange_of_lt (Nat.le_of_eq (Nat.sub_add_cancel point_le)) ?_
  rwa [overflow, perOne, Nat.mul_assoc, ← Nat.pow_add] at hn

/-- `Near n x`: the double `x` exceeds `n` by no more than one part in `2 ^ 53`. -/
def Near (n : Nat) (x : Binary64) : Prop :=
  x.units * (2 * hiddenBit) ≤ n * perOne * (2 * hiddenBit + 1)

/-- A whole number below `overflow` is rounded to a double near to it, and one from one on to a
double from one on. -/
theorem ofRatio_one (hn : n < overflow) :
    (ofRatio false n 1).isFinite = true ∧ Near n (ofRatio false n 1) ∧
      (0 < n → perOne ≤ (ofRatio false n 1).units) := by
  have hrange : InRange (n * perOne) 1 := by
    refine inRange_of_lt_overflow ?_
    rw [Nat.one_mul]
    exact Nat.mul_lt_mul_of_pos_right hn perOne_pos
  obtain ⟨hfinite, hunits⟩ := ofRatio_of_inRange hrange
  refine ⟨hfinite, ?_, fun hpos => ?_⟩
  · rw [Near, hunits]
    rcases Nat.eq_zero_or_pos n with rfl | hpos
    · rw [Nat.zero_mul]
      decide
    · -- In units of the least double, one has far more places than fit.
      have hle : hiddenBit ≤ n * perOne / 1 := by
        rw [Nat.div_one]
        exact Nat.le_trans hiddenBit_le_perOne (Nat.le_mul_of_pos_left _ hpos)
      have h := significandOf_mul_mul_le hle
      rwa [Nat.mul_one] at h
  · rw [hunits]
    refine le_significandOf_mul le_point ?_
    rw [Nat.div_one]
    exact Nat.le_mul_of_pos_left perOne hpos

/-- What is left of `overflow` for a product of two numbers that have been rounded up. -/
def roomForProducts : Nat :=
  (4 * hiddenBit - 5) * 2 ^ (2044 - point)

/-- A product of two rounded numbers is finite, if the product of the numbers leaves room for what
rounding has added to both. -/
theorem isFinite_times {m : Nat} (hx : Near n x) (hy : Near m y) (h : n * m ≤ roomForProducts) :
    (x.times y).isFinite = true := by
  have hlt : x.units * y.units < perOne * perOne * overflow := by
    have hroom : n * m * ((2 * hiddenBit + 1) * (2 * hiddenBit + 1)) <
        overflow * (2 * hiddenBit * (2 * hiddenBit)) := by
      refine Nat.lt_of_le_of_lt (Nat.mul_le_mul_right _ h) ?_
      rw [roomForProducts, overflow, Nat.mul_right_comm, Nat.mul_right_comm _ (2 ^ (2044 - point))]
      exact Nat.mul_lt_mul_of_pos_right (by decide) (Nat.two_pow_pos _)
    refine Nat.lt_of_mul_lt_mul_right (a := 2 * hiddenBit * (2 * hiddenBit)) ?_
    calc x.units * y.units * (2 * hiddenBit * (2 * hiddenBit))
        = x.units * (2 * hiddenBit) * (y.units * (2 * hiddenBit)) := by ring
      _ ≤ n * perOne * (2 * hiddenBit + 1) * (m * perOne * (2 * hiddenBit + 1)) :=
        Nat.mul_le_mul hx hy
      _ = perOne * perOne * (n * m * ((2 * hiddenBit + 1) * (2 * hiddenBit + 1))) := by ring
      _ < perOne * perOne * (overflow * (2 * hiddenBit * (2 * hiddenBit))) :=
        Nat.mul_lt_mul_of_pos_left hroom (Nat.mul_pos perOne_pos perOne_pos)
      _ = perOne * perOne * overflow * (2 * hiddenBit * (2 * hiddenBit)) := by ring
  have hrange : InRange (x.units * y.units * perOne) (Nat.pow 2 2148) := by
    refine inRange_of_lt_overflow ?_
    have hsquare : Nat.pow 2 2148 = perOne * perOne := by
      have hpoint : 2148 = point + point := by rw [point]
      rw [hpoint, Nat.pow_eq, Nat.pow_add, perOne]
    rw [hsquare, ← Nat.mul_assoc]
    exact Nat.mul_lt_mul_of_pos_right hlt perOne_pos
  exact (ofRatio_of_inRange hrange).1

end FacetQuery.Binary64
