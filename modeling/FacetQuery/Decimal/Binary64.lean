/-!
# Decimal — Binary floating point

Finite doubles as whole numbers of `2 ^ -1074`, so that every question about them is one of
natural numbers.

- `Binary64.nearest` rounds a quotient of natural numbers to the nearest double, a tie to the even one.
- `Binary64.times` and `Binary64.dividedBy` are the exact product and quotient, rounded once.
-/

namespace FacetQuery

/-- A double, by its 64 bits. -/
structure Binary64 where
  bits : UInt64
deriving DecidableEq, Repr

namespace Binary64

/-! ### The parts of a double -/

/-- The weight of the sign bit, `2 ^ 63`. -/
def signBit : Nat := 0x8000000000000000

/-- The weight of the last exponent bit and of the leading one above the fraction, `2 ^ 52`. -/
def hiddenBit : Nat := 0x10000000000000

/-- `isNegative x` holds when the sign bit is set. -/
def isNegative (x : Binary64) : Bool :=
  signBit ≤ x.bits.toNat

/-- `magnitude x` is `x` without its sign bit; among finite doubles it grows with the absolute value. -/
def magnitude (x : Binary64) : Nat :=
  x.bits.toNat % signBit

/-- `biased x` is the exponent field. -/
def biased (x : Binary64) : Nat :=
  x.magnitude / hiddenBit

/-- `fraction x` is the field below the exponent. -/
def fraction (x : Binary64) : Nat :=
  x.magnitude % hiddenBit

/-- `isFinite x` holds unless the exponent field is all ones. -/
def isFinite (x : Binary64) : Bool :=
  x.biased < 2047

/-- `isNaN x` holds when `x` is no number at all. -/
def isNaN (x : Binary64) : Bool :=
  x.biased == 2047 && x.fraction != 0

/-- `significand x` is the fraction with its leading one, which only subnormal doubles lack. -/
def significand (x : Binary64) : Nat :=
  if x.biased = 0 then x.fraction else hiddenBit + x.fraction

/-- `spacing x` is the weight of the last bit of `x`, in units of `2 ^ -1074`. -/
def spacing (x : Binary64) : Nat :=
  Nat.pow 2 (x.biased - 1)

/-- `units x` is the absolute value of a finite `x`, in units of `2 ^ -1074`. -/
def units (x : Binary64) : Nat :=
  x.significand * x.spacing

/-! ### Rounding -/

/-- `halfEven n d` is `n / d` rounded to the nearest whole number, a half to the even one. -/
def halfEven (n d : Nat) : Nat :=
  let q := n / d
  let r := n % d
  if 2 * r < d then q else if d < 2 * r then q + 1 else q + q % 2

/-- The magnitude of infinity: an exponent field of ones over a zero fraction. -/
def infinite : Nat :=
  2047 * hiddenBit

/-- `nearest n d` is the magnitude of the double nearest to `n / d`, a tie going to the even
significand and everything from the largest double's upper half gap on to infinity.

With `s` places of the quotient (in units of `2 ^ -1074`) beyond the 53 that fit, the rounded
significand `m` stands for `m * 2 ^ s` units, and `s * 2 ^ 52 + m` packs both, also when `m` has
been rounded up to `2 ^ 53` and when it is subnormal. -/
def nearest (n d : Nat) : Nat :=
  let s := (n * Nat.pow 2 1074 / d).log2 - 52
  min (s * hiddenBit + halfEven (n * Nat.pow 2 1074) (d * Nat.pow 2 s)) infinite

/-- `ofMagnitude negative m` sets the sign bit as told. -/
def ofMagnitude (negative : Bool) (m : Nat) : Binary64 :=
  ⟨UInt64.ofNat (if negative then signBit + m else m)⟩

/-- `ofRatio negative n d` is the double nearest to `n / d` or to `-n / d`. -/
def ofRatio (negative : Bool) (n d : Nat) : Binary64 :=
  ofMagnitude negative (nearest n d)

/-- `ofInt i` is the double nearest to `i`. -/
def ofInt (i : Int) : Binary64 :=
  ofRatio (i < 0) i.natAbs 1

/-- `negate x` flips the sign, of zero too. -/
def negate (x : Binary64) : Binary64 :=
  ofMagnitude (!x.isNegative) x.magnitude

/-- `times x y` is the product of two finite non-negative doubles, rounded once. -/
def times (x y : Binary64) : Binary64 :=
  ofRatio false (x.units * y.units) (Nat.pow 2 2148)

/-- `dividedBy x y` is the quotient of two finite non-negative doubles, rounded once. -/
def dividedBy (x y : Binary64) : Binary64 :=
  ofRatio false x.units y.units

end Binary64

end FacetQuery
